import Vitals.ThreadPublication

/-! The pace of the sampler thread in every interleaving: turns are never closer together than
the interval, whatever the work took, and what is asked of the sleeps makes up for exactly the
rest of the interval. -/
namespace Vitals.ThreadTiming
open Kernel Library Semantics

section
variable {ρ : Type} {R : Rounding} {sys : SysConst} {display : IoError → Text.Str} {interval : Nat}
variable {w w' : World ρ} {a : Action ρ} {t : Turn} {actions : List (Action ρ)}

private theorem checkedSub_eq_some {a b rest : Nat} (left : Duration.checkedSub a b = some rest) : b + rest = a := by
  unfold Duration.checkedSub at left
  split at left
  · cases left
    omega
  · cases left

private theorem restOf_some {spent rest : Nat} (left : restOf interval spent = some rest) :
    spent + rest = interval ∧ rest ≠ 0 := by
  unfold restOf at left
  split at left
  · rename_i r sub
    split at left
    · rename_i some_
      cases left
      exact ⟨checkedSub_eq_some sub,some_⟩
    · cases left
  · cases left

private theorem restOf_eq_none {spent : Nat} : restOf interval spent = none ↔ interval ≤ spent := by
  unfold restOf Duration.checkedSub
  by_cases fits : spent ≤ interval
  · rw [if_pos fits]
    by_cases whole : interval-spent = 0
    · simp [whole]
      omega
    · simp [whole]
      omega
  · rw [if_neg fits]
    simp
    omega

/-- The thread rests until a deadline that is the rest of the interval after the work was done,
and the sleep asked for so far is over by the given instant. -/
def Resting (interval : Nat) (t : Turn) (deadline past : Nat) : Prop :=
  ∃ s d armed rest, t.began = some s ∧ t.spent = some d ∧ d + rest = interval ∧ s + d ≤ armed ∧
    rest ≠ 0 ∧ deadline = armed + rest ∧ armed + t.slept ≤ past ∧ t.slept ≤ rest

def Paced (interval : Nat) (t : Turn) (w : World ρ) : Prop :=
  match w.pc with
  | .check | .start => ∀ s, t.began = some s → s + interval ≤ w.now
  | .scan s | .lock s _ _ | .swap s _ | .count s | .drift s => t.began = some s ∧ s ≤ w.now
  | .arm rest => ∃ s d, t.began = some s ∧ t.spent = some d ∧ t.slept = 0 ∧ d + rest = interval ∧ rest ≠ 0 ∧
    s + d ≤ w.now
  | .wait deadline | .poll deadline | .nap deadline => Resting interval t deadline w.now
  | .asleep deadline wake => Resting interval t deadline wake
  | .exited => True

theorem Resting.later {deadline i j : Nat} (resting : Resting interval t deadline i) (later : i ≤ j) :
    Resting interval t deadline j := by
  obtain ⟨s,d,armed,rest,began,spent,whole,after,some_,set,slept,within⟩ := resting
  exact ⟨s,d,armed,rest,began,spent,whole,after,some_,set,slept.trans later,within⟩

private theorem paced_other (paced : Paced interval t w) (step : OtherStep w a w') :
    Paced interval (t.note a) w' := by
  cases step with
  | enter | read | leave | request | arrive | join => exact paced
  | time passed =>
    have later : w.now ≤ w.now+passed := Nat.le_add_right _ _
    change Paced interval t {w with now := w.now+passed}
    unfold Paced at paced ⊢
    cases at_ : w.pc with
    | check | start =>
      rw [at_] at paced
      exact fun s began => (paced s began).trans later
    | scan | lock | swap | count | drift =>
      rw [at_] at paced
      exact ⟨paced.1,paced.2.trans later⟩
    | arm rest =>
      rw [at_] at paced
      obtain ⟨s,d,began,spent,slept,whole,some_,after⟩ := paced
      exact ⟨s,d,began,spent,slept,whole,some_,after.trans later⟩
    | wait | poll | nap =>
      rw [at_] at paced
      exact paced.later later
    | asleep =>
      rw [at_] at paced
      exact paced
    | exited => trivial

private theorem paced_own (paced : Paced interval t w) (step : OwnStep R sys display interval w a w') :
    Paced interval (t.note a) w' := by
  unfold Paced at paced ⊢
  cases step with
  | proceed at_ _ | scan _ _ at_ _ | lock _ _ _ _ at_ _ | write _ _ _ _ at_ _ | unlock _ _ at_ _
  | count _ at_ | wait _ at_ _ | poll _ at_ _ =>
    rw [at_] at paced
    exact paced
  | exit | quit => trivial
  | begin at_ => exact ⟨rfl,Nat.le_refl _⟩
  | rest cycleStart rest at_ some_ =>
    rw [at_] at paced
    have early : cycleStart ≤ w.now := paced.2
    have total : cycleStart + (w.now-cycleStart) ≤ w.now := by omega
    exact ⟨cycleStart,_,paced.1,rfl,rfl,(restOf_some some_).1,(restOf_some some_).2,total⟩
  | overrun cycleStart at_ none_ =>
    rw [at_] at paced
    intro s began
    obtain rfl := Option.some.inj (began.symm.trans paced.1)
    have long := restOf_eq_none.mp none_
    have early : s ≤ w.now := paced.2
    change s + interval ≤ w.now
    omega
  | arm rest at_ =>
    rw [at_] at paced
    obtain ⟨s,d,began,spent,slept,whole,some_,after⟩ := paced
    refine ⟨s,d,w.now,rest,began,spent,whole,after,some_,rfl,?_,?_⟩
    · change w.now + t.slept ≤ w.now
      omega
    · change t.slept ≤ rest
      omega
  | due deadline at_ late =>
    rw [at_] at paced
    obtain ⟨s,d,armed,rest,began,spent,whole,after,some_,set,slept,within⟩ := paced
    intro s' began'
    obtain rfl := Option.some.inj (began'.symm.trans began)
    change s' + interval ≤ w.now
    omega
  | nap deadline at_ =>
    rw [at_] at paced
    obtain ⟨s,d,armed,rest,began,spent,whole,after,some_,set,slept,within⟩ := paced
    refine ⟨s,d,armed,rest,began,spent,whole,after,some_,set,?_,?_⟩
    · change armed + (t.slept + min (deadline-w.now) slice) ≤ w.now + min (deadline-w.now) slice
      omega
    · change t.slept + min (deadline-w.now) slice ≤ rest
      omega
  | rouse deadline wake at_ slept =>
    rw [at_] at paced
    exact Resting.later paced slept

private theorem turnOf_snoc (actions : List (Action ρ)) (a : Action ρ) :
    turnOf (actions ++ [a]) = (turnOf actions).note a := by simp [turnOf]

private theorem starts_snoc (actions : List (Action ρ)) (a : Action ρ) :
    starts (actions ++ [a]) = starts actions ++ (Action.began a).toList :=
  filterMap_snoc Action.began actions a

private theorem turnOf_began (actions : List (Action ρ)) : (turnOf actions).began = (starts actions).getLast? := by
  induction actions using List.reverseRecOn with
  | nil => rfl
  | append_singleton actions a ih =>
    rw [turnOf_snoc,starts_snoc]
    cases a with
    | begin s => simp [Turn.note,Action.began]
    | time | proceed | scan | access | finish | sleep | exit | request | arrive | join =>
      simpa [Turn.note,Action.began] using ih

variable {rules : List Rule} {historyLen eventLogLen began : Nat}

theorem paced_run
    (run : Run (Step R sys display interval) (spawn rules historyLen eventLogLen began) actions w) :
    Paced interval (turnOf actions) w := by
  induction run with
  | refl => exact nofun
  | snoc actions middle a w' _ step ih =>
    rw [turnOf_snoc]
    cases step with
    | own step => exact paced_own ih step
    | other step => exact paced_other ih step

theorem step_clock (step : Step R sys display interval w a w') : w.now ≤ w'.now := by
  cases step with
  | own step => cases step <;> exact Nat.le_refl _
  | other step =>
    cases step with
    | time passed => exact Nat.le_add_right _ _
    | enter | read | leave | request | arrive | join => exact Nat.le_refl _

/-- `n` places apart means `n` intervals apart. -/
def Spaced (interval : Nat) (l : List Nat) : Prop :=
  ∀ i n a b, l[i]? = some a → l[i+n]? = some b → a + n*interval ≤ b

theorem Spaced.snoc {l : List Nat} {x : Nat} (spaced : Spaced interval l)
    (last : ∀ s, l.getLast? = some s → s + interval ≤ x) : Spaced interval (l ++ [x]) := by
  intro i n a b first second
  rcases Nat.lt_or_ge (i+n) l.length with inside | beyond
  · rw [List.getElem?_append_left (by omega)] at first second
    exact spaced i n a b first second
  · rw [List.getElem?_append_right beyond,List.getElem?_singleton] at second
    split at second
    · rename_i end_
      obtain rfl := Option.some.inj second
      cases n with
      | zero =>
        rw [List.getElem?_append_right (by omega),show i-l.length = 0 by omega] at first
        obtain rfl := Option.some.inj first
        omega
      | succ n =>
        obtain ⟨s,final⟩ : ∃ s, l[l.length-1]? = some s := ⟨_,List.getElem?_eq_getElem (by omega)⟩
        rw [List.getElem?_append_left (by omega)] at first
        have before := spaced i n a s first (by rw [← final]; congr 1; omega)
        have after := last s (by rw [List.getLast?_eq_getElem?,final])
        rw [Nat.succ_mul]
        omega
    · cases second

private theorem starts_run
    (run : Run (Step R sys display interval) (spawn rules historyLen eventLogLen began) actions w) :
    Spaced interval (starts actions) ∧ ∀ s ∈ starts actions, began ≤ s ∧ s ≤ w.now := by
  have clock : began ≤ w.now ∧ Spaced interval (starts actions) ∧ ∀ s ∈ starts actions, began ≤ s ∧ s ≤ w.now := by
    induction run with
    | refl => exact ⟨Nat.le_refl _,nofun,nofun⟩
    | snoc actions middle a w' before step ih =>
      obtain ⟨late,spaced,within⟩ := ih
      have forward := step_clock step
      rw [starts_snoc]
      have kept : ∀ s ∈ starts actions, began ≤ s ∧ s ≤ w'.now :=
        fun s listed => ⟨(within s listed).1,(within s listed).2.trans forward⟩
      cases shown : Action.began a with
      | none => simpa using ⟨late.trans forward,spaced,kept⟩
      | some s =>
        have paced := paced_run before
        cases step with
        | other step => cases step <;> cases shown
        | own step =>
          cases step with
          | begin at_ =>
            cases shown
            rw [Paced,at_] at paced
            refine ⟨late,spaced.snoc ?_,?_⟩
            · rw [← turnOf_began]
              exact paced
            · intro s listed
              rcases List.mem_append.mp listed with old | new
              · exact kept s old
              · rw [List.mem_singleton.mp new]
                exact ⟨late,Nat.le_refl _⟩
          | proceed | exit | scan | lock | write | unlock | count | rest | overrun | arm | wait | due | poll
          | quit | nap | rouse => cases shown
  exact clock.2

/-- The turns scanned so far lie in the past, in the order of their clocks. -/
structure Elapsed (began : Nat) (cycles : List Cycle) (w : World ρ) : Prop where
  known : ∀ c ∈ cycles, began ≤ c.now ∧ c.now ≤ w.now
  reported : ∀ c ∈ cycles, ∀ id, c.now ≤ c.clock id ∧ c.clock id ≤ w.now
  ordered : cycles.Pairwise (fun a b => a.now ≤ b.now)
  fresh : ∀ cycleStart, w.pc = .scan cycleStart → began ≤ cycleStart ∧ ∀ c ∈ cycles, c.now ≤ cycleStart

variable {cycles : List Cycle}

theorem Elapsed.later (elapsed : Elapsed began cycles w) (forward : w.now ≤ w'.now)
    (fresh : ∀ cycleStart, w'.pc = .scan cycleStart → began ≤ cycleStart ∧ ∀ c ∈ cycles, c.now ≤ cycleStart) :
    Elapsed began cycles w' where
  known c member := ⟨(elapsed.known c member).1,(elapsed.known c member).2.trans forward⟩
  reported c member id := ⟨(elapsed.reported c member id).1,(elapsed.reported c member id).2.trans forward⟩
  ordered := elapsed.ordered
  fresh := fresh

private theorem elapsed_step (elapsed : Elapsed began cycles w) (clock : began ≤ w.now)
    (step : Step R sys display interval w a w') : Elapsed began (cycles ++ (Action.scanned a).toList) w' := by
  have forward := step_clock step
  cases step with
  | own step =>
    cases step with
    | scan cycleStart c at_ timed =>
      obtain ⟨after,before⟩ := elapsed.fresh cycleStart at_
      have late : c.now ≤ w.now := (timed.reported ⟨0,none⟩).trans (timed.past ⟨0,none⟩)
      refine ⟨?_,?_,?_,nofun⟩
      · intro d member
        rcases List.mem_append.mp member with old | new
        · exact elapsed.known d old
        · obtain rfl := List.mem_singleton.mp new
          exact ⟨after.trans timed.started,late⟩
      · intro d member id
        rcases List.mem_append.mp member with old | new
        · exact elapsed.reported d old id
        · obtain rfl := List.mem_singleton.mp new
          exact ⟨timed.reported id,timed.past id⟩
      · refine List.pairwise_append.mpr ⟨elapsed.ordered,List.pairwise_singleton _ _,?_⟩
        intro d old e new
        obtain rfl := List.mem_singleton.mp new
        exact (before d old).trans timed.started
    | begin at_ =>
      change Elapsed began (cycles ++ []) _
      rw [List.append_nil]
      refine elapsed.later forward ?_
      intro cycleStart same
      cases same
      exact ⟨clock,fun c member => (elapsed.known c member).2⟩
    | proceed at_ _ | exit at_ _ | lock _ _ _ _ at_ _ | write _ _ _ _ at_ _ | unlock _ _ at_ _ | count _ at_
    | rest _ _ at_ _ | overrun _ at_ _ | arm _ at_ | wait _ at_ _ | due _ at_ _ | poll _ at_ _ | quit _ at_ _
    | nap _ at_ | rouse _ _ at_ _ =>
      change Elapsed began (cycles ++ []) _
      rw [List.append_nil]
      exact elapsed.later forward nofun
  | other step =>
    cases step with
    | time | enter | read | leave | request | arrive | join =>
      change Elapsed began (cycles ++ []) _
      rw [List.append_nil]
      exact elapsed.later forward elapsed.fresh

theorem elapsed_run
    (run : Run (Step R sys display interval) (spawn rules historyLen eventLogLen began) actions w) :
    began ≤ w.now ∧ Elapsed began (scans actions) w := by
  induction run with
  | refl => exact ⟨Nat.le_refl _,nofun,nofun,List.Pairwise.nil,nofun⟩
  | snoc actions middle a w' _ step ih =>
    rw [ThreadPublication.scans_snoc]
    exact ⟨ih.1.trans (step_clock step),elapsed_step ih.2 ih.1 step⟩

/-- Whether a turn is under way, whether it has been handed over, whether it has been counted. -/
def underWay : Pc → Nat
  | .scan _ | .lock _ _ _ | .swap _ _ | .count _ | .drift _ => 1
  | _ => 0

def handedOver : Pc → Nat
  | .count _ | .drift _ => 1
  | _ => 0

def counted : Pc → Nat
  | .drift _ => 1
  | _ => 0

structure Counts (interval : Nat) (starts : Nat) (l : Guarded.Ledger Shared) (spent : List Nat) (w : World ρ) :
    Prop where
  started : starts = spent.length + underWay w.pc
  published : l.done.length = spent.length + handedOver w.pc
  ticks : w.ticks = UInt64.ofNat (spent.length + counted w.pc)
  overruns : w.overruns = UInt64.ofNat (spent.countP (interval ≤ ·))

variable {begun : Nat} {l : Guarded.Ledger Shared} {done : List Nat}

private theorem counts_other (counts : Counts interval begun l done w) (step : OtherStep w a w') :
    Counts interval (begun + (Action.began a).toList.length)
      ((Action.accessed a).toList.foldl Guarded.Ledger.note l) (done ++ (Action.finished a).toList) w' := by
  cases step with
  | time | enter | read | leave | request | arrive | join =>
    change Counts interval begun l (done ++ []) _
    rw [List.append_nil]
    exact ⟨counts.started,counts.published,counts.ticks,counts.overruns⟩

private theorem counts_own (counts : Counts interval begun l done w) (step : OwnStep R sys display interval w a w') :
    Counts interval (begun + (Action.began a).toList.length)
      ((Action.accessed a).toList.foldl Guarded.Ledger.note l) (done ++ (Action.finished a).toList) w' := by
  obtain ⟨started,published,ticks,overruns⟩ := counts
  cases step with
  | proceed at_ _ | exit at_ _ | scan _ _ at_ _ | lock _ _ _ _ at_ _ | write _ _ _ _ at_ _ | arm _ at_
  | wait _ at_ _ | due _ at_ _ | poll _ at_ _ | quit _ at_ _ | nap _ at_ | rouse _ _ at_ _ =>
    rw [at_] at started published ticks
    change Counts interval begun _ (done ++ []) _
    rw [List.append_nil]
    exact ⟨started,published,ticks,overruns⟩
  | begin at_ =>
    rw [at_] at started published ticks
    change Counts interval (begun + 1) _ (done ++ []) _
    rw [List.append_nil]
    exact ⟨congrArg (· + 1) started,published,ticks,overruns⟩
  | unlock _ _ at_ _ =>
    rw [at_] at started published ticks
    change Counts interval begun ⟨l.done ++ [l.pending],[]⟩ (done ++ []) _
    rw [List.append_nil]
    refine ⟨started,?_,ticks,overruns⟩
    rw [List.length_append,published]
    rfl
  | count _ at_ =>
    rw [at_] at started published ticks
    change Counts interval begun _ (done ++ []) _
    rw [List.append_nil]
    refine ⟨started,published,?_,overruns⟩
    have before : w.ticks = UInt64.ofNat done.length := ticks
    change w.ticks + 1 = UInt64.ofNat (done.length + 1)
    rw [before,UInt64.ofNat_add]
    rfl
  | rest s rest at_ some_ =>
    rw [at_] at started published ticks
    have short : ¬ interval ≤ w.now-s := by
      intro long
      rw [restOf_eq_none.mpr long] at some_
      cases some_
    refine ⟨?_,?_,?_,?_⟩
    · simpa [Action.began,Action.finished,underWay] using started
    · simpa [Action.accessed,Action.finished,handedOver] using published
    · simpa [Action.finished,counted] using ticks
    · simpa [Action.finished,short] using overruns
  | overrun s at_ none_ =>
    rw [at_] at started published ticks
    have long : interval ≤ w.now-s := restOf_eq_none.mp none_
    refine ⟨?_,?_,?_,?_⟩
    · simpa [Action.began,Action.finished,underWay] using started
    · simpa [Action.accessed,Action.finished,handedOver] using published
    · simpa [Action.finished,counted] using ticks
    · simp [Action.finished,long,overruns]

private theorem spent_snoc (actions : List (Action ρ)) (a : Action ρ) :
    spent (actions ++ [a]) = spent actions ++ (Action.finished a).toList :=
  filterMap_snoc Action.finished actions a

theorem counts_run
    (run : Run (Step R sys display interval) (spawn rules historyLen eventLogLen began) actions w) :
    Counts interval (starts actions).length (Guarded.ledger (accesses actions)) (spent actions) w := by
  induction run with
  | refl => exact ⟨rfl,rfl,rfl,rfl⟩
  | snoc actions middle a w' _ step ih =>
    rw [starts_snoc,List.length_append,ThreadPublication.ledger_snoc,spent_snoc]
    cases step with
    | own step => exact counts_own ih step
    | other step => exact counts_other ih step

private theorem scans_started
    (run : Run (Step R sys display interval) (spawn rules historyLen eventLogLen began) actions w) :
    (scans actions).length ≤ (starts actions).length := by
  obtain ⟨started,published,_,_⟩ := counts_run run
  obtain ⟨_,_,law⟩ := ThreadPublication.law_run run
  cases at_ : w.pc with
  | lock _ _ _ | swap _ _ =>
    rw [at_] at law started published
    obtain ⟨earlier,c,all,before,_⟩ := law
    rw [before,ThreadPublication.length_sections] at published
    rw [all,List.length_append,List.length_singleton,started,published]
    exact Nat.le_refl _
  | check | start | scan | count | drift | arm | wait | poll | nap | asleep | exited =>
    rw [at_] at law started published
    rw [law,ThreadPublication.length_sections] at published
    rw [started,published]
    simp [underWay,handedOver]

/-- However long the work of a turn takes, turns start at least an interval apart and no time
lost is made up for: in any stretch of time there are no more scans than intervals and one. -/
theorem turns_never_burst
    (run : Run (Step R sys display interval) (spawn rules historyLen eventLogLen began) actions w) :
    Spaced interval (starts actions) ∧ (∀ s ∈ starts actions, began ≤ s ∧ s ≤ w.now) ∧
    ((scans actions).length-1)*interval ≤ w.now-began := by
  obtain ⟨spaced,within⟩ := starts_run run
  refine ⟨spaced,within,?_⟩
  have fewer := scans_started run
  rcases Nat.eq_zero_or_pos (scans actions).length with none_ | some_
  · rw [none_,Nat.zero_sub,Nat.zero_mul]
    exact Nat.zero_le _
  · obtain ⟨first,opening⟩ : ∃ a, (starts actions)[0]? = some a := ⟨_,List.getElem?_eq_getElem (by omega)⟩
    obtain ⟨last,closing⟩ : ∃ b, (starts actions)[0+((scans actions).length-1)]? = some b :=
      ⟨_,List.getElem?_eq_getElem (by omega)⟩
    have apart := spaced 0 _ first last opening closing
    have early := (within first (List.mem_of_getElem? opening)).1
    have late := (within last (List.mem_of_getElem? closing)).2
    omega

/-- The counters are exact at every moment: `ticks` are the turns handed over, short of one just
between the handover and the count, `overruns` those of the finished turns whose work took the
whole interval. Only the others sleep: the work of the turn and all sleep asked for since never
exceed the interval, and no request is longer than a slice. -/
theorem counters_exact
    (run : Run (Step R sys display interval) (spawn rules historyLen eventLogLen began) actions w) :
    (handed actions).length = (spent actions).length + handedOver w.pc ∧
    w.ticks = UInt64.ofNat ((spent actions).length + counted w.pc) ∧
    w.overruns = UInt64.ofNat ((spent actions).countP (interval ≤ ·)) ∧
    ∀ before request later, actions = before ++ .sleep request :: later →
      ∃ d, (turnOf before).spent = some d ∧ d < interval ∧
        d + (turnOf before).slept + request ≤ interval ∧ request ≤ slice := by
  obtain ⟨_,published,ticks,overruns⟩ := counts_run run
  refine ⟨?_,ticks,overruns,?_⟩
  · rw [← published]
    have books := (ThreadPublication.published_handed run).1
    have length := congrArg List.length books
    rw [ThreadPublication.length_sections] at length
    exact length.symm
  · intro before request later shape
    obtain ⟨m,_,front,step,_⟩ := (shape ▸ run).split_at
    have paced := paced_run front
    cases step with
    | other step => cases step
    | own step =>
      cases step with
      | nap deadline at_ =>
        rw [Paced,at_] at paced
        obtain ⟨s,d,armed,rest,_,spent,whole,_,some_,set,slept,within⟩ := paced
        exact ⟨d,spent,by omega,by omega,Nat.min_le_right _ _⟩

end

private theorem two_turns : ∃ (w : World Unit) (actions : List (Action Unit)),
    Run (Step .exact (sysConst none none) (fun _ => []) 1) (spawn [] 1 1 0) actions w ∧
    starts actions = [0,1] ∧ spent actions = [0] ∧ .sleep 1 ∈ actions := by
  let u : World Unit := ThreadPublication.handedOver .exact (sysConst none none) (fun _ => []) (spawn [] 1 1 0)
    ThreadPublication.deserted
  have turn : Run (Step .exact (sysConst none none) (fun _ => []) 1) (spawn [] 1 1 0) _ u :=
    ThreadPublication.turn_possible (spawn [] 1 1 0) ThreadPublication.deserted rfl rfl rfl
      ThreadPublication.deserted_timed
  have drift := turn.next (.own (.count u 0 rfl))
  let counted : World Unit := {u with ticks := 1}
  have rest := drift.next (.own (.rest {counted with pc := .drift 0} 0 1 rfl rfl))
  have armed := rest.next (.own (.arm {counted with pc := .arm 1} 1 rfl))
  have early := armed.next (.own (.wait {counted with pc := .wait 1} 1 rfl Nat.one_pos))
  have polled := early.next (.own (.poll {counted with pc := .poll 1} 1 rfl rfl))
  have asleep := polled.next (.own (.nap {counted with pc := .nap 1} 1 rfl))
  have later := asleep.next (.other (.time {counted with pc := .asleep 1 1} 1))
  let rested : World Unit := {counted with now := 1}
  have woken := later.next (.own (.rouse {rested with pc := .asleep 1 1} 1 1 rfl (Nat.le_refl 1)))
  have due := woken.next (.own (.due {rested with pc := .wait 1} 1 rfl (Nat.lt_irrefl 1)))
  have again := due.next (.own (.proceed {rested with pc := .check} rfl rfl))
  have second := again.next (.own (.begin {rested with pc := .start} rfl))
  exact ⟨_,_,second,rfl,rfl,by simp [slice,counted,u,ThreadPublication.handedOver,ThreadPublication.locked,spawn]⟩

theorem turns_never_burst_twice : ∃ (w : World Unit) (actions : List (Action Unit)),
    starts actions = [0,1] ∧ Spaced 1 (starts actions) ∧ ∀ s ∈ starts actions, s ≤ w.now := by
  obtain ⟨w,actions,run,both,_⟩ := two_turns
  obtain ⟨spaced,within,_⟩ := turns_never_burst run
  exact ⟨w,actions,both,spaced,fun s listed => (within s listed).2⟩

theorem counters_exact_twice : ∃ (w : World Unit) (actions before : List (Action Unit)),
    starts actions = [0,1] ∧ w.overruns = UInt64.ofNat ((spent actions).countP (1 ≤ ·)) ∧
    ∃ d, (turnOf before).spent = some d ∧ d + (turnOf before).slept + 1 ≤ 1 := by
  obtain ⟨w,actions,run,both,_,slept⟩ := two_turns
  obtain ⟨before,later,shape⟩ := List.append_of_mem slept
  obtain ⟨_,_,overruns,sleeps⟩ := counters_exact run
  obtain ⟨d,spent,_,whole,_⟩ := sleeps before 1 later shape
  exact ⟨w,actions,before,both,overruns,d,spent,whole⟩

end Vitals.ThreadTiming
