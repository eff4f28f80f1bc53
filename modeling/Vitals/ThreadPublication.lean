import Vitals.Semantics.Interleaving

/-! What readers of the shared state can see while the sampler thread runs. The moves under the
write lock come one by one and readers come and go at any time, yet what is seen is always the
state some whole number of turns has left. -/
namespace Vitals.ThreadPublication
open Kernel Library Semantics

section
variable (R : Rounding) (sys : SysConst) (display : IoError → Text.Str)

private theorem apply_pushEvents (events : List (SubjectId × Event)) (g : Shared) :
    Guarded.apply (events.map (fun e => pushEvent e.2)) g =
      {g with events := events.foldl (fun ring e => (ring.push e.2).1) g.events} := by
  induction events generalizing g with
  | nil => rfl
  | cons e events ih => exact ih (pushEvent e.2 g)

/-- The moves made one after another are the handover. -/
theorem apply_swaps (w : Work) (active : List (Text.Str × Text.Str × Nat)) (g : Shared) :
    Guarded.apply (swaps R w active) g = Sampler.handover R g w active := by
  have joined (front rear : List (Shared → Shared)) (v : Shared) :
      Guarded.apply (front ++ rear) v = Guarded.apply rear (Guarded.apply front v) := List.foldl_append
  obtain ⟨prev,engine,snapshot,events,err⟩ := w
  rw [swaps,joined,joined,joined,apply_pushEvents]
  cases snapshot with
  | none => rfl
  | some s => rfl

private theorem apply_section (s : Sampler) (c : Cycle) :
    Guarded.apply (sectionOf R sys display s c) s.shared = (s.cycle R sys display c).shared :=
  apply_swaps R _ _ s.shared

private theorem applyAll_sections (s : Sampler) (cycles : List Cycle) :
    Guarded.applyAll (sections R sys display s cycles) s.shared =
      (cycles.foldl (Sampler.cycle R sys display) s).shared := by
  induction cycles generalizing s with
  | nil => rfl
  | cons c cycles ih =>
    rw [sections,Guarded.applyAll,List.foldl_cons,apply_section]
    exact ih _

private theorem sections_snoc (s : Sampler) (cycles : List Cycle) (c : Cycle) :
    sections R sys display s (cycles ++ [c]) = sections R sys display s cycles ++
      [sectionOf R sys display (cycles.foldl (Sampler.cycle R sys display) s) c] := by
  induction cycles generalizing s with
  | nil => rfl
  | cons first cycles ih => exact congrArg (_ :: ·) (ih _)

theorem length_sections (s : Sampler) (cycles : List Cycle) :
    (sections R sys display s cycles).length = cycles.length := by
  induction cycles generalizing s with
  | nil => rfl
  | cons c cycles ih => exact congrArg (· + 1) (ih _)

end

section
variable {ρ : Type} (actions : List (Action ρ)) (a : Action ρ)

theorem scans_snoc : scans (actions ++ [a]) = scans actions ++ (Action.scanned a).toList :=
  filterMap_snoc Action.scanned actions a

private theorem accesses_at (rear : List (Action ρ)) (x : Access Shared ρ) :
    accesses (actions ++ .access x :: rear) = accesses actions ++ x :: accesses rear := by
  simp [accesses,Action.accessed]

theorem ledger_snoc : Guarded.ledger (accesses (actions ++ [a])) =
    (Action.accessed a).toList.foldl Guarded.Ledger.note (Guarded.ledger (accesses actions)) := by
  rw [accesses,filterMap_snoc,Guarded.ledger,List.foldl_append]
  rfl

/-- The local state belongs to all scanned turns, the publications to all of them but the one
under way, and the moves made and those left are together the moves of that one. -/
def Law (R : Rounding) (sys : SysConst) (display : IoError → Text.Str) (s : Sampler)
    (cycles : List Cycle) (l : Guarded.Ledger Shared) (w : World ρ) : Prop :=
  let now := cycles.foldl (Sampler.cycle R sys display) s
  w.prev = now.prev ∧ w.engine = now.engine ∧ match w.pc with
    | .lock _ work active => ∃ earlier c, cycles = earlier ++ [c] ∧
      l.done = sections R sys display s earlier ∧
      swaps R work active = sectionOf R sys display (earlier.foldl (Sampler.cycle R sys display) s) c
    | .swap _ left => ∃ earlier c, cycles = earlier ++ [c] ∧ l.done = sections R sys display s earlier ∧
      l.pending ++ left = sectionOf R sys display (earlier.foldl (Sampler.cycle R sys display) s) c
    | _ => l.done = sections R sys display s cycles

end

section
variable {ρ : Type} {R : Rounding} {sys : SysConst} {display : IoError → Text.Str} {interval : Nat}
variable {s : Sampler} {cycles : List Cycle} {l : Guarded.Ledger Shared} {w w' : World ρ} {a : Action ρ}

private theorem law_scan (law : Law R sys display s cycles l w) (cycleStart : Nat) (c : Cycle)
    (at_ : w.pc = .scan cycleStart) : Law R sys display s (cycles ++ [c]) l {w with
      pc := .lock cycleStart (w.work R sys display c) (activeOf (w.work R sys display c).engine c)
      prev := (w.work R sys display c).prev
      engine := (w.work R sys display c).engine} := by
  obtain ⟨prev,engine,done⟩ := law
  rw [at_] at done
  let now := cycles.foldl (Sampler.cycle R sys display) s
  have work : w.work R sys display c = now.work R sys display c := by
    rw [World.work,prev,engine]
    rfl
  have after : (cycles ++ [c]).foldl (Sampler.cycle R sys display) s = now.cycle R sys display c :=
    List.foldl_append
  rw [work]
  exact ⟨congrArg Sampler.prev after.symm,congrArg Sampler.engine after.symm,cycles,c,rfl,done,rfl⟩

private theorem law_own (law : Law R sys display s cycles l w) (step : OwnStep R sys display interval w a w') :
    Law R sys display s (cycles ++ (Action.scanned a).toList)
      ((Action.accessed a).toList.foldl Guarded.Ledger.note l) w' := by
  cases step with
  | scan cycleStart c at_ timed => exact law_scan law cycleStart c at_
  | lock cycleStart work active g at_ inner =>
    change Law R sys display s (cycles ++ []) _ _
    rw [List.append_nil]
    obtain ⟨prev,engine,done⟩ := law
    rw [at_] at done
    exact ⟨prev,engine,done⟩
  | write cycleStart move left g at_ inner =>
    change Law R sys display s (cycles ++ []) _ _
    rw [List.append_nil]
    obtain ⟨prev,engine,done⟩ := law
    rw [at_] at done
    obtain ⟨earlier,c,all,before,moves⟩ := done
    exact ⟨prev,engine,earlier,c,all,before,(List.append_assoc _ _ _).trans moves⟩
  | unlock cycleStart g at_ inner =>
    change Law R sys display s (cycles ++ []) _ _
    rw [List.append_nil]
    obtain ⟨prev,engine,done⟩ := law
    rw [at_] at done
    obtain ⟨earlier,c,rfl,before,moves⟩ := done
    refine ⟨prev,engine,?_⟩
    change l.done ++ [l.pending] = _
    rw [sections_snoc,before,← moves,List.append_nil]
  | proceed at_ _ | exit at_ _ | begin at_ | count _ at_ | rest _ _ at_ _ | overrun _ at_ _ | arm _ at_
  | wait _ at_ _ | due _ at_ _ | poll _ at_ _ | quit _ at_ _ | nap _ at_ | rouse _ _ at_ _ =>
    change Law R sys display s (cycles ++ []) _ _
    rw [List.append_nil]
    obtain ⟨prev,engine,done⟩ := law
    rw [at_] at done
    exact ⟨prev,engine,done⟩

private theorem law_other (law : Law R sys display s cycles l w) (step : OtherStep w a w') :
    Law R sys display s (cycles ++ (Action.scanned a).toList)
      ((Action.accessed a).toList.foldl Guarded.Ledger.note l) w' := by
  cases step with
  | time | enter | read | leave | request | arrive | join =>
    change Law R sys display s (cycles ++ []) l w
    rw [List.append_nil]
    exact law

variable {rules : List Rule} {historyLen eventLogLen began : Nat} {actions : List (Action ρ)}

theorem law_run (run : Run (Step R sys display interval) (spawn rules historyLen eventLogLen began) actions w) :
    Law R sys display (.new rules historyLen eventLogLen) (scans actions)
      (Guarded.ledger (accesses actions)) w := by
  induction run with
  | refl => exact ⟨rfl,rfl,rfl⟩
  | snoc actions middle a w' _ step ih =>
    rw [scans_snoc,ledger_snoc]
    cases step with
    | own step => exact law_own ih step
    | other step => exact law_other ih step

private theorem shared_run
    (run : Run (Step R sys display interval) (spawn rules historyLen eventLogLen began) actions w) :
    Run Guarded.Step ⟨(Sampler.new rules historyLen eventLogLen).shared,.readers []⟩ (accesses actions)
      w.shared := by
  refine run.project World.shared Action.accessed ?_
  intro m a u step
  cases step with
  | own step =>
    cases step with
    | lock _ _ _ g at_ inner | write _ _ _ g at_ inner | unlock _ g at_ inner => exact inner
    | scan | proceed | exit | begin | count | rest | overrun | arm | wait | due | poll | quit | nap
    | rouse => rfl
  | other step =>
    cases step with
    | enter r g inner | read r seen g inner | leave r g inner => exact inner
    | time | request | arrive | join => rfl

/-- All scanned turns have been published but for the last, which may be under way. -/
theorem published_handed
    (run : Run (Step R sys display interval) (spawn rules historyLen eventLogLen began) actions w) :
    Guarded.published (accesses actions) =
        sections R sys display (.new rules historyLen eventLogLen) (handed actions) ∧
      handed actions <+: scans actions ∧ (scans actions).length ≤ (handed actions).length + 1 := by
  have done : ∃ cycles, cycles <+: scans actions ∧ (scans actions).length ≤ cycles.length + 1 ∧
      Guarded.published (accesses actions) =
        sections R sys display (.new rules historyLen eventLogLen) cycles := by
    obtain ⟨_,_,law⟩ := law_run run
    cases at_ : w.pc with
    | lock _ _ _ | swap _ _ =>
      rw [at_] at law
      obtain ⟨earlier,c,all,before,_⟩ := law
      refine ⟨earlier,⟨[c],all.symm⟩,?_,before⟩
      rw [all,List.length_append,List.length_singleton]
    | check | start | scan | count | drift | arm | wait | poll | nap | asleep | exited =>
      rw [at_] at law
      exact ⟨scans actions,List.prefix_refl _,Nat.le_succ _,law⟩
  obtain ⟨cycles,front,all,books⟩ := done
  have same : handed actions = cycles := by
    rw [handed,books,length_sections]
    exact (List.prefix_iff_eq_take.mp front).symm
  rw [same]
  exact ⟨books,front,all⟩

theorem value_handed
    (run : Run (Step R sys display interval) (spawn rules historyLen eventLogLen began) actions w)
    (open_ : w.shared.hold ≠ .writer) :
    w.shared.value = (samplerAfter R sys display rules historyLen eventLogLen (handed actions)).shared := by
  have account := Guarded.accounts (shared_run run)
  rw [Guarded.Accounts] at account
  cases hold : w.shared.hold with
  | writer => exact absurd hold open_
  | readers inside =>
    rw [hold] at account
    rw [account]
    exact (congrArg (Guarded.applyAll · _) (published_handed run).1).trans (applyAll_sections R sys display _ _)

theorem handed_all
    (run : Run (Step R sys display interval) (spawn rules historyLen eventLogLen began) actions w)
    (at_ : w.pc = .check) : handed actions = scans actions := by
  obtain ⟨_,_,law⟩ := law_run run
  rw [at_] at law
  have books : Guarded.published (accesses actions) =
      sections R sys display (.new rules historyLen eventLogLen) (scans actions) := law
  rw [handed,books,length_sections,List.take_length]

theorem handed_mono {first rest : List (Action ρ)} (whole : actions = first ++ rest) :
    handed first <+: handed actions := by
  have earlier : scans first <+: scans actions := by
    rw [whole,scans,scans,List.filterMap_append]
    exact List.prefix_append _ _
  have fewer := (Guarded.published_prefix (accesses first) (accesses rest)).length_le
  rw [accesses,accesses,← List.filterMap_append,← whole] at fewer
  exact (earlier.take _).trans (List.take_prefix_take_left fewer)

theorem read_handed
    (run : Run (Step R sys display interval) (spawn rules historyLen eventLogLen began) actions w)
    {before later : List (Action ρ)} {r : ρ} {seen : Shared}
    (shape : actions = before ++ .access (.read r seen) :: later) :
    seen = (samplerAfter R sys display rules historyLen eventLogLen (handed before)).shared := by
  obtain ⟨middle,_,front,_,_⟩ := (shape ▸ run).split_at
  have inner := shared_run run
  rw [shape,accesses_at] at inner
  rw [Guarded.read_published inner]
  exact (congrArg (Guarded.applyAll · _) (published_handed front).1).trans (applyAll_sections R sys display _ _)

/-- Whatever is read was left by a whole number of turns, all that were scanned or all but the
last; later reads never see fewer; and while a reader stays inside nothing changes for it. -/
theorem readers_see_turns
    (run : Run (Step R sys display interval) (spawn rules historyLen eventLogLen began) actions w)
    {before later : List (Action ρ)} {r : ρ} {seen : Shared}
    (shape : actions = before ++ .access (.read r seen) :: later) :
    seen = (samplerAfter R sys display rules historyLen eventLogLen (handed before)).shared ∧
    handed before <+: scans before ∧ (scans before).length ≤ (handed before).length + 1 ∧
    (∀ first rest, before = first ++ rest → handed first <+: handed before) ∧
    ∀ first inside, before = first ++ .access (.enter r) :: inside → .access (.leave r) ∉ inside →
      handed before = handed first := by
  obtain ⟨middle,_,front,_,_⟩ := (shape ▸ run).split_at
  obtain ⟨books,known,all⟩ := published_handed front
  refine ⟨read_handed run shape,known,all,?_,?_⟩
  · intro first rest whole
    exact handed_mono whole
  · intro first inside whole stays
    have visit := shared_run front
    rw [whole,accesses_at] at visit
    have kept := Guarded.published_inside visit (by
      intro gone
      obtain ⟨a,listed,shown⟩ := List.mem_filterMap.mp gone
      cases a with
      | access b =>
        cases shown
        exact stays listed
      | time | proceed | begin | scan | finish | sleep | exit | request | arrive | join => cases shown)
    have same : (Guarded.published (accesses before)).length = (Guarded.published (accesses first)).length := by
      rw [whole,accesses_at]
      exact congrArg List.length kept
    obtain ⟨_,_,opening,_,_⟩ := (whole ▸ front).split_at
    have fewer := handed_mono whole
    obtain ⟨firstBooks,_,_⟩ := published_handed opening
    have lengths : (handed first).length = (handed before).length := by
      rw [books,firstBooks,length_sections,length_sections] at same
      exact same.symm
    exact (fewer.eq_of_length lengths).symm

/-- The lock is held for writing exactly between the first of the moves and the last. -/
def Swapping (w : World ρ) : Prop := w.shared.hold = .writer ↔ ∃ cycleStart left, w.pc = .swap cycleStart left

private theorem swapping_own (held : Swapping w) (step : OwnStep R sys display interval w a w') : Swapping w' := by
  unfold Swapping at held ⊢
  cases step with
  | lock _ _ _ g _ inner | write _ _ _ g _ inner => exact ⟨fun _ => ⟨_,_,rfl⟩,fun _ => inner.holds.2⟩
  | unlock _ g _ inner => simp [inner.holds.2]
  | proceed at_ | exit at_ | begin at_ | scan _ _ at_ | count _ at_ | rest _ _ at_ | overrun _ at_ | arm _ at_
  | wait _ at_ | due _ at_ | poll _ at_ | quit _ at_ | nap _ at_ | rouse _ _ at_ => simpa [at_] using held

private theorem swapping_other (held : Swapping w) (step : OtherStep w a w') : Swapping w' := by
  unfold Swapping at held ⊢
  cases step with
  | enter r g inner | leave r g inner | read r seen g inner =>
    have open_ := inner.holds
    exact ⟨fun closed => absurd closed open_.2,fun at_ => absurd (held.mpr at_) open_.1⟩
  | time | request | arrive | join => exact held

theorem swapping_run
    (run : Run (Step R sys display interval) (spawn rules historyLen eventLogLen began) actions w) :
    Swapping w := by
  have first : Swapping (spawn rules historyLen eventLogLen began : World ρ) := by simp [Swapping,spawn]
  refine run.invariant first ?_
  intro m a u held step
  cases step with
  | own step => exact swapping_own held step
  | other step => exact swapping_other held step

private theorem length_section (R : Rounding) (sys : SysConst) (display : IoError → Text.Str) (s : Sampler)
    (c : Cycle) :
    (sectionOf R sys display s c).length ≤ (s.work R sys display c).events.length + 4 := by
  rw [sectionOf,swaps]
  cases (s.work R sys display c).snapshot with
  | none => simp
  | some snap =>
    simp

theorem moves_finish (cycleStart : Nat) (left : List (Shared → Shared)) (w : World ρ)
    (at_ : w.pc = .swap cycleStart left) (closed : w.shared.hold = .writer) :
    Run (OwnStep R sys display interval) w
      (left.map (fun move => .access (.write move)) ++ [.access .unlock])
      {w with pc := .count cycleStart, shared := ⟨Guarded.apply left w.shared.value,.readers []⟩} := by
  induction left generalizing w with
  | nil => exact Run.refl.next (.unlock w cycleStart _ at_ (Guarded.unlock_possible closed))
  | cons move left ih =>
    let moved : World ρ := {w with pc := .swap cycleStart left, shared := ⟨move w.shared.value,.writer⟩}
    have first : OwnStep R sys display interval w (.access (.write move)) moved :=
      .write w cycleStart move left _ at_ (Guarded.write_possible closed move)
    exact (Run.refl.next first).append (ih moved rfl rfl)

theorem own_frame {w w' : World ρ} {a : Action ρ} (step : OwnStep R sys display interval w a w') :
    w'.now = w.now ∧ w'.requested = w.requested ∧ w'.arrived = w.arrived ∧ w'.handle = w.handle := by
  cases step <;> exact ⟨rfl,rfl,rfl,rfl⟩

theorem own_handle {w w' : World ρ} (run : Run (OwnStep R sys display interval) w actions w') :
    w'.handle = w.handle := by
  induction run with
  | refl => rfl
  | snoc labels middle a last _ step ih => exact (own_frame step).2.2.2.trans ih

theorem own_run {w w' : World ρ} (run : Run (OwnStep R sys display interval) w actions w') :
    Run (Step R sys display interval) w actions w' := by
  induction run with
  | refl => exact .refl
  | snoc labels middle a last _ step ih => exact ih.next (.own step)

def locked (R : Rounding) (sys : SysConst) (display : IoError → Text.Str) (w : World ρ) (c : Cycle) : World ρ := {w with
  pc := .swap w.now (swaps R (w.work R sys display c) (activeOf (w.work R sys display c).engine c))
  prev := (w.work R sys display c).prev
  engine := (w.work R sys display c).engine
  shared := ⟨w.shared.value,.writer⟩}

/-- Any scan can be the next one: with the lock free the thread takes it... -/
theorem lock_reached (w : World ρ) (c : Cycle) (at_ : w.pc = .check) (go : w.arrived = false)
    (free : w.shared.hold = .readers []) (timed : Timed w.now w.now c) :
    Run (OwnStep R sys display interval) w [.proceed,.begin w.now,.scan c,.access .lock]
      (locked R sys display w c) := by
  let opening : World ρ := {w with pc := .start}
  let scanning : World ρ := {w with pc := .scan w.now}
  have idle : Run (OwnStep R sys display interval) w [] w := .refl
  have began := (idle.next (.proceed w at_ go)).next (.begin opening rfl)
  have scanned := began.next (.scan scanning w.now c rfl timed)
  exact scanned.next (.lock _ w.now _ _ _ rfl (Guarded.lock_possible free))

def handedOver (R : Rounding) (sys : SysConst) (display : IoError → Text.Str) (w : World ρ) (c : Cycle) : World ρ := {locked R sys display w c with
  pc := .count w.now
  shared := ⟨Guarded.apply (swaps R (w.work R sys display c) (activeOf (w.work R sys display c).engine c))
    w.shared.value,.readers []⟩}

/-- ...and hands the results over. -/
theorem turn_taken (w : World ρ) (c : Cycle) (at_ : w.pc = .check) (go : w.arrived = false)
    (free : w.shared.hold = .readers []) (timed : Timed w.now w.now c) :
    Run (OwnStep R sys display interval) w ([.proceed,.begin w.now,.scan c,.access .lock] ++
      ((swaps R (w.work R sys display c) (activeOf (w.work R sys display c).engine c)).map
        (fun move => .access (.write move)) ++ [.access .unlock]))
      (handedOver R sys display w c) :=
  (lock_reached w c at_ go free timed).append (moves_finish w.now _ _ rfl rfl)

theorem turn_possible (w : World ρ) (c : Cycle) (at_ : w.pc = .check) (go : w.arrived = false)
    (free : w.shared.hold = .readers []) (timed : Timed w.now w.now c) :
    Run (Step R sys display interval) w ([.proceed,.begin w.now,.scan c,.access .lock] ++
      ((swaps R (w.work R sys display c) (activeOf (w.work R sys display c).engine c)).map
        (fun move => .access (.write move)) ++ [.access .unlock]))
      (handedOver R sys display w c) :=
  own_run (turn_taken w c at_ go free timed)

/-- While the lock is held for writing the thread does nothing but the moves of one turn, at most
four more than the turn has events, and needs nobody's help to release it. In particular no scan
and no sleep happens under the lock. -/
theorem writer_only_moves
    (run : Run (Step R sys display interval) (spawn rules historyLen eventLogLen began) actions w) :
    (w.shared.hold = .writer ↔ ∃ cycleStart left, w.pc = .swap cycleStart left) ∧
    ∀ cycleStart left, w.pc = .swap cycleStart left →
      (∃ earlier c, scans actions = earlier ++ [c] ∧ left.length ≤
        ((samplerAfter R sys display rules historyLen eventLogLen earlier).work R sys display c).events.length + 4) ∧
      (∀ a w', OwnStep R sys display interval w a w' → ∃ x, a = .access x) ∧
      ∃ w', Run (OwnStep R sys display interval) w
        (left.map (fun move => .access (.write move)) ++ [.access .unlock]) w' ∧
        w'.shared.hold = .readers [] := by
  have closed := swapping_run run
  refine ⟨closed,?_⟩
  intro cycleStart left at_
  refine ⟨?_,?_,_,moves_finish cycleStart left w at_ (closed.mpr ⟨_,_,at_⟩),rfl⟩
  · obtain ⟨_,_,law⟩ := law_run run
    rw [at_] at law
    obtain ⟨earlier,c,all,_,moves⟩ := law
    refine ⟨earlier,c,all,?_⟩
    have whole := congrArg List.length moves
    rw [List.length_append] at whole
    have bound := length_section R sys display (samplerAfter R sys display rules historyLen eventLogLen earlier) c
    have part : left.length ≤ (sectionOf R sys display
        (samplerAfter R sys display rules historyLen eventLogLen earlier) c).length := by
      rw [samplerAfter]
      omega
    exact part.trans bound
  · intro a w' step
    cases step with
    | lock | write | unlock => exact ⟨_,rfl⟩
    | proceed here | exit here | begin here | scan _ _ here | count _ here | rest _ _ here | overrun _ here
    | arm _ here | wait _ here | due _ here | poll _ here | quit _ here | nap _ here | rouse _ _ here =>
      rw [at_] at here
      cases here

/-- A turn that takes no time under an interval of none leads back to where it started from. -/
theorem turn_overrun (u : World ρ) (c : Cycle) (at_ : u.pc = .check) (go : u.arrived = false)
    (free : u.shared.hold = .readers []) (timed : Timed u.now u.now c) :
    ∃ actions u', Run (OwnStep R sys display 0) u actions u' ∧ scans actions = [c] ∧
      u'.pc = .check ∧ u'.arrived = false ∧ u'.shared.hold = .readers [] ∧ u'.now = u.now := by
  let v : World ρ := handedOver R sys display u c
  have turn := (turn_taken u c at_ go free timed : Run (OwnStep R sys display 0) u _ v)
  have counted := turn.next (.count v u.now rfl)
  have over_ := counted.next (.overrun {v with pc := .drift u.now, ticks := v.ticks + 1} u.now rfl (by
    simp [v,handedOver,locked,restOf,Duration.checkedSub]))
  refine ⟨_,_,over_,?_,rfl,go,rfl,rfl⟩
  have quiet (moves : List (Shared → Shared)) :
      (moves.map (fun move => (.access (.write move) : Action ρ))).filterMap Action.scanned = [] := by
    rw [List.filterMap_eq_nil_iff]
    intro a listed
    obtain ⟨move,_,rfl⟩ := List.mem_map.mp listed
    rfl
  rw [scans,List.filterMap_append,List.filterMap_append,List.filterMap_append,List.filterMap_append,quiet]
  rfl

end

theorem turns_twice {c : Cycle} (timed : Timed 0 0 c) (rules : List Rule) (historyLen eventLogLen : Nat) :
    ∃ (actions : List (Action Unit)) (w : World Unit),
      Run (OwnStep .exact (sysConst none none) (fun _ => []) 0) (spawn rules historyLen eventLogLen 0) actions w ∧
      scans actions = [c,c] ∧ w.pc = .check ∧ w.arrived = false ∧ w.shared.hold = .readers [] ∧ w.now = 0 := by
  obtain ⟨first,u,opening,one,at_,go,free,clock⟩ :=
    @turn_overrun Unit .exact (sysConst none none) (fun _ => []) (spawn rules historyLen eventLogLen 0) c rfl rfl rfl timed
  obtain ⟨second,w,closing,two,last,awake,open_,stopped⟩ :=
    @turn_overrun Unit .exact (sysConst none none) (fun _ => []) u c at_ go free (clock ▸ timed)
  refine ⟨_,w,opening.append closing,?_,last,awake,open_,stopped.trans clock⟩
  rw [scans,List.filterMap_append,← scans,← scans,one,two]
  rfl

def deserted : Cycle where
  result := .ok ⟨0,{},{},[],∅,0,0,0⟩
  now := 0
  procOrder := .stored _
  stateOrder := .stored _
  activeOrder := .stored _
  clock := fun _ => 0

theorem deserted_timed : Timed 0 0 deserted where
  started := Nat.le_refl 0
  reported := fun _ => Nat.le_refl 0
  past := fun _ => Nat.le_refl 0
  taken := by
    intro cur ok
    cases ok
    exact ⟨Nat.le_refl 0,Nat.le_refl 0⟩

theorem deserted_read (rules : List Rule) : ∃ (before : List (Action Unit)) (seen : Shared) (w : World Unit),
    Run (Step .exact (sysConst none none) (fun _ => []) 0) (spawn rules 1 1 0) (before ++ [.access (.read () seen)]) w ∧
      handed before = [deserted,deserted] := by
  obtain ⟨actions,v,run,scanned,last,_,open_,_⟩ := turns_twice deserted_timed rules 1 1
  have entered := (own_run run).next (.other (.enter v () _ (Guarded.enter_possible open_ ())))
  have turns : handed (actions ++ [.access (.enter ())]) = [deserted,deserted] := by
    rw [handed_all entered last,scans_snoc,scanned]
    rfl
  have looked := entered.next (.other (.read _ () _ _ (.read _ [()] () (by simp))))
  exact ⟨_,_,_,looked,turns⟩

def idle : Rule := ⟨"idle".toList,.system,.procCount,.lt,.fin 5,0,.fin 5,false,false⟩

theorem readers_see_turns_deserted : ∃ (before : List (Action Unit)) (seen : Shared),
    handed before = [deserted,deserted] ∧ seen.activeAlerts = [("idle".toList,"system".toList,0)] ∧
    seen = (samplerAfter .exact (sysConst none none) (fun _ => []) [idle] 1 1 (handed before)).shared := by
  obtain ⟨before,seen,w,run,turns⟩ := deserted_read [idle]
  have whole := (readers_see_turns run rfl).1
  refine ⟨before,seen,turns,?_,whole⟩
  rw [whole,turns]
  decide +kernel

theorem writer_only_moves_deserted : ∃ w : World Unit, w.shared.hold = .writer ∧
    ∃ w' : World Unit, w'.shared.hold = .readers [] ∧ ∃ moves,
      Run (OwnStep .exact (sysConst none none) (fun _ => []) 0) w moves w' := by
  obtain ⟨_,u,opening,_,at_,go,free,clock⟩ :=
    @turn_overrun Unit .exact (sysConst none none) (fun _ => []) (spawn [idle] 1 1 0) deserted rfl rfl rfl deserted_timed
  have taken := own_run (opening.append (lock_reached u deserted at_ go free (clock ▸ deserted_timed)))
  obtain ⟨_,_,w',moves,opened⟩ := (writer_only_moves taken).2 _ _ rfl
  exact ⟨_,rfl,w',opened,_,moves⟩

end Vitals.ThreadPublication
