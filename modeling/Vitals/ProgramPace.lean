import Vitals.ProgramOutput
import Vitals.ThreadTiming

/-! The pace of the main loop: how far apart its rounds are, how many there can be, and when it
may end. -/
namespace Vitals.ProgramPace
open Kernel Library Semantics ThreadTiming ProgramOutput

section
variable {R : Rounding} {P : Fixed3} {sys : SysConst} {display : IoError → Text.Str} {o : Options} {rules : List Rule}
variable {began : Nat} {actions : List MainAction} {rs : List Nat} {p p' : Program} {a : MainAction}

private theorem enough_mono {i j : Nat} (ended : enough o i = true) (later : i ≤ j) : enough o j = true := by
  unfold enough at ended ⊢
  rcases Bool.or_eq_true_iff.mp ended with once | run
  · rw [once,Bool.true_or]
  · obtain ⟨d,given,spent⟩ := (Option.any_eq_true _ _).mp run
    rw [given,Option.any_some,Bool.or_eq_true_iff]
    exact .inr (decide_eq_true ((of_decide_eq_true spent).trans later))

/-- Where the main thread stands in time, `rs` being the instants its rounds began. -/
def Placed (o : Options) (began : Nat) (rs : List Nat) (p : Program) : Prop :=
  match p.pc with
  | .spawned => rs = []
  | .settling wake => rs = [] ∧ began + (o.interval+margin) ≤ wake
  | .top | .inside | .looked | .decide => rs ≠ []
  | .asleep wake => rs ≠ [] ∧ (∀ s ∈ rs, s + o.interval ≤ wake) ∧ ∀ s ∈ rs, enough o (s-p.start) = false
  | .stopping | .joining | .done => rs ≠ [] ∧ enough o (p.world.now-p.start) = true

structure Kept (o : Options) (began : Nat) (rs : List Nat) (p : Program) : Prop where
  clock : began ≤ p.world.now
  spaced : Spaced o.interval rs
  within : ∀ s ∈ rs, began + (o.interval+margin) ≤ s ∧ s ≤ p.world.now
  start : ∀ s, rs[0]? = some s → s = p.start
  going : ∀ s ∈ rs.dropLast, enough o (s-p.start) = false
  placed : Placed o began rs p

theorem Placed.later (placed : Placed o began rs p) (at_ : p'.pc = p.pc) (start : p'.start = p.start)
    (forward : p.world.now ≤ p'.world.now) : Placed o began rs p' := by
  unfold Placed at placed ⊢
  rw [at_,start]
  cases here : p.pc with
  | stopping | joining | done =>
    rw [here] at placed
    exact ⟨placed.1,enough_mono placed.2 (Nat.sub_le_sub_right forward _)⟩
  | spawned | settling | top | inside | looked | decide | asleep =>
    rw [here] at placed
    exact placed

theorem Kept.later (kept : Kept o began rs p) (at_ : p'.pc = p.pc) (start : p'.start = p.start)
    (forward : p.world.now ≤ p'.world.now) : Kept o began rs p' where
  clock := kept.clock.trans forward
  spaced := kept.spaced
  within s listed := ⟨(kept.within s listed).1,(kept.within s listed).2.trans forward⟩
  start s first := (kept.start s first).trans start.symm
  going := start ▸ kept.going
  placed := kept.placed.later at_ start forward

theorem Kept.moved (kept : Kept o began rs p) (start : p'.start = p.start) (now : p'.world.now = p.world.now)
    (placed : Placed o began rs p') : Kept o began rs p' where
  clock := now ▸ kept.clock
  spaced := kept.spaced
  within := now ▸ kept.within
  start := start ▸ kept.start
  going := start ▸ kept.going
  placed := placed

private theorem Kept.unbegun (kept : Kept o began rs p') (quiet : MainAction.began a = none) :
    Kept o began (rs ++ (MainAction.began a).toList) p' := by
  rw [quiet,Option.toList_none,List.append_nil]
  exact kept

private theorem other_now {w w' : World Unit} {x : Access Shared Unit} (step : OtherStep w (.access x) w') :
    w'.now = w.now := by
  cases step <;> rfl

private theorem kept_main (kept : Kept o began rs p) (step : MainStep R P o p a p') :
    Kept o began (rs ++ (MainAction.began a).toList) p' := by
  cases step with
  | settle at_ =>
    refine Kept.unbegun ?_ rfl
    have none_ := kept.placed
    rw [Placed,at_] at none_
    have late := kept.clock
    exact kept.moved rfl rfl ⟨none_,Nat.add_le_add_right late _⟩
  | begin wake at_ slept =>
    have waited := kept.placed
    rw [Placed,at_] at waited
    obtain ⟨rfl,after⟩ := waited
    refine ⟨kept.clock,?_,?_,?_,nofun,by simp [Placed,MainAction.began]⟩
    · exact kept.spaced.snoc nofun
    · intro s listed
      rw [List.mem_singleton.mp listed]
      exact ⟨after.trans slept,Nat.le_refl _⟩
    · intro s first
      exact (Option.some.inj first).symm
  | enter w at_ step | look seen w text at_ step shown | leave w at_ step =>
    refine Kept.unbegun ?_ rfl
    have some_ := kept.placed
    rw [Placed,at_] at some_
    exact kept.moved rfl (other_now step) some_
  | break_ at_ ended =>
    refine Kept.unbegun ?_ rfl
    have some_ := kept.placed
    rw [Placed,at_] at some_
    exact kept.moved rfl rfl ⟨some_,ended⟩
  | sleep at_ more =>
    refine Kept.unbegun ?_ rfl
    have some_ := kept.placed
    rw [Placed,at_] at some_
    refine kept.moved rfl rfl ⟨some_,?_,?_⟩
    · intro s listed
      exact Nat.add_le_add_right (kept.within s listed).2 _
    · intro s listed
      have past := (kept.within s listed).2
      cases ended : enough o (s-p.start) with
      | false => rfl
      | true => exact absurd (enough_mono ended (Nat.sub_le_sub_right past _)) (more ▸ nofun)
  | wake wake at_ slept =>
    have rested := kept.placed
    rw [Placed,at_] at rested
    obtain ⟨some_,waited,going⟩ := rested
    refine ⟨kept.clock,?_,?_,?_,?_,by simp [Placed,MainAction.began]⟩
    · exact kept.spaced.snoc (fun s last => (waited s (List.mem_of_getLast? last)).trans slept)
    · intro s listed
      rcases List.mem_append.mp listed with old | new
      · exact kept.within s old
      · obtain ⟨first,rest,rfl⟩ := List.exists_cons_of_ne_nil some_
        have early := (kept.within first List.mem_cons_self)
        rw [List.mem_singleton.mp new]
        exact ⟨early.1.trans early.2,Nat.le_refl _⟩
    · intro s first
      rw [List.getElem?_append_left (List.length_pos_of_ne_nil some_)] at first
      exact kept.start s first
    · intro s listed
      change s ∈ (rs ++ [p.world.now]).dropLast at listed
      rw [List.dropLast_concat] at listed
      exact going s listed
  | request w at_ step =>
    refine Kept.unbegun ?_ rfl
    have over_ := kept.placed
    rw [Placed,at_] at over_
    cases step
    exact kept.moved rfl rfl over_
  | join w at_ step =>
    refine Kept.unbegun ?_ rfl
    have over_ := kept.placed
    rw [Placed,at_] at over_
    cases step
    exact kept.moved rfl rfl over_

private theorem rounds_snoc (actions : List MainAction) (a : MainAction) :
    rounds (actions ++ [a]) = rounds actions ++ (MainAction.began a).toList :=
  filterMap_snoc MainAction.began actions a

theorem kept_run (run : Run (ProgramStep R P sys display o) (begun rules began) actions p) :
    Kept o began (rounds actions) p := by
  induction run with
  | refl => exact ⟨Nat.le_refl _,nofun,nofun,nofun,nofun,rfl⟩
  | snoc actions middle a last _ taken ih =>
    rw [rounds_snoc]
    cases taken with
    | main step => exact kept_main ih step
    | thread b w label step same =>
      subst label same
      exact Kept.unbegun (ih.later rfl rfl (ThreadPublication.own_frame step).1.ge) rfl
    | time passed label same =>
      subst label same
      exact Kept.unbegun (ih.later rfl rfl (Nat.le_add_right _ _)) rfl
    | arrive stored label same =>
      subst label same
      exact Kept.unbegun (ih.later rfl rfl (Nat.le_refl _)) rfl

def unlooked : MainPc → Nat
  | .top | .inside => 1
  | _ => 0

private theorem looks_run (run : Run (ProgramStep R P sys display o) (begun rules began) actions p) :
    looks actions + unlooked p.pc = (rounds actions).length := by
  induction run with
  | refl => rfl
  | snoc actions middle a last _ taken ih =>
    rw [looks_snoc,rounds_snoc,List.length_append,← ih]
    cases taken with
    | main step =>
      cases step with
      | settle at_ | begin _ at_ _ | enter _ at_ _ | look _ _ _ at_ _ _ | leave _ at_ _ | break_ at_ _ | sleep at_ _
      | wake _ at_ _ | request _ at_ _ | join _ at_ _ => rw [at_]; rfl
    | thread b w label step same =>
      subst label same
      have quiet : isLook (.world b) = false := by cases step <;> rfl
      rw [quiet]
      rfl
    | time passed label same | arrive stored label same =>
      subst label same
      rfl

theorem enough_iff {i : Nat} : enough o i = true ↔ o.once = true ∨ ∃ d, o.runFor = some d ∧ d ≤ i := by
  simp [enough,Option.any_eq_true]

/-- The rounds of the main loop never come closer together than the interval, the first of them not
before an interval and the margin have passed, each with one look. `--once` allows one round and
`--duration d` no more than fit into `d` and two, and the program ends for no other reason. -/
theorem rounds_paced (run : Run (ProgramStep R P sys display o) (begun rules began) actions p) :
    Spaced o.interval (rounds actions) ∧
    (∀ s ∈ rounds actions, began + (o.interval+margin) ≤ s ∧ s ≤ p.world.now) ∧
    looks actions ≤ (rounds actions).length ∧ (rounds actions).length ≤ looks actions + 1 ∧
    (o.once = true → (rounds actions).length ≤ 1) ∧
    (∀ d, o.runFor = some d → 2 ≤ (rounds actions).length → ((rounds actions).length-2)*o.interval < d) ∧
    (p.pc = .done → looks actions = (rounds actions).length ∧ 0 < looks actions ∧
      (o.once = true ∨ ∃ d, o.runFor = some d ∧ ∀ s, (rounds actions)[0]? = some s → s + d ≤ p.world.now)) := by
  have kept := kept_run run
  have counted := looks_run run
  have going {n : Nat} (inside : n+2 = (rounds actions).length) :
      ∃ s, (rounds actions)[n]? = some s ∧ enough o (s-p.start) = false := by
    have short : n < (rounds actions).dropLast.length := by
      rw [List.length_dropLast]
      omega
    refine ⟨(rounds actions).dropLast[n],?_,kept.going _ (List.getElem_mem short)⟩
    rw [List.getElem_dropLast,List.getElem?_eq_getElem]
  refine ⟨kept.spaced,kept.within,by omega,?_,?_,?_,?_⟩
  · have one : unlooked p.pc ≤ 1 := by
      cases p.pc <;> simp [unlooked]
    omega
  · intro once
    by_contra more
    obtain ⟨s,_,unended⟩ := going (n := (rounds actions).length-2) (by omega)
    rw [enough,once,Bool.true_or] at unended
    cases unended
  · intro d given more
    obtain ⟨s,listed,unended⟩ := going (n := (rounds actions).length-2) (by omega)
    obtain ⟨first,opening⟩ : ∃ a, (rounds actions)[0]? = some a := ⟨_,List.getElem?_eq_getElem (by omega)⟩
    have apart := kept.spaced 0 ((rounds actions).length-2) first s opening (by rwa [Nat.zero_add])
    have start := kept.start first opening
    have short : ¬ d ≤ s-p.start := by
      intro spent
      rw [enough_iff.mpr (.inr ⟨d,given,spent⟩)] at unended
      cases unended
    omega
  · intro ended
    have placed := kept.placed
    rw [Placed,ended] at placed
    rw [ended] at counted
    have all : looks actions = (rounds actions).length := counted
    refine ⟨all,?_,?_⟩
    · rw [all]
      exact List.length_pos_of_ne_nil placed.1
    · rcases enough_iff.mp placed.2 with once | ⟨d,given,spent⟩
      · exact .inl once
      · refine .inr ⟨d,given,?_⟩
        intro s first
        have start := kept.start s first
        have past := (kept.within s (List.mem_of_getElem? first)).2
        omega

end

theorem rounds_paced_once : ∃ (actions : List MainAction) (p : Program), p.pc = .done ∧ looks actions = 1 ∧
    ∀ s ∈ rounds actions, margin ≤ s := by
  obtain ⟨actions,p,run,ended,_⟩ := deserted_document
  obtain ⟨_,within,_,_,once,_,last⟩ := rounds_paced run
  obtain ⟨all,some_,_⟩ := last ended
  refine ⟨actions,p,ended,?_,?_⟩
  · have one := once rfl
    omega
  · intro s listed
    have late := (within s listed).1
    simpa [onceJson] using late

end Vitals.ProgramPace
