import Vitals.EngineRefinement

/-! The sustain of a rule, exactly: an alert fires in the first call in which its value
has breached without a break for as long as the rule asks. -/
namespace Vitals.EngineSustain
open Kernel Semantics EngineRefinement Monitor

section
variable (R : Rounding) (rules : List Rule) (calls : Nat → Call)

private theorem emits_fired_iff (k r held : Nat) (rule : Rule) (subject : Subject) (indexed : rules[r]? = some rule) :
    (∃ e ∈ Family.emitted ⟨r,subject⟩ (emittedAt R rules calls k), e.kind = .fired ∧ e.heldFor = held) ↔
      ∃ v l, signalOf R calls rule subject k = some (.fired v l held) := by
  refine ⟨?_,?_⟩
  · intro emitted
    obtain ⟨e,member,fired⟩ := emitted
    obtain ⟨signal,emitted,rfl⟩ := (mem_emitted R rules calls k r rule subject indexed e).mp member
    obtain ⟨v,l,rfl⟩ := (report_fired rule signal held).mp fired
    exact ⟨v,l,emitted⟩
  · intro emitted
    obtain ⟨v,l,emitted⟩ := emitted
    exact ⟨_,(mem_emitted R rules calls k r rule subject indexed _).mpr ⟨_,emitted,rfl⟩,rfl,rfl⟩

private theorem not_firing_iff (k r : Nat) (rule : Rule) (subject : Subject) (indexed : rules[r]? = some rule) :
    (∀ st, (engineAt R rules calls k).states.lookup ⟨r,subject⟩ = some st → st.phase ≠ .firing) ↔
      (phaseOf R calls rule subject k).isFiring = false := by
  rw [← Bool.not_eq_true,← firing_entry R rules calls k r rule subject indexed]
  simp

private theorem breach_of_pending (k r : Nat) (rule : Rule) (subject : Subject) (indexed : rules[r]? = some rule)
    (nested : (alarm rule).Nested) (st : State)
    (found : (engineAt R rules calls (k+1)).states.lookup ⟨r,subject⟩ = some st) (pending : st.phase = .pending) :
    TripsAt (alarm rule) (observed R calls rule subject) k := by
  rw [entry_refines,indexed,Option.bind_some] at found
  cases after : phaseOf R calls rule subject (k+1) with
  | inactive => simp [after,entry] at found
  | firing since label =>
    simp only [after,entry,Option.some.injEq] at found
    simp [← found] at pending
  | pending since label =>
    obtain ⟨j,streak,_⟩ := pending_streak nested k since label after
    exact streak.trips k streak.ordered (Nat.le_refl k)

/-- Never early, never missed, never twice: a fired event comes exactly with the first call
of a streak of breaches that is due, and any other call makes the timer start again. -/
theorem fired_exactly (r : Nat) (rule : Rule) (subject : Subject) (indexed : rules[r]? = some rule)
    (side : sane rule.op rule.threshold rule.clear = true)
    (clock : ∀ i, (calls i).now ≤ (calls (i+1)).now) (k : Nat) :
    (∀ held, (∃ e ∈ Family.emitted ⟨r,subject⟩ (emittedAt R rules calls k),
        e.kind = .fired ∧ e.heldFor = held) ↔
      (∀ st, (engineAt R rules calls k).states.lookup ⟨r,subject⟩ = some st → st.phase ≠ .firing) ∧
        ∃ j, StreakFrom (alarm rule) (observed R calls rule subject) j k ∧
          held = (calls k).now-(calls j).now ∧ rule.sustain ≤ held ∧
          ∀ i, j ≤ i → i < k → (calls i).now-(calls j).now < rule.sustain) ∧
    ∀ i, ¬ TripsAt (alarm rule) (observed R calls rule subject) i →
      (∀ st, (engineAt R rules calls (i+1)).states.lookup ⟨r,subject⟩ = some st → st.phase ≠ .pending) ∧
        (i < k → ∀ e ∈ Family.emitted ⟨r,subject⟩ (emittedAt R rules calls k), e.kind = .fired →
          e.heldFor ≤ (calls k).now-(calls (i+1)).now) := by
  have nested := nested_of_sane side
  have exact := fun held => (emits_fired_iff R rules calls k r held rule subject indexed).trans
    (fired_iff nested k held)
  refine ⟨?_,?_⟩
  · intro held
    rw [exact held,not_firing_iff R rules calls k r rule subject indexed]
    rfl
  · intro i quiet
    refine ⟨fun st found pending => quiet
      (breach_of_pending R rules calls i r rule subject indexed nested st found pending),?_⟩
    intro before e member fired
    obtain ⟨_,j,streak,held,_⟩ := (exact e.heldFor).mp ⟨e,member,fired,rfl⟩
    -- the streak of the fired event cannot reach back over the quiet call
    have later : i+1 ≤ j := by
      by_contra earlier
      exact quiet (streak.trips i (by omega) (by omega))
    have started := clock_monotone clock later
    rw [held]
    change (calls k).now-(calls j).now ≤ _
    omega

end

def highCpu : Rule := ⟨"high_cpu".toList,.system,.cpuPct,.gt,.fin 80,5,.fin 60,false,false⟩

def busy (k : Nat) : Call :=
  ⟨⟨{(default : SystemRate) with cpuPct := .fin 90},[]⟩,3*k,.stored _,List.nodup_nil⟩

theorem fired_exactly_busy : ∃ e ∈ Family.emitted ⟨0,none⟩ (emittedAt .exact [highCpu] busy 2),
    e.kind = .fired ∧ e.heldFor = 6 := by
  have clock (i : Nat) : (busy i).now = 3*i := rfl
  have read (i : Nat) : (observed .exact busy highCpu none i).seen = some (.fin 90,"system".toList) := rfl
  have breach : (alarm highCpu).trips (.fin 90) = true := by decide +kernel
  have streak : StreakFrom (alarm highCpu) (observed .exact busy highCpu none) 0 2 :=
    ⟨by omega,fun i _ _ => ⟨_,_,read i,breach⟩,by omega⟩
  have pending : (engineAt .exact [highCpu] busy 2).states.lookup ⟨0,none⟩ =
      some ⟨.pending,0,2,"system".toList⟩ := by decide +kernel
  refine ((fired_exactly .exact [highCpu] busy 0 highCpu none rfl (by decide +kernel)
    (fun i => by rw [clock,clock]; omega) 2).1 6).mpr ⟨?_,0,streak,rfl,by decide,?_⟩
  · intro st found firing
    rw [pending,Option.some.injEq] at found
    simp [← found] at firing
  · intro i _ inside
    have sustain : highCpu.sustain = 5 := rfl
    rw [clock,clock]
    omega

end Vitals.EngineSustain
