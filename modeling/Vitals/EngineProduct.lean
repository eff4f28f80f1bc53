import Vitals.EngineRefinement

/-! The engine as a product of independent alarms: no rule, no process and no order of
traversal reaches the events of another subject, and nothing stale is kept. -/
namespace Vitals.EngineProduct
open Kernel Semantics EngineRound EngineRefinement

private theorem reading_perm (R : Rounding) (rule : Rule) {left right : Snapshot}
    (system : left.system = right.system) (rearranged : left.procs.Perm right.procs)
    (distinct : (left.procs.map identity).Nodup) (subject : Subject) :
    reading R rule left subject = reading R rule right subject := by
  have other : (right.procs.map identity).Nodup := (rearranged.map identity).nodup_iff.mp distinct
  have sameValue : systemValue R rule left = systemValue R rule right := by
    simp only [systemValue,system]
  cases subject with
  | none => simp only [reading,sameValue]
  | some key =>
    have found : left.procs.find? (fun p => identity p = key) =
        right.procs.find? (fun p => identity p = key) := by
      apply Option.ext
      intro p
      rw [find_identity distinct,find_identity other,rearranged.mem_iff]
    simp only [reading,found]

section
variable {R : Rounding} {rules : List Rule} {calls : Nat → Call}

private theorem emitted_congr {rules' : List Rule} {calls' : Nat → Call} {k r r' : Nat} {rule : Rule}
    {subject : Subject} (indexed : rules[r]? = some rule) (indexed' : rules'[r']? = some rule)
    (same : ∀ i, i ≤ k → observed R calls rule subject i = observed R calls' rule subject i) :
    Family.emitted ⟨r,subject⟩ (emittedAt R rules calls k) =
      Family.emitted ⟨r',subject⟩ (emittedAt R rules' calls' k) := by
  have signals : signalOf R calls rule subject k = signalOf R calls' rule subject k :=
    Monitor.signalAt_congr _ k same
  rw [events_refine,events_refine,indexed,indexed',Option.bind_some,Option.bind_some,signals]

private theorem emitted_perm {calls' : Nat → Call}
    (same : ∀ i, (calls i).now = (calls' i).now ∧ (calls i).snap.system = (calls' i).snap.system ∧
      (calls i).snap.procs.Perm (calls' i).snap.procs) (k : Nat) :
    (emittedAt R rules calls k).Perm (emittedAt R rules calls' k) := by
  have told (rule : Rule) (subject : Subject) (i : Nat) :
      observed R calls rule subject i = observed R calls' rule subject i := by
    obtain ⟨clock,system,rearranged⟩ := same i
    rw [observed,observed,clock,reading_perm R rule system rearranged (calls i).distinct]
  apply Family.perm_of_emitted
  intro id
  cases indexed : rules[id.rule]? with
  | none => rw [events_refine,events_refine,indexed,Option.bind_none,Option.bind_none]
  | some rule => exact emitted_congr indexed indexed (fun i _ => told rule id.procKey i)

private theorem label_of_entry {tick : UInt64} {p : Monitor.Phase Text.Str} {st : State}
    (found : entry tick p = some st) : p.label = some st.label := by
  cases p with
  | inactive => cases found
  | pending since label | firing since label => rw [← Option.some.inj found]; rfl

theorem entry_reading {k : Nat} {id : SubjectId} {st : State}
    (found : (engineAt R rules calls (k+1)).states.lookup id = some st) :
    ∃ rule v, rules[id.rule]? = some rule ∧
      reading R rule (calls k).snap id.procKey = some (v,st.label) := by
  rw [entry_refines] at found
  obtain ⟨rule,indexed,found⟩ := Option.bind_eq_some_iff.mp found
  obtain ⟨v,seen⟩ := Monitor.label_seen (label_of_entry found)
  exact ⟨rule,v,indexed,seen⟩

private theorem entry_observed {k : Nat} {id : SubjectId} {st : State}
    (found : (engineAt R rules calls (k+1)).states.lookup id = some st) :
    st.seen = (engineAt R rules calls (k+1)).tick ∧
      ∃ rule, rules[id.rule]? = some rule ∧ (reading R rule (calls k).snap id.procKey).isSome := by
  obtain ⟨rule,v,indexed,read⟩ := entry_reading found
  exact ⟨entry_current R rules calls (k+1) id st found,rule,indexed,Option.isSome_iff_exists.mpr ⟨_,read⟩⟩

end

/-- The engine refines the product of its alarms. -/
theorem evaluate_refines_product (R : Rounding) (rules : List Rule) (calls : Nat → Call) :
    (∀ k r rule subject, rules[r]? = some rule →
      (engineAt R rules calls (k+1)).states.lookup ⟨r,subject⟩ =
          entry (engineAt R rules calls (k+1)).tick (phaseOf R calls rule subject (k+1)) ∧
        Family.emitted ⟨r,subject⟩ (emittedAt R rules calls k) =
          ((signalOf R calls rule subject k).map (report rule)).toList) ∧
    (∀ k r subject, rules[r]? = none →
      (engineAt R rules calls (k+1)).states.lookup ⟨r,subject⟩ = none ∧
        Family.emitted ⟨r,subject⟩ (emittedAt R rules calls k) = []) ∧
    (∀ (rules' : List Rule) (calls' : Nat → Call) k r r' rule subject,
      rules[r]? = some rule → rules'[r']? = some rule →
      (∀ i, i ≤ k → observed R calls rule subject i = observed R calls' rule subject i) →
      Family.emitted ⟨r,subject⟩ (emittedAt R rules calls k) =
        Family.emitted ⟨r',subject⟩ (emittedAt R rules' calls' k)) ∧
    (∀ calls' : Nat → Call,
      (∀ i, (calls i).now = (calls' i).now ∧ (calls i).snap.system = (calls' i).snap.system ∧
        (calls i).snap.procs.Perm (calls' i).snap.procs) →
      ∀ k, (emittedAt R rules calls k).Perm (emittedAt R rules calls' k)) ∧
    ∀ k id st, (engineAt R rules calls (k+1)).states.lookup id = some st →
      st.seen = (engineAt R rules calls (k+1)).tick ∧
        ∃ rule, rules[id.rule]? = some rule ∧
          (reading R rule (calls k).snap id.procKey).isSome := by
  refine ⟨?_,?_,?_,?_,?_⟩
  · intro k r rule subject indexed
    rw [entry_refines,events_refine,indexed]
    exact ⟨rfl,rfl⟩
  · intro k r subject outside
    rw [entry_refines,events_refine,outside]
    exact ⟨rfl,rfl⟩
  · intro rules' calls' k r r' rule subject indexed indexed' same
    exact emitted_congr indexed indexed' same
  · intro calls' same k
    exact emitted_perm same k
  · intro k id st found
    exact entry_observed found

end Vitals.EngineProduct
