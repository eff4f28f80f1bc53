import Vitals.EngineRound

/-! Runs of the engine refine the product of the alarms: at every moment the entry of a
subject and the events of a call are those of the subject's alarm on its own. -/
namespace Vitals.EngineRefinement
open Kernel Semantics EngineRound Text

private theorem family_next (rules : List Rule) (now : Nat) (tick : UInt64) (id : SubjectId) (rule : Rule)
    (indexed : rules.getD id.rule default = rule) (cell : Option State) (o : Option (F64 × Str)) :
    (family rules now tick).next id cell o =
      let moved := (alarm rule).next ⟨now,o⟩ (phase cell)
      (entry tick moved.1,(moved.2.map (report rule)).toList) := by
  cases o with
  | some o => simp only [Family.next,family,indexed]
  | none =>
    cases cell with
    | none => rfl
    | some st =>
      obtain ⟨stage,since,seen,label⟩ := st
      cases stage <;>
        simp only [Family.next,family,indexed,phase,Monitor.next,entry,Option.map_some,Option.map_none,
          Option.getD_some,Option.toList_some,Option.toList_none]

private theorem seen_of_entry {tick : UInt64} {p : Monitor.Phase Str} {st : State} (found : entry tick p = some st) :
    st.seen = tick := by
  cases p with
  | inactive => cases found
  | pending since label | firing since label => rw [← Option.some.inj found]

section
variable (R : Rounding) (rules : List Rule) (calls : Nat → Call)

theorem engine_rules (k : Nat) : (engineAt R rules calls k).rules = rules := by
  induction k with
  | zero => rfl
  | succ k ih => rw [engineAt,evaluate_round,ih]

private theorem marks (now : Nat) (tick : UInt64) (id : SubjectId) (o : F64 × Str) (cell : Option State)
    (st : State) (moved : ((family rules now tick).observe id o cell).1 = some st) :
    (st.seen == tick) = true := by
  rw [beq_iff_eq]
  exact seen_of_entry moved

/-- One call moves every entry that carries the current tick as its alarm moves. -/
theorem round_refines (k : Nat)
    (current : ∀ id st, (engineAt R rules calls k).states.lookup id = some st →
      st.seen = (engineAt R rules calls k).tick) (id : SubjectId) :
    (engineAt R rules calls (k+1)).states.lookup id =
        ((family rules (calls k).now ((engineAt R rules calls k).tick+1)).next id
          ((engineAt R rules calls k).states.lookup id)
          (rules[id.rule]?.bind (fun rule => reading R rule (calls k).snap id.procKey))).1 ∧
      Family.emitted id (emittedAt R rules calls k) =
        ((family rules (calls k).now ((engineAt R rules calls k).tick+1)).next id
          ((engineAt R rules calls k).states.lookup id)
          (rules[id.rule]?.bind (fun rule => reading R rule (calls k).snap id.procKey))).2 := by
  have same := engine_rules R rules calls k
  have stale : ∀ id st, (engineAt R rules calls k).states.lookup id = some st →
      (st.seen == (engineAt R rules calls k).tick+1) = false := by
    intro id st found
    simp [current id st found]
  have distinct := stepCalls_distinct R rules (calls k).distinct
  rw [engineAt,emittedAt,evaluate_round,same,← stepCalls_lookup R rules (calls k).distinct]
  dsimp only
  exact ⟨Family.round_lookup _ _ _ _ _ distinct stale (marks rules _ _) id,
    Family.round_emitted _ _ _ _ _ distinct stale (marks rules _ _) id⟩

/-- Entry by entry, the family moves as the alarms of the rules do. -/
theorem family_refines (k : Nat) (before after : UInt64) (id : SubjectId) :
    (family rules (calls k).now after).next id
        (rules[id.rule]?.bind (fun rule => entry before (phaseOf R calls rule id.procKey k)))
        (rules[id.rule]?.bind (fun rule => reading R rule (calls k).snap id.procKey)) =
      (rules[id.rule]?.bind (fun rule => entry after (phaseOf R calls rule id.procKey (k+1))),
      (rules[id.rule]?.bind (fun rule =>
        (signalOf R calls rule id.procKey k).map (report rule))).toList) := by
  cases indexed : rules[id.rule]? with
  | none => rfl
  | some rule =>
    have chosen : rules.getD id.rule default = rule := by simp [List.getD,indexed]
    simp only [Option.bind_some,family_next rules _ _ id rule chosen,phase_entry]
    rfl

private theorem current_of_refines {tick : UInt64} {states : Table SubjectId State} {k : Nat}
    (refines : ∀ id, states.lookup id =
      rules[id.rule]?.bind (fun rule => entry tick (phaseOf R calls rule id.procKey k)))
    (id : SubjectId) (st : State) (found : states.lookup id = some st) : st.seen = tick := by
  rw [refines] at found
  obtain ⟨rule,_,found⟩ := Option.bind_eq_some_iff.mp found
  exact seen_of_entry found

theorem entry_refines (k : Nat) (id : SubjectId) :
    (engineAt R rules calls k).states.lookup id =
      rules[id.rule]?.bind (fun rule =>
        entry (engineAt R rules calls k).tick (phaseOf R calls rule id.procKey k)) := by
  induction k generalizing id with
  | zero =>
    have empty : (engineAt R rules calls 0).states.lookup id = none := AList.lookup_empty id
    rw [empty]
    cases rules[id.rule]? <;> rfl
  | succ k ih =>
    have ticked : (engineAt R rules calls (k+1)).tick = (engineAt R rules calls k).tick+1 := by
      rw [engineAt,evaluate_round]
    -- only entries of the last call are left over, so none carries the new tick yet
    have current := current_of_refines R rules calls ih
    rw [(round_refines R rules calls k current id).1,ih id,ticked,family_refines]

theorem entry_current (k : Nat) : ∀ id st, (engineAt R rules calls k).states.lookup id = some st →
    st.seen = (engineAt R rules calls k).tick :=
  current_of_refines R rules calls (entry_refines R rules calls k)

theorem events_refine (k : Nat) (id : SubjectId) :
    Family.emitted id (emittedAt R rules calls k) =
      (rules[id.rule]?.bind (fun rule =>
        (signalOf R calls rule id.procKey k).map (report rule))).toList := by
  rw [(round_refines R rules calls k (entry_current R rules calls k) id).2,entry_refines,family_refines]

/-- The index by which `reap` and `active` look up the rule of an entry is in range. -/
theorem rule_of_entry (k : Nat) (id : SubjectId) (st : State)
    (found : (engineAt R rules calls k).states.lookup id = some st) :
    ∃ rule, rules[id.rule]? = some rule := by
  rw [entry_refines] at found
  obtain ⟨rule,indexed,_⟩ := Option.bind_eq_some_iff.mp found
  exact ⟨rule,indexed⟩

theorem mem_emitted (k r : Nat) (rule : Rule) (subject : Subject) (indexed : rules[r]? = some rule) (e : Event) :
    e ∈ Family.emitted ⟨r,subject⟩ (emittedAt R rules calls k) ↔
      ∃ signal, signalOf R calls rule subject k = some signal ∧ report rule signal = e := by
  rw [events_refine,indexed,Option.bind_some,Option.mem_toList,Option.map_eq_some_iff]

theorem firing_entry (k r : Nat) (rule : Rule) (subject : Subject) (indexed : rules[r]? = some rule) :
    (∃ st, (engineAt R rules calls k).states.lookup ⟨r,subject⟩ = some st ∧ st.phase = .firing) ↔
      (phaseOf R calls rule subject k).isFiring = true := by
  rw [entry_refines,indexed,Option.bind_some]
  cases phaseOf R calls rule subject k <;> simp [entry,Monitor.Phase.isFiring]

variable {calls} in
theorem clock_monotone (clock : ∀ i, (calls i).now ≤ (calls (i+1)).now) {i j : Nat} (later : i ≤ j) :
    (calls i).now ≤ (calls j).now :=
  monotone_nat_of_le_succ (f := fun i => (calls i).now) clock later

end

theorem report_fired (rule : Rule) (signal : Monitor.Signal F64 Str) (held : Nat) :
    ((report rule signal).kind = .fired ∧ (report rule signal).heldFor = held) ↔
      ∃ v l, signal = .fired v l held := by
  cases signal <;> simp [report]

/-- What the parser accepts as a clear value nests the two conditions of the alarm. -/
theorem nested_of_sane {rule : Rule} (side : sane rule.op rule.threshold rule.clear = true) :
    (alarm rule).Nested := by
  intro v trip
  simp only [alarm_trips,alarm_holds,breaching,stillActive] at trip ⊢
  unfold sane at side
  cases op : rule.op with
  | gt =>
    simp only [op,decide_eq_true_eq] at side trip ⊢
    exact F64.lt_of_le_of_lt side trip
  | lt =>
    simp only [op,decide_eq_true_eq] at side trip ⊢
    exact F64.lt_of_lt_of_le trip side

end Vitals.EngineRefinement
