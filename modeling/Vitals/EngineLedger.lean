import Vitals.RuleFile

/-! The books of the engine: what it has emitted so far against what it holds active,
and the deadband that keeps an alert from flapping. -/
namespace Vitals.EngineLedger
open Kernel Semantics EngineRound EngineRefinement Monitor

/-- A fired event opens an alert, any other closes one. -/
def balance (e : Event) : Int := if e.kind = .fired then 1 else -1

def weight (st : State) : Int := if st.phase = .firing then 1 else 0

private theorem weight_entry (tick : UInt64) (p : Monitor.Phase Text.Str) :
    Table.share weight (entry tick p) = if p.isFiring then 1 else 0 := by
  cases p <;> rfl

private theorem weight_phase (cell : Option State) :
    Table.share weight cell = if (phase cell).isFiring then 1 else 0 := by
  cases cell with
  | none => rfl
  | some st =>
    obtain ⟨stage,since,seen,label⟩ := st
    cases stage <;> rfl

private theorem reports_fired (rule : Rule) (signal : Signal F64 Text.Str) :
    (report rule signal).kind = .fired ↔ signal.isFired = true := by
  cases signal <;> simp [report,Signal.isFired]

private theorem balance_report (rule : Rule) (signal : Option (Signal F64 Text.Str)) :
    (((signal.map (report rule)).toList).map balance).sum =
      (signal.map (fun s => if s.isFired then (1 : Int) else -1)).getD 0 := by
  cases signal with
  | none => rfl
  | some s => cases s <;> rfl

private theorem family_balanced (rules : List Rule) (now : Nat) (tick : UInt64) :
    Family.Balanced weight balance (family rules now tick) where
  observe := by
    intro id o cell
    simp only [family]
    rw [weight_entry,weight_phase,balance_report]
    exact next_balance _ _ _
  gone := by
    intro id st
    simp only [family]
    rw [balance_report]
    obtain ⟨stage,since,seen,label⟩ := st
    cases stage <;> rfl

section
variable (R : Rounding) (rules : List Rule) (calls : Nat → Call)

theorem emittedBefore_succ (k : Nat) : emittedBefore R rules calls (k+1) =
    emittedBefore R rules calls k ++ emittedAt R rules calls k := by
  simp [emittedBefore,List.range_succ]

theorem history_refines (k : Nat) (id : SubjectId) :
    Family.emitted id (emittedBefore R rules calls k) =
      ((rules[id.rule]?).map (fun rule =>
        (history (alarm rule) (observed R calls rule id.procKey) k).map (report rule))).getD [] := by
  induction k with
  | zero => cases rules[id.rule]? <;> rfl
  | succ k ih =>
    rw [emittedBefore_succ,Family.emitted_append,ih,events_refine]
    cases indexed : rules[id.rule]? with
    | none => rfl
    | some rule =>
      simp only [Option.map_some,Option.getD_some,Option.bind_some,history_succ,List.map_append]
      change _ = _ ++ (signalOf R calls rule id.procKey k).toList.map (report rule)
      cases signalOf R calls rule id.procKey k <;> rfl

private theorem activeCount_total (e : Engine) : (e.activeCount : Int) = Table.total weight e.states := by
  unfold Engine.activeCount Table.total
  induction e.states.entries with
  | nil => rfl
  | cons s rest ih =>
    rw [List.map_cons,List.sum_cons,← ih]
    cases stage : s.2.phase <;> simp [weight,stage,add_comm]

private theorem ledger_counts (events : List (SubjectId × Event)) : Family.ledger balance events =
    events.countP (fun e => e.2.kind = .fired) - events.countP (fun e => e.2.kind = .cleared) -
      events.countP (fun e => e.2.kind = .clearedGone) := by
  unfold Family.ledger
  induction events with
  | nil => rfl
  | cons e rest ih =>
    rw [List.map_cons,List.sum_cons,ih]
    cases kind : e.2.kind <;> simp [balance,kind] <;> omega

private theorem total_ledger (k : Nat) : Table.total weight (engineAt R rules calls k).states =
    Family.ledger balance (emittedBefore R rules calls k) := by
  induction k with
  | zero => rfl
  | succ k ih =>
    have round := Family.round_ledger weight balance
      (family_balanced rules (calls k).now ((engineAt R rules calls k).tick+1))
      (fun st => st.seen == (engineAt R rules calls k).tick+1) (calls k).order
      (stepCalls R rules (calls k).snap) (engineAt R rules calls k).states
    have split : Family.ledger balance (emittedBefore R rules calls (k+1)) =
        Family.ledger balance (emittedBefore R rules calls k) +
          Family.ledger balance (emittedAt R rules calls k) := by
      simp [Family.ledger,emittedBefore_succ]
    rw [split,← ih,emittedAt,engineAt,evaluate_round,engine_rules R rules calls k]
    exact round

theorem latest_fired_entry (k : Nat) (id : SubjectId) :
    (∃ e, (Family.emitted id (emittedBefore R rules calls k)).getLast? = some e ∧ e.kind = .fired) ↔
      ∃ st, (engineAt R rules calls k).states.lookup id = some st ∧ st.phase = .firing := by
  rw [history_refines]
  cases indexed : rules[id.rule]? with
  | none =>
    rw [entry_refines,indexed]
    simp
  | some rule =>
    -- both sides speak of the alarm: its last signal, and whether it is on
    rw [firing_entry R rules calls k id.rule rule id.procKey indexed,phaseOf,← latest_fired_iff]
    simp only [Option.map_some,Option.getD_some,List.getLast?_map,Option.map_eq_some_iff]
    refine ⟨?_,?_⟩
    · intro fired
      obtain ⟨_,⟨s,last,rfl⟩,fired⟩ := fired
      exact ⟨s,last,(reports_fired rule s).mp fired⟩
    · intro fired
      obtain ⟨s,last,fired⟩ := fired
      exact ⟨_,⟨s,last,rfl⟩,(reports_fired rule s).mpr fired⟩

private theorem alternates (k : Nat) (id : SubjectId) (i : Nat) (e : Event)
    (listed : (Family.emitted id (emittedBefore R rules calls k))[i]? = some e) :
    e.kind = .fired ↔ i % 2 = 0 := by
  rw [history_refines] at listed
  cases indexed : rules[id.rule]? with
  | none => simp [indexed] at listed
  | some rule =>
    simp only [indexed,Option.map_some,Option.getD_some,List.getElem?_map,Option.map_eq_some_iff] at listed
    obtain ⟨s,place,rfl⟩ := listed
    rw [reports_fired,(alternation k).1 i s place]

def activeRow (e : Engine) (clock : SubjectId → Nat) (id : SubjectId) :
    Option (Text.Str × Text.Str × Nat × Nat) :=
  (e.states.lookup id).map (fun st =>
    ((e.rules.getD id.rule default).name,st.label,clock id-st.since,st.since))

def activeIds (e : Engine) (order : Iteration (Σ _ : SubjectId, State)) : List SubjectId :=
  ((order.visit e.states.entries).filter (fun s => s.2.phase == .firing)).map Sigma.fst

theorem activeIds_nodup (e : Engine) (order : Iteration (Σ _ : SubjectId, State)) :
    (activeIds e order).Nodup := by
  have distinct : (order.visit e.states.entries).NodupKeys :=
    (List.perm_nodupKeys (order.perm _)).mpr e.states.nodupKeys
  exact (List.Sublist.map Sigma.fst List.filter_sublist).nodup distinct

theorem mem_activeIds (e : Engine) (order : Iteration (Σ _ : SubjectId, State)) (id : SubjectId) :
    id ∈ activeIds e order ↔ ∃ st, e.states.lookup id = some st ∧ st.phase = .firing := by
  simp only [activeIds,List.mem_map,List.mem_filter,(order.perm _).mem_iff,beq_iff_eq]
  refine ⟨?_,?_⟩
  · intro listed
    obtain ⟨⟨_,st⟩,⟨member,firing⟩,rfl⟩ := listed
    exact ⟨st,(Table.lookup_eq_some _ _ st).mpr member,firing⟩
  · intro active
    obtain ⟨st,found,firing⟩ := active
    exact ⟨⟨id,st⟩,⟨(Table.lookup_eq_some _ _ st).mp found,firing⟩,rfl⟩

theorem active_rows (e : Engine) (order : Iteration (Σ _ : SubjectId, State)) (clock : SubjectId → Nat) :
    ((e.active order clock).map some).Perm ((activeIds e order).map (activeRow e clock)) := by
  refine ((List.mergeSort_perm _ _).map some).trans (List.Perm.of_eq ?_)
  rw [activeIds,List.map_map,List.map_map]
  apply List.map_congr_left
  intro entry member
  obtain ⟨id,st⟩ := entry
  have inside : (⟨id,st⟩ : Sigma fun _ : SubjectId => State) ∈ e.states.entries :=
    (order.perm _).mem_iff.mp (List.mem_filter.mp member).1
  have found := (Table.lookup_eq_some e.states id st).mpr inside
  simp only [Function.comp_apply,activeRow,found,Option.map_some]

def OpensAt (r : Nat) (subject : Subject) (k : Nat) : Prop :=
  ∃ e ∈ Family.emitted ⟨r,subject⟩ (emittedAt R rules calls k), e.kind = .fired

theorem opensAt_iff (r : Nat) (rule : Rule) (subject : Subject) (k : Nat) (indexed : rules[r]? = some rule) :
    OpensAt R rules calls r subject k ↔
      ∃ s, signalOf R calls rule subject k = some s ∧ s.isFired = true := by
  simp only [OpensAt,mem_emitted R rules calls k r rule subject indexed]
  refine ⟨?_,?_⟩
  · intro fired
    obtain ⟨_,⟨s,signal,rfl⟩,fired⟩ := fired
    exact ⟨s,signal,(reports_fired rule s).mp fired⟩
  · intro fired
    obtain ⟨s,signal,fired⟩ := fired
    exact ⟨_,⟨s,signal,rfl⟩,(reports_fired rule s).mpr fired⟩

section
variable {R rules calls} {r : Nat} {rule : Rule} {subject : Subject}

private theorem active_until_ended (indexed : rules[r]? = some rule) (nested : (alarm rule).Nested) {i k : Nat}
    (ordered : i ≤ k) (opened : OpensAt R rules calls r subject i)
    (unended : ∀ j, i < j → j ≤ k → ∀ e ∈ Family.emitted ⟨r,subject⟩ (emittedAt R rules calls j), e.kind = .fired) :
    ∃ v l, reading R rule (calls k).snap subject = some (v,l) ∧ stillActive rule v = true := by
  obtain ⟨s,signal,fired⟩ := (opensAt_iff R rules calls r rule subject i indexed).mp opened
  have onlyFired (j : Nat) (t : Signal F64 Text.Str) (low : i < j) (high : j ≤ k)
      (emitted : signalOf R calls rule subject j = some t) : t.isFired = true := by
    have listed := (mem_emitted R rules calls j r rule subject indexed _).mpr ⟨t,emitted,rfl⟩
    exact (reports_fired rule t).mp (unended j low high _ listed)
  exact (holds_while_on nested signal fired onlyFired k ordered (Nat.le_refl k)).2

private theorem inactive_when_cleared (indexed : rules[r]? = some rule) {k : Nat} {e : Event}
    (listed : e ∈ Family.emitted ⟨r,subject⟩ (emittedAt R rules calls k)) (cleared : e.kind = .cleared) :
    ∃ l, reading R rule (calls k).snap subject = some (e.value,l) ∧ stillActive rule e.value = false := by
  obtain ⟨s,signal,rfl⟩ := (mem_emitted R rules calls k r rule subject indexed e).mp listed
  cases s with
  | fired v l held | gone l held => cases cleared
  | cleared v l held =>
    obtain ⟨seen,back⟩ := signal_of_cleared signal
    exact ⟨l,seen,back⟩

private theorem openings_separated (indexed : rules[r]? = some rule) {i k : Nat} (ordered : i < k)
    (first : OpensAt R rules calls r subject i) (second : OpensAt R rules calls r subject k) :
    ∃ j, i < j ∧ j < k ∧
      ∀ v l, reading R rule (calls j).snap subject = some (v,l) → stillActive rule v = false := by
  obtain ⟨s,signal,fired⟩ := (opensAt_iff R rules calls r rule subject i indexed).mp first
  obtain ⟨t,again,firedAgain⟩ := (opensAt_iff R rules calls r rule subject k indexed).mp second
  obtain ⟨j,low,high,off⟩ := fired_separated ordered signal fired again firedAgain
  refine ⟨j,low,high,?_⟩
  intro v l seen
  rw [← Bool.not_eq_true]
  exact fun still => off ⟨v,l,seen,still⟩

end

end

/-- The books balance over every run of an accepted rule file, and the deadband keeps
every alert on its active side from the event that opens it to the one that closes it. -/
theorem books_balance (R : Rounding) (text : Text.Str) (calls : Nat → Call) :
    let rules := (parseRules R text).1
    (∀ k id i e, (Family.emitted id (emittedBefore R rules calls k))[i]? = some e →
      (e.kind = .fired ↔ i % 2 = 0)) ∧
    (∀ k, ((engineAt R rules calls k).activeCount : Int) =
      (emittedBefore R rules calls k).countP (fun e => e.2.kind = .fired) -
        (emittedBefore R rules calls k).countP (fun e => e.2.kind = .cleared) -
        (emittedBefore R rules calls k).countP (fun e => e.2.kind = .clearedGone)) ∧
    (∀ k order clock, ∃ ids : List SubjectId, ids.Nodup ∧
      (∀ id, id ∈ ids ↔ ∃ e, (Family.emitted id (emittedBefore R rules calls k)).getLast? = some e ∧
        e.kind = .fired) ∧
      (((engineAt R rules calls k).active order clock).map some).Perm
        (ids.map (activeRow (engineAt R rules calls k) clock))) ∧
    ∀ r rule subject, rules[r]? = some rule →
      (∀ i k, i ≤ k → OpensAt R rules calls r subject i →
        (∀ j, i < j → j ≤ k → ∀ e ∈ Family.emitted ⟨r,subject⟩ (emittedAt R rules calls j), e.kind = .fired) →
        ∃ v l, reading R rule (calls k).snap subject = some (v,l) ∧ stillActive rule v = true) ∧
      (∀ k, ∀ e ∈ Family.emitted ⟨r,subject⟩ (emittedAt R rules calls k), e.kind = .cleared →
        ∃ l, reading R rule (calls k).snap subject = some (e.value,l) ∧ stillActive rule e.value = false) ∧
      ∀ i k, i < k → OpensAt R rules calls r subject i → OpensAt R rules calls r subject k →
        ∃ j, i < j ∧ j < k ∧
          ∀ v l, reading R rule (calls j).snap subject = some (v,l) → stillActive rule v = false := by
  intro rules
  refine ⟨alternates R rules calls,?_,?_,?_⟩
  · intro k
    rw [activeCount_total,total_ledger,ledger_counts]
  · intro k order clock
    refine ⟨activeIds _ order,activeIds_nodup _ order,?_,active_rows _ order clock⟩
    intro id
    rw [mem_activeIds,latest_fired_entry]
  · intro r rule subject indexed
    have nested := RuleFile.nested_of_mem R (List.mem_of_getElem? indexed)
    exact ⟨fun i k ordered opened unended => active_until_ended indexed nested ordered opened unended,
      fun k e listed cleared => inactive_when_cleared indexed listed cleared,
      fun i k ordered first second => openings_separated indexed ordered first second⟩

end Vitals.EngineLedger
