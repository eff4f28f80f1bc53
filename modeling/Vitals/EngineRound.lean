import Vitals.Semantics.Alert
import Vitals.Library.Reaping

/-! One call of `evaluate` is one round of the family of alarms. The calls of `step` it
makes depend on the rules and the snapshot only, and the entry a step works on is the
only one it reads or writes. -/
namespace Vitals.EngineRound
open Kernel Semantics Text

def ruleCalls (R : Rounding) (snap : Snapshot) (ri : Nat) (rule : Rule) : List (SubjectId × (F64 × Str)) :=
  match rule.target with
  | .system => (systemValue R rule snap).toList.map (fun v => (⟨ri,none⟩,(v,"system".toList)))
  | .process _ => snap.procs.filterMap (fun p => (procValue R rule p).map (fun v =>
      (⟨ri,some (p.key.pid,p.key.starttime)⟩,(v,procLabel p))))

def stepCalls (R : Rounding) (rules : List Rule) (snap : Snapshot) : List (SubjectId × (F64 × Str)) :=
  rules.zipIdx.flatMap (fun (rule,ri) => ruleCalls R snap ri rule)

def phase : Option State → Monitor.Phase Str
  | none => .inactive
  | some st => match st.phase with
    | .pending => .pending st.since st.label
    | .firing => .firing st.since st.label

theorem phase_entry (tick : UInt64) (p : Monitor.Phase Str) : phase (entry tick p) = p := by
  cases p <;> rfl

/-- The alarms of all subjects as one family over the shared table. -/
def family (rules : List Rule) (now : Nat) (tick : UInt64) : Family SubjectId State (F64 × Str) Event where
  observe id o cell :=
    let rule := rules.getD id.rule default
    let moved := (alarm rule).next ⟨now,some o⟩ (phase cell)
    (entry tick moved.1,(moved.2.map (report rule)).toList)
  gone id st :=
    let rule := rules.getD id.rule default
    (((alarm rule).next (V := F64) ⟨now,none⟩ (phase (some st))).2.map (report rule)).toList

private theorem step_visit (rules : List Rule) (progress : Progress) (id : SubjectId) (rule : Rule)
    (label : Str) (value : F64) (now : Nat) (tick : UInt64) (indexed : rules.getD id.rule default = rule) :
    step progress id rule label value now tick =
      (family rules now tick).visit progress (id,(value,label)) := by
  unfold step Family.visit
  simp only [family,indexed]
  cases found : progress.1.lookup id with
  | none =>
    cases breach : breaching rule value with
    | false => simp [phase,Monitor.next,breach,entry,Table.erase_absent found]
    | true =>
      by_cases prompt : rule.sustain = 0 <;> simp [phase,Monitor.next,breach,prompt,entry,report]
  | some st =>
    obtain ⟨stage,since,seen,old⟩ := st
    cases stage with
    | pending =>
      cases breach : breaching rule value with
      | false => simp [phase,Monitor.next,breach,entry,Table.erase_insert]
      | true =>
        by_cases due : rule.sustain ≤ now-since <;>
          simp [phase,Monitor.next,breach,due,entry,report]
    | firing =>
      cases still : stillActive rule value with
      | false => simp [phase,Monitor.next,still,entry,report,Table.erase_insert]
      | true => simp [phase,Monitor.next,still,entry]

private theorem reap_sweep (rules : List Rule) (now : Nat) (tick : UInt64)
    (order : Iteration (Σ _ : SubjectId, State)) (progress : Progress) :
    reap rules now tick order progress =
      (family rules now tick).sweep (fun st => st.seen == tick) order progress := by
  unfold reap Family.sweep
  congr 2
  generalize order.visit progress.1.entries = entries
  induction entries with
  | nil => rfl
  | cons e rest ih =>
    obtain ⟨id,⟨stage,since,seen,label⟩⟩ := e
    cases marked : seen == tick with
    | true => simpa [marked,bne] using ih
    | false => cases stage <;> simpa [marked,bne,family,phase,Monitor.next,report] using ih

private theorem evaluateRule_visits (R : Rounding) (rules : List Rule) (snap : Snapshot) (now : Nat)
    (tick : UInt64) (progress : Progress) (ri : Nat) (rule : Rule)
    (indexed : rules.getD ri default = rule) :
    evaluateRule R snap now tick progress ri rule =
      (ruleCalls R snap ri rule).foldl (family rules now tick).visit progress := by
  unfold evaluateRule ruleCalls
  cases rule.target with
  | system =>
    cases systemValue R rule snap with
    | none => rfl
    | some v => exact step_visit rules progress ⟨ri,none⟩ rule "system".toList v now tick indexed
  | process pattern =>
    induction snap.procs generalizing progress with
    | nil => rfl
    | cons p rest ih =>
      simp only [List.foldl_cons,List.filterMap_cons]
      cases procValue R rule p with
      | none => exact ih progress
      | some v =>
        have moved := step_visit rules progress ⟨ri,some (p.key.pid,p.key.starttime)⟩ rule
          (procLabel p) v now tick indexed
        dsimp only [Option.map_some]
        rw [moved]
        exact ih _

/-- A call of `evaluate` hands every value it reads to the alarm of its subject, and
then sweeps away what it did not touch. -/
theorem evaluate_round (R : Rounding) (e : Engine) (snap : Snapshot) (now : Nat)
    (order : Iteration (Σ _ : SubjectId, State)) :
    let after := (family e.rules now (e.tick+1)).round (fun st => st.seen == e.tick+1) order
      (stepCalls R e.rules snap) e.states
    e.evaluate R snap now order = (⟨e.rules,after.1,e.tick+1⟩,after.2) := by
  have visited : e.rules.zipIdx.foldl (fun progress (rule,ri) =>
      evaluateRule R snap now (e.tick+1) progress ri rule) (e.states,[]) =
      (stepCalls R e.rules snap).foldl (family e.rules now (e.tick+1)).visit (e.states,[]) := by
    rw [stepCalls,List.foldl_flatMap]
    apply List.foldl_ext
    intro progress entry member
    obtain ⟨rule,ri⟩ := entry
    have entry := List.mem_zipIdx_iff_getElem?.mp member
    exact evaluateRule_visits R e.rules snap now _ progress ri rule (by simp [List.getD,entry])
  simp only [Engine.evaluate,visited,reap_sweep,Family.round]

theorem find_identity {procs : List ProcRate} (distinct : (procs.map identity).Nodup)
    (key : Int32 × UInt64) (p : ProcRate) :
    procs.find? (fun p => identity p = key) = some p ↔ p ∈ procs ∧ identity p = key := by
  constructor
  · intro found
    exact ⟨List.mem_of_find?_eq_some found,by simpa using List.find?_some found⟩
  · intro listed
    obtain ⟨member,same⟩ := listed
    have present : (procs.find? (fun p => identity p = key)).isSome := by
      rw [List.find?_isSome]
      exact ⟨p,member,by simpa using same⟩
    obtain ⟨q,found⟩ := Option.isSome_iff_exists.mp present
    have other : identity q = key := by simpa using List.find?_some found
    rw [found,List.inj_on_of_nodup_map distinct (List.mem_of_find?_eq_some found) member (other.trans same.symm)]

private theorem mem_ruleCalls (R : Rounding) {snap : Snapshot} (distinct : (snap.procs.map identity).Nodup)
    (ri : Nat) (rule : Rule) (id : SubjectId) (o : F64 × Str) :
    (id,o) ∈ ruleCalls R snap ri rule ↔ id.rule = ri ∧ reading R rule snap id.procKey = some o := by
  obtain ⟨index,subject⟩ := id
  unfold ruleCalls reading
  cases rule.target with
  | system =>
    cases subject with
    | some key => simp
    | none =>
      simp only [List.mem_map,Option.mem_toList,Option.map_eq_some_iff,Prod.mk.injEq,
        SubjectId.mk.injEq,and_true]
      refine ⟨?_,?_⟩
      · intro call
        obtain ⟨v,read,same,rfl⟩ := call
        exact ⟨same.symm,v,read,rfl⟩
      · intro call
        obtain ⟨same,v,read,rfl⟩ := call
        exact ⟨v,read,same.symm,rfl⟩
  | process pattern =>
    cases subject with
    | none => simp
    | some key =>
      simp only [List.mem_filterMap,Option.map_eq_some_iff,Prod.mk.injEq,SubjectId.mk.injEq,
        Option.some.injEq,Option.bind_eq_some_iff,find_identity distinct]
      refine ⟨?_,?_⟩
      · intro call
        obtain ⟨p,member,v,read,⟨same,equal⟩,rfl⟩ := call
        exact ⟨same.symm,p,⟨member,equal⟩,v,read,rfl⟩
      · intro call
        obtain ⟨same,p,⟨member,equal⟩,v,read,rfl⟩ := call
        exact ⟨p,member,v,read,⟨same.symm,equal⟩,rfl⟩

theorem mem_stepCalls (R : Rounding) (rules : List Rule) {snap : Snapshot}
    (distinct : (snap.procs.map identity).Nodup) (id : SubjectId) (o : F64 × Str) :
    (id,o) ∈ stepCalls R rules snap ↔
      ∃ rule, rules[id.rule]? = some rule ∧ reading R rule snap id.procKey = some o := by
  rw [stepCalls,List.mem_flatMap]
  refine ⟨?_,?_⟩
  · intro call
    obtain ⟨⟨rule,ri⟩,member,call⟩ := call
    obtain ⟨rfl,read⟩ := (mem_ruleCalls R distinct ri rule id o).mp call
    exact ⟨rule,List.mem_zipIdx_iff_getElem?.mp member,read⟩
  · intro call
    obtain ⟨rule,entry,read⟩ := call
    exact ⟨(rule,id.rule),List.mem_zipIdx_iff_getElem?.mpr entry,
      (mem_ruleCalls R distinct id.rule rule id o).mpr ⟨rfl,read⟩⟩

private theorem ruleCalls_distinct (R : Rounding) {snap : Snapshot}
    (distinct : (snap.procs.map identity).Nodup) (ri : Nat) (rule : Rule) :
    ((ruleCalls R snap ri rule).map Prod.fst).Nodup := by
  unfold ruleCalls
  cases rule.target with
  | system => cases systemValue R rule snap <;> simp
  | process pattern =>
    have keys : ((snap.procs.map identity).map (fun key => (⟨ri,some key⟩ : SubjectId))).Nodup :=
      distinct.map (fun _ _ equal => by simpa using equal)
    refine keys.sublist ?_
    clear distinct keys
    induction snap.procs with
    | nil => exact List.Sublist.refl _
    | cons p rest ih =>
      simp only [List.filterMap_cons,List.map_cons]
      cases procValue R rule p with
      | none => exact ih.cons _
      | some v => exact ih.cons_cons _

theorem stepCalls_distinct (R : Rounding) (rules : List Rule) {snap : Snapshot}
    (distinct : (snap.procs.map identity).Nodup) :
    ((stepCalls R rules snap).map Prod.fst).Nodup := by
  rw [stepCalls,List.map_flatMap,List.nodup_flatMap]
  refine ⟨fun entry _ => ruleCalls_distinct R distinct entry.2 entry.1,?_⟩
  have indices : (rules.zipIdx.map Prod.snd).Nodup := by
    rw [List.zipIdx_map_snd]
    exact List.nodup_range'
  apply (List.pairwise_map.mp indices).imp
  intro a b different id left right
  obtain ⟨x,inA,rfl⟩ := List.mem_map.mp left
  obtain ⟨y,inB,same⟩ := List.mem_map.mp right
  have first := ((mem_ruleCalls R distinct a.2 a.1 x.1 x.2).mp inA).1
  have second := ((mem_ruleCalls R distinct b.2 b.1 y.1 y.2).mp inB).1
  exact different (first.symm.trans ((congrArg SubjectId.rule same).symm.trans second))

theorem stepCalls_lookup (R : Rounding) (rules : List Rule) {snap : Snapshot}
    (distinct : (snap.procs.map identity).Nodup) (id : SubjectId) :
    (stepCalls R rules snap).lookup id =
      rules[id.rule]?.bind (fun rule => reading R rule snap id.procKey) := by
  apply Option.ext
  intro o
  rw [Option.bind_eq_some_iff,← mem_stepCalls R rules distinct]
  exact Family.lookup_eq_some (stepCalls_distinct R rules distinct) id o

end Vitals.EngineRound
