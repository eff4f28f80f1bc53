import Vitals.RuleFileGrammar
import Vitals.EngineDepartures
import Vitals.EngineLedger

/-! Whether an accepted rule can ever go off. The parser asks whether a metric can be
scoped to a process; it does not ask whether it can be read for the system. -/
namespace Vitals.RuleFileLiveness
open Kernel Semantics EngineRound EngineRefinement EngineDepartures Monitor

def processOnly : List Metric := [.rss,.readBps,.writeBps,.threads]

/-- A rule that is stepped wherever it is relevant, and fires when its breach has lasted. -/
structure Live (R : Rounding) (rule : Rule) : Prop where
  system : rule.target = .system → ∀ snap, ∃ v, (⟨0,none⟩,(v,"system".toList)) ∈ stepCalls R [rule] snap
  process : ∀ snap, ∀ p ∈ snap.procs, rule.target.isMatch p.comm = true → p.isNew = false →
    p.readBps.isSome → p.writeBps.isSome →
    ∃ v, (⟨0,some (identity p)⟩,(v,procLabel p)) ∈ stepCalls R [rule] snap
  fires : ∀ calls : Nat → Call, (∀ i, (calls i).now ≤ (calls (i+1)).now) → ∀ subject j k, j ≤ k →
    (∀ i, j ≤ i → i ≤ k → TripsAt (alarm rule) (observed R calls rule subject) i) →
    rule.sustain ≤ (calls k).now-(calls j).now →
    (∃ st, (engineAt R [rule] calls (k+1)).states.lookup ⟨0,subject⟩ = some st ∧ st.phase = .firing) ∧
      ∃ i, i ≤ k ∧ EngineLedger.OpensAt R [rule] calls 0 subject i

section
variable (R : Rounding) (rule : Rule)

private theorem stepCalls_single (snap : Snapshot) : stepCalls R [rule] snap = ruleCalls R snap 0 rule := by
  simp [stepCalls]

private theorem systemValue_isSome (snap : Snapshot) :
    (systemValue R rule snap).isSome ↔ rule.metric ∉ processOnly := by
  unfold systemValue
  cases rule.metric <;> simp [processOnly]

private theorem system_stepped (target : rule.target = .system) (snap : Snapshot) :
    (∃ v, (⟨0,none⟩,(v,"system".toList)) ∈ stepCalls R [rule] snap) ↔ rule.metric ∉ processOnly := by
  rw [stepCalls_single,ruleCalls,target,← systemValue_isSome R rule snap]
  dsimp only
  cases systemValue R rule snap <;> simp

private theorem process_stepped (applies : rule.metric.appliesToProcess = true) {snap : Snapshot} {p : ProcRate}
    (member : p ∈ snap.procs) (watched : Watched rule p) :
    ∃ v, (⟨0,some (identity p)⟩,(v,procLabel p)) ∈ stepCalls R [rule] snap := by
  obtain ⟨v,read⟩ := Option.isSome_iff_exists.mp ((procValue_isSome R rule p applies).mpr watched)
  refine ⟨v,?_⟩
  have comm := watched.comm
  cases target : rule.target with
  | system => simp [target,Target.isMatch] at comm
  | process pattern =>
    rw [stepCalls_single,ruleCalls,target]
    exact List.mem_filterMap.mpr ⟨p,member,by rw [read]; rfl⟩

private theorem fires_when_due (nested : (alarm rule).Nested) (calls : Nat → Call)
    (clock : ∀ i, (calls i).now ≤ (calls (i+1)).now) (subject : Subject) (j k : Nat) (ordered : j ≤ k)
    (trips : ∀ i, j ≤ i → i ≤ k → TripsAt (alarm rule) (observed R calls rule subject) i)
    (due : rule.sustain ≤ (calls k).now-(calls j).now) :
    (∃ st, (engineAt R [rule] calls (k+1)).states.lookup ⟨0,subject⟩ = some st ∧ st.phase = .firing) ∧
      ∃ i, i ≤ k ∧ EngineLedger.OpensAt R [rule] calls 0 subject i := by
  have on : (phaseOf R calls rule subject (k+1)).isFiring = true :=
    firing_when_due nested (fun _ _ => clock_monotone clock) ordered trips due
  refine ⟨(firing_entry R [rule] calls (k+1) 0 rule subject rfl).mpr on,?_⟩
  obtain ⟨i,v,l,held,before,fired⟩ := fired_before_firing on
  exact ⟨i,by omega,(EngineLedger.opensAt_iff R [rule] calls 0 rule subject i rfl).mpr ⟨_,fired,rfl⟩⟩

end

/-- Accepted rules are live, but for the system rules on a metric of processes. -/
theorem accepted_live_iff (R : Rounding) (text : Text.Str) (rule : Rule) (member : rule ∈ (parseRules R text).1) :
    Live R rule ↔ ¬ (rule.target = .system ∧ rule.metric ∈ processOnly) := by
  refine ⟨?_,?_⟩
  · intro live dead
    obtain ⟨target,metric⟩ := dead
    exact (system_stepped R rule target default).mp (live.system target default) metric
  · intro alive
    obtain ⟨t,accepts⟩ := RuleFile.accepts_of_mem R member
    refine ⟨?_,?_,fires_when_due R rule (RuleFile.nested_of_mem R member)⟩
    · intro target snap
      exact (system_stepped R rule target snap).mpr (fun metric => alive ⟨target,metric⟩)
    · intro snap p inside comm old reads writes
      -- a target that matches a name is a process target
      have process : rule.target.isProcess = true := by
        cases target : rule.target with
        | system => simp [target,Target.isMatch] at comm
        | process pattern => rfl
      exact process_stepped R rule (accepts.applies process) inside ⟨comm,old,fun _ => reads,fun _ => writes⟩

theorem accepted_live_hot : Live .exact RuleFileGrammar.hotRule :=
  (accepted_live_iff .exact RuleFileGrammar.hotLine _ (by decide +kernel)).mpr (by decide)

def leakLine : Text.Str := "alert leak system rss > 500MB for 30s".toList

def leakRule : Rule := ⟨"leak".toList,.system,.rss,.gt,.fin (500*2^20),30*10^9,.fin (500*2^20),false,false⟩

theorem leak_rule_dead : leakRule ∈ (parseRules .exact leakLine).1 ∧ ¬ Live .exact leakRule := by
  refine ⟨by decide +kernel,?_⟩
  intro live
  exact (system_stepped .exact leakRule rfl default).mp (live.system rfl default) (by decide)

end Vitals.RuleFileLiveness
