import Vitals.EngineRefinement

/-! When a firing alert is reported gone. The engine tells an exited process from a live
one by whether a value was read for it, so every reason to skip a live process counts
as its exit. -/
namespace Vitals.EngineDepartures
open Kernel Semantics EngineRound EngineRefinement

/-- Nothing on the way to `step` skips the process. -/
structure Watched (rule : Rule) (p : ProcRate) : Prop where
  comm : rule.target.isMatch p.comm = true
  old : p.isNew = false
  readBps : rule.metric = .readBps → p.readBps.isSome
  writeBps : rule.metric = .writeBps → p.writeBps.isSome

theorem procValue_isSome (R : Rounding) (rule : Rule) (p : ProcRate)
    (applies : rule.metric.appliesToProcess = true) :
    (procValue R rule p).isSome ↔ Watched rule p := by
  unfold procValue
  constructor
  · intro read
    split_ifs at read with other fresh
    · cases read
    · cases read
    · refine ⟨by simpa using other,by simpa using fresh,?_,?_⟩
      · intro metric
        simpa only [metric] using read
      · intro metric
        simpa only [metric] using read
  · intro watched
    rw [if_neg (by simp [watched.comm]),if_neg (by simp [watched.old])]
    cases metric : rule.metric with
    | readBps => exact watched.readBps metric
    | writeBps => exact watched.writeBps metric
    | cpuPct | rss | threads => rfl
    | memPct | netRxBps | netTxBps | procCount => simp [metric,Metric.appliesToProcess] at applies

private theorem applies_of_procValue {R : Rounding} {rule : Rule} {p : ProcRate} {v : F64}
    (read : procValue R rule p = some v) : rule.metric.appliesToProcess = true := by
  unfold procValue at read
  split_ifs at read
  cases metric : rule.metric <;> simp_all [Metric.appliesToProcess]

section
variable (R : Rounding) (rules : List Rule) (calls : Nat → Call)

/-- The alert of a rule for one process is on before call `k`. -/
def Firing (r : Nat) (key : Int32 × UInt64) (k : Nat) : Prop :=
  ∃ st, (engineAt R rules calls k).states.lookup ⟨r,some key⟩ = some st ∧ st.phase = .firing

def ReportsGone (r : Nat) (key : Int32 × UInt64) (k : Nat) : Prop :=
  ∃ e ∈ Family.emitted ⟨r,some key⟩ (emittedAt R rules calls k), e.kind = .clearedGone

def Present (key : Int32 × UInt64) (k : Nat) : Prop := ∃ p ∈ (calls k).snap.procs, identity p = key

variable {R rules calls}

private theorem read_before_firing {r k : Nat} {rule : Rule} {key : Int32 × UInt64} (indexed : rules[r]? = some rule)
    (firing : Firing R rules calls r key k) :
    rule.target.isProcess = true ∧ rule.metric.appliesToProcess = true := by
  have on := (firing_entry R rules calls k r rule (some key) indexed).mp firing
  -- the call that raised the alert has read a value for the process
  obtain ⟨i,v,l,held,_,fired⟩ := Monitor.fired_before_firing on
  obtain ⟨seen,_⟩ := Monitor.signal_of_fired fired
  simp only [observed,reading] at seen
  cases target : rule.target with
  | system => simp [target] at seen
  | process pattern =>
    simp only [target] at seen
    obtain ⟨p,_,seen⟩ := Option.bind_eq_some_iff.mp seen
    obtain ⟨_,read,_⟩ := Option.map_eq_some_iff.mp seen
    exact ⟨rfl,applies_of_procValue read⟩

private theorem reportsGone_iff {r k : Nat} {rule : Rule} {key : Int32 × UInt64} (indexed : rules[r]? = some rule)
    (firing : Firing R rules calls r key k) :
    ReportsGone R rules calls r key k ↔ reading R rule (calls k).snap (some key) = none := by
  have on := (firing_entry R rules calls k r rule (some key) indexed).mp firing
  simp only [ReportsGone,mem_emitted R rules calls k r rule (some key) indexed]
  cases before : phaseOf R calls rule (some key) k with
  | inactive => simp [before,Monitor.Phase.isFiring] at on
  | pending since label => simp [before,Monitor.Phase.isFiring] at on
  | firing since label =>
    have signal : signalOf R calls rule (some key) k =
        ((alarm rule).next (observed R calls rule (some key) k) (.firing since label)).2 := by
      rw [← before]
      rfl
    rw [signal]
    cases read : reading R rule (calls k).snap (some key) with
    | none => simp [Monitor.next,observed,read,report]
    | some o =>
      obtain ⟨v,l⟩ := o
      cases still : stillActive rule v <;> simp [Monitor.next,observed,read,still,report]

private theorem reading_process {rule : Rule} (process : rule.target.isProcess = true) (k : Nat)
    (key : Int32 × UInt64) : reading R rule (calls k).snap (some key) = none ↔
      ∀ p ∈ (calls k).snap.procs, identity p = key → procValue R rule p = none := by
  cases target : rule.target with
  | system => simp [target,Target.isProcess] at process
  | process pattern =>
    simp only [reading,target]
    cases found : (calls k).snap.procs.find? (fun p => identity p = key) with
    | none =>
      have absent := List.find?_eq_none.mp found
      simp only [decide_eq_true_eq] at absent
      exact ⟨fun _ p member same => absurd same (absent p member),fun _ => rfl⟩
    | some p =>
      obtain ⟨member,same⟩ := (find_identity (calls k).distinct key p).mp found
      rw [Option.bind_some,Option.map_eq_none_iff]
      refine ⟨?_,?_⟩
      · intro skipped q inside other
        rwa [List.inj_on_of_nodup_map (calls k).distinct inside member (other.trans same.symm)]
      · exact fun skipped => skipped p member same

private theorem reported_once {r k : Nat} {rule : Rule} {key : Int32 × UInt64} (indexed : rules[r]? = some rule)
    (firing : Firing R rules calls r key k) (left : ¬ Present calls key k) :
    ∃ e, Family.emitted ⟨r,some key⟩ (emittedAt R rules calls k) = [e] ∧ e.kind = .clearedGone := by
  obtain ⟨process,_⟩ := read_before_firing indexed firing
  have silent : reading R rule (calls k).snap (some key) = none :=
    (reading_process process k key).mpr (fun p member same => absurd ⟨p,member,same⟩ left)
  obtain ⟨e,listed,gone⟩ := (reportsGone_iff indexed firing).mpr silent
  refine ⟨e,?_,gone⟩
  rw [events_refine] at listed ⊢
  generalize (rules[(⟨r,some key⟩ : SubjectId).rule]?.bind _) = one at listed ⊢
  cases one with
  | none => cases listed
  | some other => rw [List.mem_singleton.mp listed,Option.toList_some]

private theorem gone_iff_left {r k : Nat} {rule : Rule} {key : Int32 × UInt64} (indexed : rules[r]? = some rule)
    (firing : Firing R rules calls r key k) :
    (ReportsGone R rules calls r key k ↔ ¬ Present calls key k) ↔
      ∀ p ∈ (calls k).snap.procs, identity p = key → Watched rule p := by
  obtain ⟨process,applies⟩ := read_before_firing indexed firing
  rw [reportsGone_iff indexed firing,reading_process process]
  refine ⟨?_,?_⟩
  · intro exact p member same
    rw [← procValue_isSome R rule p applies,Option.isSome_iff_ne_none]
    intro skipped
    have every : ∀ q ∈ (calls k).snap.procs, identity q = key → procValue R rule q = none := by
      intro q inside other
      rwa [List.inj_on_of_nodup_map (calls k).distinct inside member (other.trans same.symm)]
    exact exact.mp every ⟨p,member,same⟩
  · intro watched
    refine ⟨?_,?_⟩
    · intro skipped present
      obtain ⟨p,member,same⟩ := present
      have read := (procValue_isSome R rule p applies).mpr (watched p member same)
      rw [skipped p member same] at read
      cases read
    · exact fun left p member same => absurd ⟨p,member,same⟩ left

end

/-- A call tells every exited process from every live one exactly when it skips no
process that is firing: none renamed, none new, none with an unreadable rate. -/
theorem departures_exact (R : Rounding) (rules : List Rule) (calls : Nat → Call) (k : Nat) :
    (∀ r rule key, rules[r]? = some rule → Firing R rules calls r key k →
      (ReportsGone R rules calls r key k ↔ ¬ Present calls key k) ∧
        (¬ Present calls key k →
          ∃ e, Family.emitted ⟨r,some key⟩ (emittedAt R rules calls k) = [e] ∧ e.kind = .clearedGone)) ↔
    ∀ r rule key, rules[r]? = some rule → Firing R rules calls r key k →
      ∀ p ∈ (calls k).snap.procs, identity p = key → Watched rule p := by
  refine ⟨?_,?_⟩
  · intro exact r rule key indexed firing
    exact (gone_iff_left indexed firing).mp (exact r rule key indexed firing).1
  · intro watched r rule key indexed firing
    exact ⟨(gone_iff_left indexed firing).mpr (watched r rule key indexed firing),
      reported_once indexed firing⟩

def cpuHog : Rule := ⟨"cpu_hog".toList,.process "worker".toList,.cpuPct,.gt,.fin 50,0,.fin 50,false,false⟩

def execCalls (k : Nat) : Call :=
  ⟨⟨default,[{(default : ProcRate) with
      key := ⟨7,100⟩
      pid := 7
      comm := if k = 0 then "worker".toList else "renamed".toList
      cpuPct := .fin 90}]⟩,k,.stored _,List.nodup_singleton _⟩

theorem renamed_reported_gone : Firing .exact [cpuHog] execCalls 0 (7,100) 1 ∧
    ¬ (ReportsGone .exact [cpuHog] execCalls 0 (7,100) 1 ↔ ¬ Present execCalls (7,100) 1) := by
  have entry : (engineAt .exact [cpuHog] execCalls 1).states.lookup ⟨0,some (7,100)⟩ =
      some ⟨.firing,0,1,"worker (pid 7)".toList⟩ := by decide +kernel
  have gone : ReportsGone .exact [cpuHog] execCalls 0 (7,100) 1 := by
    unfold ReportsGone
    decide +kernel
  exact ⟨⟨_,entry,rfl⟩,fun exact => exact.mp gone ⟨_,List.mem_singleton_self _,rfl⟩⟩

end Vitals.EngineDepartures
