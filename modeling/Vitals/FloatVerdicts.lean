import Vitals.FloatRates
import Vitals.RunTotals

/-! What the roundings mean for the alerts: nothing, unless an exact reading comes so close to a
bound of its rule that its error reaches the bound. -/
namespace Vitals.FloatVerdicts
open Kernel Semantics Monitor EngineRound EngineRefinement EngineLedger DeltaRates FloatRates SamplerRun

/-- The exact reading is further from the bound than its float can be. -/
def Decisive (bound exact : F64) : Prop :=
  ∀ t q, bound = .fin t → exact = .fin q → q = 0 ∨ 7/2^51*|q| < |q-t|

section
variable {bound x y : F64} (near : Near 7 x y) (decisive : Decisive bound y)
include near decisive

private theorem compares_near : (bound < x ↔ bound < y) ∧ (x < bound ↔ y < bound) := by
  obtain ⟨p,q,rfl,rfl,error⟩ := near
  cases bound with
  | nan => exact ⟨Iff.rfl,Iff.rfl⟩
  | negInf => exact ⟨Iff.rfl,Iff.rfl⟩
  | posInf => exact ⟨Iff.rfl,Iff.rfl⟩
  | fin t =>
    simp only [F64.fin_lt_fin]
    rcases decisive t q rfl rfl with rfl | apart
    · have same : p = 0 := by simpa using error
      rw [same]
      exact ⟨Iff.rfl,Iff.rfl⟩
    · have close : |p-q| < |q-t| := lt_of_le_of_lt (by exact_mod_cast error) apart
      rcases abs_lt.mp close with ⟨low,high⟩
      rcases le_total t q with above | below
      · rw [abs_of_nonneg (sub_nonneg.mpr above)] at low high
        exact ⟨⟨fun _ => by linarith,fun _ => by linarith⟩,⟨fun _ => by linarith,fun _ => by linarith⟩⟩
      · rw [abs_of_nonpos (sub_nonpos.mpr below)] at low high
        exact ⟨⟨fun _ => by linarith,fun _ => by linarith⟩,⟨fun _ => by linarith,fun _ => by linarith⟩⟩

end

private theorem breaching_near {rule : Rule} {x y : F64} (near : Near 7 x y) (decisive : Decisive rule.threshold y) :
    breaching rule x = breaching rule y := by
  unfold breaching
  cases rule.op with
  | gt => exact decide_eq_decide.mpr (compares_near near decisive).1
  | lt => exact decide_eq_decide.mpr (compares_near near decisive).2

private theorem stillActive_near {rule : Rule} {x y : F64} (near : Near 7 x y) (decisive : Decisive rule.clear y) :
    stillActive rule x = stillActive rule y := by
  unfold stillActive
  cases rule.op with
  | gt => exact decide_eq_decide.mpr (compares_near near decisive).1
  | lt => exact decide_eq_decide.mpr (compares_near near decisive).2

/-- There are fewer processes than identities. -/
theorem entries_bounded (table : Table ProcKey ProcSample) : table.entries.length ≤ 2^96 := by
  let code (key : ProcKey) : Nat := key.pid.toUInt32.toNat*2^64+key.starttime.toNat
  have inside : table.keys.map code ⊆ List.range (2^96) := by
    intro n listed
    obtain ⟨key,_,rfl⟩ := List.mem_map.mp listed
    have pid := key.pid.toUInt32.toNat_lt
    have starttime := key.starttime.toNat_lt
    rw [List.mem_range]
    dsimp only [code]
    omega
  have distinct : (table.keys.map code).Nodup := by
    refine table.keys_nodup.map ?_
    intro a b same
    dsimp only [code] at same
    have first := a.starttime.toNat_lt
    have second := b.starttime.toNat_lt
    have pid : a.pid.toUInt32.toNat = b.pid.toUInt32.toNat := by omega
    have starttime : a.starttime.toNat = b.starttime.toNat := by omega
    obtain ⟨⟨bits⟩,started⟩ := a
    obtain ⟨⟨bits'⟩,started'⟩ := b
    obtain rfl : bits = bits' := UInt32.toNat_inj.mp pid
    obtain rfl : started = started' := UInt64.toNat_inj.mp starttime
    rfl
  have few := (List.subperm_of_subset distinct inside).length_le
  rw [List.length_map,List.length_range] at few
  rwa [AList.keys,List.keys,List.length_map] at few

section
variable {shown exact : Snapshot}

structure NearSnapshot (shown exact : Snapshot) : Prop where
  system : NearSystem shown.system exact.system
  bounded : exact.system.procCount ≤ 2^96
  found : ∀ key, Option.Rel NearProc (shown.procs.find? (fun p => identity p = key))
    (exact.procs.find? (fun p => identity p = key))

private theorem systemValue_near (rule : Rule) (near : NearSnapshot shown exact) :
    Option.Rel (Near 7) (systemValue .binary64 rule shown) (systemValue .exact rule exact) := by
  have mem : shown.system.mem = exact.system.mem := (congrArg SystemRate.mem near.system.rest :)
  have count : shown.system.procCount = exact.system.procCount := (congrArg SystemRate.procCount near.system.rest :)
  unfold systemValue
  cases rule.metric with
  | cpuPct => exact .some (near.system.cpuPct.mono (by omega))
  | memPct =>
    rw [mem]
    exact .some ((usedPct_near _).mono (by omega))
  | netRxBps => exact .some (near.system.netRxBps.mono (by omega))
  | netTxBps => exact .some (near.system.netTxBps.mono (by omega))
  | procCount =>
    rw [count]
    exact .some ((Near.ofNat near.bounded (by omega)).mono (by omega))
  | rss => exact .none
  | readBps => exact .none
  | writeBps => exact .none
  | threads => exact .none

private theorem procValue_near (rule : Rule) {p q : ProcRate} (near : NearProc p q) :
    Option.Rel (Near 7) (procValue .binary64 rule p) (procValue .exact rule q) := by
  have comm : p.comm = q.comm := (congrArg ProcRate.comm near.rest :)
  have isNew : p.isNew = q.isNew := (congrArg ProcRate.isNew near.rest :)
  have rss : p.rssBytes = q.rssBytes := (congrArg ProcRate.rssBytes near.rest :)
  have threads : p.threads = q.threads := (congrArg ProcRate.threads near.rest :)
  have wider {a b : Option F64} (rates : Option.Rel (Near 4) a b) : Option.Rel (Near 7) a b := by
    cases rates with
    | none => exact .none
    | some rate => exact .some (rate.mono (by omega))
  unfold procValue
  rw [comm,isNew,rss,threads]
  split_ifs
  · exact .none
  · exact .none
  · cases rule.metric with
    | cpuPct => exact .some near.cpuPct
    | rss => exact .some ((Near.ofNat q.rssBytes.toNat_lt.le (by omega)).mono (by omega))
    | readBps => exact wider near.readBps
    | writeBps => exact wider near.writeBps
    | threads =>
      have low := q.threads.le_toInt
      have high := q.threads.toInt_lt
      have size : q.threads.toInt.natAbs ≤ 2^63 := by omega
      exact .some ((Near.ofInt size (by omega)).mono (by omega))
    | memPct => exact .none
    | netRxBps => exact .none
    | netTxBps => exact .none
    | procCount => exact .none

private theorem reading_near (rule : Rule) (near : NearSnapshot shown exact) (subject : Subject) :
    Option.Rel (fun a b => Near 7 a.1 b.1 ∧ a.2 = b.2) (reading .binary64 rule shown subject)
      (reading .exact rule exact subject) := by
  cases subject with
  | none =>
    unfold reading
    cases rule.target with
    | process pattern => exact .none
    | system =>
      have value := systemValue_near rule near
      dsimp only
      generalize systemValue .binary64 rule shown = v at value ⊢
      generalize systemValue .exact rule exact = w at value ⊢
      cases value with
      | none => exact .none
      | some value => exact .some ⟨value,rfl⟩
  | some key =>
    unfold reading
    cases rule.target with
    | system => exact .none
    | process pattern =>
      have found := near.found key
      dsimp only
      generalize shown.procs.find? (fun p => identity p = key) = first at found ⊢
      generalize exact.procs.find? (fun p => identity p = key) = second at found ⊢
      cases found with
      | none => exact .none
      | @some p q proc =>
        have value := procValue_near rule proc
        have comm : p.comm = q.comm := (congrArg ProcRate.comm proc.rest :)
        have pid : p.pid = q.pid := (congrArg ProcRate.pid proc.rest :)
        have label : procLabel p = procLabel q := by rw [procLabel,procLabel,comm,pid]
        rw [Option.bind_some,Option.bind_some,label]
        generalize procValue .binary64 rule p = v at value ⊢
        generalize procValue .exact rule q = w at value ⊢
        cases value with
        | none => exact .none
        | some value => exact .some ⟨value,rfl⟩

end

private theorem nearSnapshot_diff (sys : SysConst) (order order' : Iteration (Σ _ : ProcKey, ProcSample))
    {prev cur : Sample} (short : cur.instant-prev.instant < 2^64*10^9) :
    NearSnapshot (diff .binary64 sys order prev cur) (diff .exact sys order' prev cur) where
  system := near_system short
  bounded := entries_bounded cur.procs
  found := by
    intro key
    have keys := (diff_keys .binary64 sys order prev cur).trans (diff_keys .exact sys order' prev cur).symm
    have distinct := RuleRates.diff_identities .binary64 sys order prev cur
    have distinct' := RuleRates.diff_identities .exact sys order' prev cur
    cases first : (diff .binary64 sys order prev cur).procs.find? (fun p => identity p = key) with
    | some p =>
      obtain ⟨member,about⟩ := (find_identity distinct key p).mp first
      obtain ⟨q,member',same⟩ := List.mem_map.mp (keys.mem_iff.mp (List.mem_map_of_mem member))
      have about' : identity q = key := by rw [identity,same]; exact about
      rw [(find_identity distinct' key q).mpr ⟨member',about'⟩]
      exact .some (near_diff sys order order' short member member' same.symm)
    | none =>
      cases second : (diff .exact sys order' prev cur).procs.find? (fun p => identity p = key) with
      | none => exact .none
      | some q =>
        obtain ⟨member',about'⟩ := (find_identity distinct' key q).mp second
        obtain ⟨p,member,same⟩ := List.mem_map.mp (keys.mem_iff.mpr (List.mem_map_of_mem member'))
        have about : identity p = key := by rw [identity,same]; exact about'
        rw [(find_identity distinct key p).mpr ⟨member,about⟩] at first
        cases first

section
variable {sys : SysConst} {cycles : List Cycle}

/-- An event as it is told, beside the same event in exact arithmetic. -/
structure NearEvent (told exact : Event) : Prop where
  value : Near 7 told.value exact.value
  rest : {told with value := .nan} = {exact with value := .nan}

private theorem report_near (rule : Rule) {told exact : Signal F64 Text.Str}
    (like : Signal.Like (Near 7) told exact) :
    NearEvent (report rule told) (report rule exact) := by
  cases like with
  | fired label held near => exact ⟨near,rfl⟩
  | cleared label held near => exact ⟨near,rfl⟩
  | gone label held => exact ⟨.zero 7,rfl⟩

private theorem asRun_callsOf (R : Rounding) {i : Nat} {step : (Cycle × Sample) × (Cycle × Sample)}
    (listed : (consecutive cycles)[i]? = some step) : asRun (callsOf R sys cycles) i = callOf R sys step := by
  rw [asRun,callsOf,List.getD_eq_getElem?_getD,List.getElem?_map,listed]
  rfl

private theorem engine_tick (R : Rounding) (rules : List Rule) (calls : Nat → Call) (k : Nat) :
    (engineAt R rules calls k).tick = UInt64.ofNat k := by
  induction k with
  | zero => rfl
  | succ k ih =>
    rw [engineAt,evaluate_round,ih]
    exact (UInt64.ofNat_add k 1).symm

/-- In every run, whatever scans fail in it, the engine that computes with floats holds the same
alerts and tells the same events as one that computes exactly, provided every exact reading is
decisive. -/
theorem verdicts_exact (rules : List Rule)
    (short : ∀ step ∈ consecutive cycles, step.2.2.instant-step.1.2.instant < 2^64*10^9)
    (decisive : ∀ step ∈ consecutive cycles, ∀ rule ∈ rules, ∀ subject v l,
      reading .exact rule (compared .exact sys step) subject = some (v,l) →
        Decisive rule.threshold v ∧ Decisive rule.clear v) :
    (∀ id, (engineAfter .binary64 rules (callsOf .binary64 sys cycles)).states.lookup id =
      (engineAfter .exact rules (callsOf .exact sys cycles)).states.lookup id) ∧
    ∀ id, List.Forall₂ NearEvent (Family.emitted id (emittedAfter .binary64 rules (callsOf .binary64 sys cycles)))
      (Family.emitted id (emittedAfter .exact rules (callsOf .exact sys cycles))) := by
  have length (R : Rounding) : (callsOf R sys cycles).length = (consecutive cycles).length := List.length_map _
  have alike (id : SubjectId) (rule : Rule) (indexed : rules[id.rule]? = some rule) (i : Nat)
      (inside : i < (consecutive cycles).length) :
      Alike (alarm rule) (Near 7) (observed .binary64 (asRun (callsOf .binary64 sys cycles)) rule id.procKey i)
        (observed .exact (asRun (callsOf .exact sys cycles)) rule id.procKey i) := by
    have listed : (consecutive cycles)[i]? = some (consecutive cycles)[i] := List.getElem?_eq_getElem inside
    have member := List.getElem_mem inside
    generalize (consecutive cycles)[i] = step at listed member
    have near := reading_near rule (nearSnapshot_diff sys step.2.1.procOrder step.2.1.procOrder (short step member)) id.procKey
    have apart := decisive step member rule (List.mem_of_getElem? indexed) id.procKey
    rw [observed,observed,asRun_callsOf .binary64 listed,asRun_callsOf .exact listed]
    refine ⟨rfl,?_⟩
    change Option.Rel _ (reading .binary64 rule (diff .binary64 sys _ _ _) _) (reading .exact rule (diff .exact sys _ _ _) _)
    change ∀ v l, reading .exact rule (diff .exact sys _ _ _) _ = some (v,l) → _ at apart
    generalize reading .binary64 rule (diff .binary64 sys _ _ _) _ = told at near ⊢
    generalize reading .exact rule (diff .exact sys _ _ _) _ = exact at near apart ⊢
    cases near with
    | none => exact .none
    | @some a b related =>
      obtain ⟨threshold,clear⟩ := apart b.1 b.2 rfl
      exact .some ⟨related.1,related.2,breaching_near related.1 threshold,stillActive_near related.1 clear⟩
  refine ⟨?_,?_⟩
  · intro id
    rw [engineAfter,engineAfter,entry_refines,entry_refines,engine_tick,engine_tick,length,length]
    cases indexed : rules[id.rule]? with
    | none => rfl
    | some rule =>
      have phases := phaseAt_alike _ (alike id rule indexed)
      rw [Option.bind_some,Option.bind_some,phaseOf,phaseOf,phases]
  · intro id
    rw [emittedAfter,emittedAfter,history_refines,history_refines,length,length]
    cases indexed : rules[id.rule]? with
    | none => exact .nil
    | some rule =>
      have told := history_alike _ (alike id rule indexed)
      rw [Option.map_some,Option.map_some,Option.getD_some,Option.getD_some,List.forall₂_map_left_iff,
        List.forall₂_map_right_iff]
      exact told.imp (fun _ _ like => report_near rule like)

end
def few : Rule := ⟨"few".toList,.system,.procCount,.lt,.fin 5,0,.fin 8,false,false⟩

def halted : List Cycle :=
  [RunTotals.scanOf (.ok (oneProcess 0 10 none)),RunTotals.scanOf (.error ⟨.notFound,some 2⟩),
   RunTotals.scanOf (.ok (oneProcess (3*10^9) 110 none))]

theorem verdicts_exact_few : List.Forall₂ NearEvent
    (Family.emitted ⟨0,none⟩ (emittedAfter .binary64 [few] (callsOf .binary64 (sysConst none none) halted)))
    (Family.emitted ⟨0,none⟩ (emittedAfter .exact [few] (callsOf .exact (sysConst none none) halted))) := by
  have steps : consecutive halted = [((RunTotals.scanOf (.ok (oneProcess 0 10 none)),oneProcess 0 10 none),
      (RunTotals.scanOf (.ok (oneProcess (3*10^9) 110 none)),oneProcess (3*10^9) 110 none))] := rfl
  refine (verdicts_exact [few] ?_ ?_).2 ⟨0,none⟩
  · intro step member
    rw [steps,List.mem_singleton] at member
    subst member
    decide
  · intro step member rule listed subject v l read
    rw [steps,List.mem_singleton] at member
    rw [List.mem_singleton] at listed
    subst member listed
    cases subject with
    | some key => cases read
    | none =>
      have value : v = .fin 1 := (congrArg Prod.fst (Option.some.inj read)).symm
      subst value
      refine ⟨?_,?_⟩
      · intro t q bound exact
        cases bound
        cases exact
        norm_num
      · intro t q bound exact
        cases bound
        cases exact
        norm_num

end Vitals.FloatVerdicts
