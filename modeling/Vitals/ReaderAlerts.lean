import Vitals.ThreadTiming
import Vitals.SamplerRun
import Vitals.RuleFile

/-! The alerts a reader finds in the shared state, whatever has happened in between: each has
been earned by a breach that lasted long enough and still stands in the snapshot read with it,
and no such breach is missing. -/
namespace Vitals.ReaderAlerts
open Kernel Library Semantics ThreadPublication SamplerRun

section
variable (R : Rounding) (calls : List Call) (rule : Rule) (subject : Subject)

def TripsAt (n : Nat) : Prop := Monitor.TripsAt (alarm rule) (observed R (asRun calls) rule subject) n

def HoldsAt (n : Nat) : Prop := Monitor.HoldsAt (alarm rule) (observed R (asRun calls) rule subject) n

/-- What entitles an alert to be shown at some instant: a streak of breaches from call `j` to call
`i` as long as the rule's sustain, and from then on in every call a value on the active side. -/
structure Earned (alert : Text.Str × Text.Str × Nat) (j i shown : Nat) : Prop where
  name : rule.name = alert.1
  ordered : j ≤ i ∧ i < calls.length
  trips : ∀ n, j ≤ n → n ≤ i → TripsAt R calls rule subject n
  due : rule.sustain ≤ (asRun calls i).now-(asRun calls j).now
  holds : ∀ n, i ≤ n → n < calls.length → HoldsAt R calls rule subject n
  label : ∃ v, (calls.getLast?.bind (fun c => reading R rule c.snap subject)) = some (v,alert.2.1)
  lasted : (asRun calls i).now + alert.2.2 = shown

end

section
variable (e : Engine) (order : Iteration (Σ _ : SubjectId, State)) (clock : SubjectId → Nat)

private theorem mem_active (row : Text.Str × Text.Str × Nat × Nat) :
    row ∈ e.active order clock ↔ ∃ id st, e.states.lookup id = some st ∧ st.phase = .firing ∧
      row = ((e.rules.getD id.rule default).name,st.label,clock id-st.since,st.since) := by
  have listed : row ∈ e.active order clock ↔
      some row ∈ (EngineLedger.activeIds e order).map (EngineLedger.activeRow e clock) := by
    rw [← (EngineLedger.active_rows e order clock).mem_iff,List.mem_map]
    simp
  rw [listed,List.mem_map]
  refine ⟨?_,?_⟩
  · intro member
    obtain ⟨id,active,shown⟩ := member
    obtain ⟨st,found,firing⟩ := (EngineLedger.mem_activeIds e order id).mp active
    rw [EngineLedger.activeRow,found,Option.map_some] at shown
    exact ⟨id,st,found,firing,(Option.some.inj shown).symm⟩
  · intro entry
    obtain ⟨id,st,found,firing,rfl⟩ := entry
    refine ⟨id,(EngineLedger.mem_activeIds e order id).mpr ⟨st,found,firing⟩,?_⟩
    rw [EngineLedger.activeRow,found,Option.map_some]

private theorem active_sorted : (e.active order clock).Pairwise (fun a b => b.2.2.1 ≤ a.2.2.1) := by
  let longer (a b : Text.Str × Text.Str × Nat × Nat) : Bool := b.2.2.1 ≤ a.2.2.1
  have trans : ∀ a b c, longer a b = true → longer b c = true → longer a c = true := by
    intro a b c first second
    simp only [longer,decide_eq_true_eq] at first second ⊢
    exact second.trans first
  have total : ∀ a b, (longer a b || longer b a) = true := by
    intro a b
    simp only [longer,Bool.or_eq_true,decide_eq_true_eq]
    exact Nat.le_total _ _
  have sorted := List.pairwise_mergeSort trans total
    (((order.visit e.states.entries).filter (fun s => s.2.phase == .firing)).map (fun s =>
      ((e.rules.getD s.1.rule default).name,s.2.label,clock s.1-s.2.since,s.2.since)))
  exact sorted.imp (fun holds => of_decide_eq_true holds)

end

section
variable (R : Rounding) (text : Text.Str) (calls : List Call)

/-- The start of a firing entry is the instant of a call, with the history that led to it. -/
theorem entry_earned {id : SubjectId} {st : State} {shown : Nat}
    (found : (engineAfter R (parseRules R text).1 calls).states.lookup id = some st)
    (firing : st.phase = .firing) (clock : ∀ call ∈ calls, call.now ≤ shown) :
    ∃ rule, (parseRules R text).1[id.rule]? = some rule ∧ ∃ j i,
      Earned R calls rule id.procKey (rule.name,st.label,shown-st.since) j i shown := by
  cases count : calls.length with
  | zero =>
    rw [engineAfter,count] at found
    cases found.symm.trans (AList.lookup_empty id)
  | succ k =>
    rw [engineAfter,count] at found
    obtain ⟨rule,v,indexed,seen⟩ := EngineProduct.entry_reading found
    rw [EngineRefinement.entry_refines,indexed,Option.bind_some] at found
    have nested := RuleFile.nested_of_mem R (List.mem_of_getElem? indexed)
    have final : calls.getLast? = some (asRun calls k) := by
      rw [asRun,List.getLast?_eq_getElem?,count,Nat.add_sub_cancel,List.getD_eq_getElem?_getD,
        List.getElem?_eq_getElem (by omega),Option.getD_some]
    cases at_ : phaseOf R (asRun calls) rule id.procKey (k+1) with
    | inactive =>
      rw [at_] at found
      cases found
    | pending since label =>
      rw [at_] at found
      cases found
      cases firing
    | firing since label =>
      rw [at_] at found
      cases found
      obtain ⟨i,j,before,inside,start,trips,due,holds⟩ := Monitor.firing_started nested k since label at_
      have past : (asRun calls i).now ≤ shown := by
        have listed : i < calls.length := by omega
        rw [asRun,List.getD_eq_getElem?_getD,List.getElem?_eq_getElem listed,Option.getD_some]
        exact clock _ (List.getElem_mem listed)
      refine ⟨rule,indexed,j,i,rfl,⟨before,by omega⟩,trips,due,?_,⟨v,?_⟩,?_⟩
      · intro n low high
        exact holds n low (by omega)
      · rw [final,Option.bind_some]
        exact seen
      · rw [start]
        exact Nat.add_sub_cancel' past

/-- A breach that has lasted since call `j` has an entry that fires. -/
theorem breach_entry (ordered : (calls.map Call.now).Pairwise (· ≤ ·)) {r : Nat} {rule : Rule}
    (indexed : (parseRules R text).1[r]? = some rule) {subject : Subject} {j : Nat} (inside : j < calls.length)
    (trips : ∀ n, j ≤ n → n < calls.length → TripsAt R calls rule subject n)
    (due : rule.sustain ≤ (asRun calls (calls.length-1)).now-(asRun calls j).now) :
    ∃ st, (engineAfter R (parseRules R text).1 calls).states.lookup ⟨r,subject⟩ = some st ∧ st.phase = .firing := by
  have nested := RuleFile.nested_of_mem R (List.mem_of_getElem? indexed)
  obtain ⟨k,count⟩ : ∃ k, calls.length = k+1 := ⟨calls.length-1,by omega⟩
  have clock : ∀ i, i ≤ j → (asRun calls i).now ≤ (asRun calls j).now := by
    intro i earlier
    rcases Nat.lt_or_eq_of_le earlier with before | rfl
    · have inOrder := List.pairwise_iff_getElem.mp ordered i j (by simp; omega) (by simpa using inside) before
      simpa [asRun,List.getD_eq_getElem?_getD,List.getElem?_eq_getElem inside,
        List.getElem?_eq_getElem (earlier.trans_lt inside)] using inOrder
    · exact Nat.le_refl _
  rw [engineAfter,EngineRefinement.firing_entry R _ _ _ r rule subject indexed,count]
  refine Monitor.firing_by nested clock (show j ≤ k by omega) ?_ ?_
  · intro i low high
    exact trips i low (by omega)
  · rw [count,Nat.add_sub_cancel] at due
    exact due

variable (order : Iteration (Σ _ : SubjectId, State)) (clock : SubjectId → Nat)

/-- The alerts as the sampler hands them over. -/
def listedAlerts : List (Text.Str × Text.Str × Nat) :=
  ((engineAfter R (parseRules R text).1 calls).active order clock).map (fun a => (a.1,a.2.1,a.2.2.1))

private theorem rule_of_index {r : Nat} {rule : Rule} (indexed : (parseRules R text).1[r]? = some rule) :
    (engineAfter R (parseRules R text).1 calls).rules.getD r default = rule := by
  rw [engineAfter,EngineRefinement.engine_rules,List.getD_eq_getElem?_getD,indexed,Option.getD_some]

/-- Everything listed is earned, at the instant at which it was looked up. -/
theorem listed_earned {alert : Text.Str × Text.Str × Nat} (member : alert ∈ listedAlerts R text calls order clock)
    (past : ∀ id, ∀ call ∈ calls, call.now ≤ clock id) :
    ∃ rule ∈ (parseRules R text).1, ∃ subject j i id, Earned R calls rule subject alert j i (clock id) := by
  obtain ⟨row,active,rfl⟩ := List.mem_map.mp member
  obtain ⟨id,st,found,firing,rfl⟩ := (mem_active _ _ _ _).mp active
  obtain ⟨rule,indexed,j,i,earned⟩ := entry_earned R text calls found firing (past id)
  refine ⟨rule,List.mem_of_getElem? indexed,id.procKey,j,i,id,?_⟩
  rw [rule_of_index R text calls indexed]
  exact earned

/-- A breach that has lasted since call `j` is listed, under the label of the last snapshot. -/
theorem breach_listed (ordered : (calls.map Call.now).Pairwise (· ≤ ·)) {rule : Rule}
    (member : rule ∈ (parseRules R text).1) {subject : Subject} {j : Nat} (inside : j < calls.length)
    (trips : ∀ n, j ≤ n → n < calls.length → TripsAt R calls rule subject n)
    (due : rule.sustain ≤ (asRun calls (calls.length-1)).now-(asRun calls j).now) :
    ∃ alert ∈ listedAlerts R text calls order clock, alert.1 = rule.name ∧
      ∃ v, (calls.getLast?.map Call.snap).bind (fun snap => reading R rule snap subject) = some (v,alert.2.1) := by
  obtain ⟨r,indexed⟩ := List.getElem?_of_mem member
  obtain ⟨st,found,firing⟩ := breach_entry R text calls ordered indexed inside trips due
  have shown := (mem_active _ order clock _).mpr ⟨⟨r,subject⟩,st,found,firing,rfl⟩
  refine ⟨_,List.mem_map_of_mem shown,congrArg Rule.name (rule_of_index R text calls indexed),?_⟩
  have name := named_entry R _ found
  rw [named,indexed,Option.bind_eq_bind,Option.bind_some] at name
  cases snap : calls.getLast?.map Call.snap with
  | none =>
    rw [snap] at name
    cases name
  | some s =>
    rw [snap] at name
    cases read : reading R rule s subject with
    | none =>
      simp [read] at name
    | some pair =>
      obtain ⟨v,label⟩ := pair
      simp only [read,Option.bind_eq_bind,Option.bind_some] at name
      have same : label = st.label := congrArg Prod.snd (Option.some.inj name)
      exact ⟨v,read.trans (by rw [same])⟩

end

section
variable {ρ : Type} {R : Rounding} {sys : SysConst} {display : IoError → Text.Str} {interval : Nat} {w : World ρ}
variable {historyLen eventLogLen began : Nat}

private theorem successes_sublist (cycles : List Cycle) : ((successes cycles).map Prod.fst).Sublist cycles := by
  induction cycles with
  | nil => exact .slnil
  | cons c cycles ih =>
    cases result : c.result with
    | error e => simpa [successes,scanned,result] using ih.cons c
    | ok cur => simpa [successes,scanned,result] using ih.cons_cons c

private theorem call_nows (cycles : List Cycle) :
    (callsOf R sys cycles).map Call.now = ((successes cycles).tail.map Prod.fst).map Cycle.now := by
  have second : (consecutive cycles).map Prod.snd = (successes cycles).tail := by
    rw [consecutive,List.map_snd_zip]
    simp
  rw [← second,callsOf,List.map_map,List.map_map,List.map_map]
  rfl

private theorem nows_sublist (cycles : List Cycle) :
    ((callsOf R sys cycles).map Call.now).Sublist (cycles.map Cycle.now) := by
  rw [call_nows]
  exact (((List.tail_sublist _).map _).trans (successes_sublist cycles)).map _

private theorem calls_before {earlier : List Cycle} {c : Cycle}
    (ordered : (earlier ++ [c]).Pairwise (fun a b => a.now ≤ b.now)) :
    ∀ call ∈ callsOf R sys (earlier ++ [c]), call.now ≤ c.now := by
  intro call member
  have listed : call.now ∈ (earlier ++ [c]).map Cycle.now :=
    (nows_sublist _).subset (List.mem_map_of_mem member)
  obtain ⟨d,inside,same⟩ := List.mem_map.mp listed
  rw [← same]
  rcases List.mem_append.mp inside with old | new
  · exact (List.pairwise_append.mp ordered).2.2 d old c (List.mem_singleton_self c)
  · rw [List.mem_singleton.mp new]

/-- What a reader finds under one guard: the alerts belong to the snapshot, every one of them is
earned, none that is due is missing, and they are listed with the longest first. -/
theorem alerts_exact {text : Text.Str} {actions : List (Action ρ)}
    (run : Run (Step R sys display interval) (spawn (parseRules R text).1 historyLen eventLogLen began) actions w)
    {before : List (Action ρ)} {r : ρ} {seen : Shared} (shape : actions = before ++ [.access (.read r seen)]) :
    let calls := callsOf R sys (handed before)
    seen.latest = calls.getLast?.map Call.snap ∧
    (∀ alert ∈ seen.activeAlerts, ∃ rule ∈ (parseRules R text).1, ∃ subject j i shown,
      Earned R calls rule subject alert j i shown ∧
      (∀ c, (handed before).getLast? = some c → c.now ≤ shown) ∧ shown ≤ w.now) ∧
    (∀ rule ∈ (parseRules R text).1, ∀ subject j, j < calls.length →
      (∀ n, j ≤ n → n < calls.length → TripsAt R calls rule subject n) →
      rule.sustain ≤ (asRun calls (calls.length-1)).now-(asRun calls j).now →
      ∃ alert ∈ seen.activeAlerts, alert.1 = rule.name ∧
        ∃ v, (seen.latest.bind (fun snap => reading R rule snap subject)) = some (v,alert.2.1)) ∧
    seen.activeAlerts.Pairwise (fun a b => b.2.2 ≤ a.2.2) := by
  intro calls
  have whole := read_handed run shape
  obtain ⟨m,_,front,step,rest⟩ := (shape ▸ run).split_at
  obtain ⟨_,known,_⟩ := published_handed front
  obtain ⟨_,_,reported,ordered,_⟩ := ThreadTiming.elapsed_run front
  have law := law_run R sys display (parseRules R text).1 historyLen eventLogLen (handed before)
  have latest : seen.latest = calls.getLast?.map Call.snap := by
    rw [whole,law.latest,← callsOf_last]
  have later : m.now ≤ w.now := by
    obtain rfl := rest.nothing rfl
    exact ThreadTiming.step_clock step
  have inOrder : (handed before).Pairwise (fun a b => a.now ≤ b.now) := ordered.sublist known.sublist
  have nowsOrdered : (calls.map Call.now).Pairwise (· ≤ ·) :=
    (List.pairwise_map.mpr inOrder).sublist (nows_sublist (handed before))
  -- nothing is active before the first turn, and the last turn listed what fires after it
  rcases (handed before).eq_nil_or_concat with none_ | ⟨earlier,c,some_⟩
  · have quiet : seen.activeAlerts = [] := by rw [whole,none_]; rfl
    have silent : calls = [] := by
      change callsOf R sys (handed before) = []
      rw [none_]
      rfl
    refine ⟨latest,?_,?_,?_⟩
    · simp [quiet]
    · intro rule _ subject j inside
      simp [silent] at inside
    · simp [quiet]
  · rw [List.concat_eq_append] at some_
    have listed : c ∈ scans before := known.subset (by rw [some_]; simp)
    have rows : seen.activeAlerts = listedAlerts R text calls c.activeOrder c.clock := by
      rw [listedAlerts,whole,← law.engine,some_,samplerAfter,List.foldl_append]
      rfl
    have past : ∀ id, ∀ call ∈ calls, call.now ≤ c.clock id := by
      intro id call inside
      change call ∈ callsOf R sys (handed before) at inside
      rw [some_] at inside inOrder
      exact (calls_before inOrder call inside).trans (reported c listed id).1
    refine ⟨latest,?_,?_,?_⟩
    · intro alert member
      rw [rows] at member
      obtain ⟨rule,inFile,subject,j,i,id,earned⟩ := listed_earned R text calls _ _ member past
      refine ⟨rule,inFile,subject,j,i,c.clock id,earned,?_,(reported c listed id).2.trans later⟩
      intro d last
      rw [some_,List.getLast?_append] at last
      cases last
      exact (reported c listed id).1
    · intro rule member subject j inside trips due
      rw [rows,latest]
      exact breach_listed R text calls _ _ nowsOrdered member inside trips due
    · rw [rows]
      exact List.pairwise_map.mpr (active_sorted _ _ _)

end

theorem alerts_exact_deserted : ∃ (before : List (Action Unit)) (seen : Shared),
    seen.activeAlerts = [("idle".toList,"system".toList,0)] ∧ ∃ rule subject j i shown,
      Earned .exact (callsOf .exact (sysConst none none) (handed before)) rule subject
        ("idle".toList,"system".toList,0) j i shown := by
  obtain ⟨before,seen,w,run,turns⟩ := deserted_read (parseRules .exact "alert idle system proc_count < 5 for 0s".toList).1
  have whole := read_handed run rfl
  have shown : seen.activeAlerts = [("idle".toList,"system".toList,0)] := by
    rw [whole,turns]
    decide +kernel
  obtain ⟨_,earned,_⟩ := alerts_exact run rfl
  obtain ⟨rule,_,subject,j,i,at_,earned,_⟩ := earned _ (shown ▸ List.mem_singleton_self _)
  exact ⟨before,seen,shown,rule,subject,j,i,at_,earned⟩

end Vitals.ReaderAlerts
