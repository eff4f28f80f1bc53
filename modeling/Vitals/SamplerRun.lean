import Vitals.Semantics.Cycles
import Vitals.RuleRates
import Vitals.RingWindow
import Vitals.EngineLedger
import Vitals.EngineProduct

/-! The sampler over a run in which scans fail and succeed in any order. What it shows is a
function of the successful scans alone, and the engine it drives is the engine of the rules
called once for each of them but the first. -/
namespace Vitals.SamplerRun
open Kernel Semantics EngineRefinement RingWindow

section
variable (R : Rounding) (sys : SysConst) (rules : List Rule)

def callOf (step : (Cycle × Sample) × (Cycle × Sample)) : Call where
  snap := compared R sys step
  now := step.2.1.now
  order := step.2.1.stateOrder
  distinct := RuleRates.diff_identities R sys _ _ _

/-- The calls of `evaluate` that a run of the sampler makes. -/
def callsOf (cycles : List Cycle) : List Call := (consecutive cycles).map (callOf R sys)

private theorem default_distinct : ((default : Snapshot).procs.map identity).Nodup := List.nodup_nil

def idle : Call := ⟨default,0,.stored _,default_distinct⟩

/-- Finitely many calls as the beginning of an endless run. -/
def asRun (calls : List Call) (k : Nat) : Call := calls.getD k idle

private theorem engineAt_congr {calls calls' : Nat → Call} (k : Nat) (same : ∀ i, i < k → calls i = calls' i) :
    engineAt R rules calls k = engineAt R rules calls' k := by
  induction k with
  | zero => rfl
  | succ k ih =>
    have before := ih (fun i inside => same i (by omega))
    rw [engineAt,engineAt,before,same k (by omega)]

private theorem emittedBefore_congr {calls calls' : Nat → Call} (k : Nat) (same : ∀ i, i < k → calls i = calls' i) :
    emittedBefore R rules calls k = emittedBefore R rules calls' k := by
  induction k with
  | zero => simp [emittedBefore]
  | succ k ih =>
    have before := ih (fun i inside => same i (by omega))
    have engine := engineAt_congr R rules k (fun i inside => same i (by omega))
    rw [EngineLedger.emittedBefore_succ,EngineLedger.emittedBefore_succ,before,emittedAt,emittedAt,engine,
      same k (by omega)]

/-- The engine and its events after finitely many calls. -/
def engineAfter (calls : List Call) : Engine := engineAt R rules (asRun calls) calls.length

def emittedAfter (calls : List Call) : List (SubjectId × Event) :=
  emittedBefore R rules (asRun calls) calls.length

variable (calls : List Call) (call : Call)

private theorem asRun_earlier (i : Nat) (inside : i < calls.length) :
    asRun (calls ++ [call]) i = asRun calls i := by
  rw [asRun,asRun,List.getD_eq_getElem?_getD,List.getD_eq_getElem?_getD,List.getElem?_append_left inside]

private theorem asRun_last : asRun (calls ++ [call]) calls.length = call := by
  rw [asRun,List.getD_eq_getElem?_getD,List.getElem?_append_right (Nat.le_refl _),Nat.sub_self]
  rfl

private theorem engineAfter_append : engineAfter R rules (calls ++ [call]) =
    ((engineAfter R rules calls).evaluate R call.snap call.now call.order).1 := by
  have before := engineAt_congr R rules calls.length (asRun_earlier calls call)
  rw [engineAfter,List.length_append,List.length_singleton,engineAt,before,asRun_last]
  rfl

private theorem emittedAfter_append : emittedAfter R rules (calls ++ [call]) = emittedAfter R rules calls ++
    ((engineAfter R rules calls).evaluate R call.snap call.now call.order).2 := by
  have before := engineAt_congr R rules calls.length (asRun_earlier calls call)
  have earlier := emittedBefore_congr R rules calls.length (asRun_earlier calls call)
  rw [emittedAfter,List.length_append,List.length_singleton,EngineLedger.emittedBefore_succ,earlier,
    emittedAt,before,asRun_last]
  rfl

end

private theorem successes_failed (cycles : List Cycle) {c : Cycle} {e : IoError} (failed : c.result = .error e) :
    successes (cycles ++ [c]) = successes cycles := by
  simp [successes,scanned,failed]

private theorem successes_scanned (cycles : List Cycle) {c : Cycle} {cur : Sample} (ok : c.result = .ok cur) :
    successes (cycles ++ [c]) = successes cycles ++ [(c,cur)] := by
  simp [successes,scanned,ok]

private theorem zip_tail_append {α : Type} (l : List α) (x : α) :
    (l ++ [x]).zip (l ++ [x]).tail = l.zip l.tail ++ (l.getLast?.map (fun last => (last,x))).toList := by
  induction l with
  | nil => rfl
  | cons a l ih =>
    cases l with
    | nil => rfl
    | cons b l => simpa using ih

private theorem consecutive_scanned (cycles : List Cycle) {c : Cycle} {cur : Sample} (ok : c.result = .ok cur) :
    consecutive (cycles ++ [c]) =
      consecutive cycles ++ ((successes cycles).getLast?.map (fun last => (last,(c,cur)))).toList := by
  rw [consecutive,successes_scanned cycles ok,zip_tail_append]
  rfl

private theorem represents_pushes {α β : Type} {r : Kernel.Ring β} {l : List β} (rep : Represents r l) (f : α → β)
    (items : List α) : Represents (items.foldl (fun ring item => (ring.push (f item)).1) r) (l ++ items.map f) := by
  induction items generalizing r l with
  | nil => simpa using rep
  | cons item items ih => simpa using ih (represents_push rep (f item))

private theorem capacity_pushes {α β : Type} (f : α → β) (items : List α) (r : Kernel.Ring β) :
    (items.foldl (fun ring item => (ring.push (f item)).1) r).capacity = r.capacity := by
  induction items generalizing r with
  | nil => rfl
  | cons item items ih => rw [List.foldl_cons,ih,Ring.capacity,Ring.push,List.length_set,Ring.capacity]

section
variable (R : Rounding) (sys : SysConst) (display : IoError → Text.Str) (rules : List Rule)
  (historyLen eventLogLen : Nat)

/-- The sampler after some turns, given all events they have emitted. -/
structure Law (cycles : List Cycle) (emitted : List (SubjectId × Event)) (s : Sampler) : Prop where
  prev : s.prev = (successes cycles).getLast?.map Prod.snd
  engine : s.engine = engineAfter R rules (callsOf R sys cycles)
  emits : emitted = emittedAfter R rules (callsOf R sys cycles)
  latest : s.shared.latest = (snapshots R sys cycles).getLast?
  history : Represents s.shared.history ((snapshots R sys cycles).map (.ofSnapshot R))
  historyLen : s.shared.history.capacity = max historyLen 1
  events : Represents s.shared.events (emitted.map Prod.snd)
  eventLogLen : s.shared.events.capacity = max eventLogLen 1

private theorem law_new : Law R sys rules historyLen eventLogLen [] [] (.new rules historyLen eventLogLen) where
  prev := rfl
  engine := rfl
  emits := rfl
  latest := rfl
  history := represents_new historyLen
  historyLen := List.length_replicate
  events := represents_new eventLogLen
  eventLogLen := List.length_replicate

variable {cycles : List Cycle} {emitted : List (SubjectId × Event)} {s : Sampler}

private theorem law_failed (law : Law R sys rules historyLen eventLogLen cycles emitted s) {c : Cycle} {e : IoError}
    (failed : c.result = .error e) : Law R sys rules historyLen eventLogLen (cycles ++ [c])
      (emitted ++ (s.work R sys display c).events) (s.cycle R sys display c) := by
  have same := successes_failed cycles failed
  have pairs : consecutive (cycles ++ [c]) = consecutive cycles := by rw [consecutive,same,consecutive]
  have work : s.work R sys display c = ⟨s.prev,s.engine,none,[],some (display e)⟩ := by
    rw [Sampler.work,failed]
  have calls : callsOf R sys (cycles ++ [c]) = callsOf R sys cycles := by rw [callsOf,pairs,callsOf]
  have snaps : snapshots R sys (cycles ++ [c]) = snapshots R sys cycles := by rw [snapshots,pairs,snapshots]
  rw [Sampler.cycle,work,List.append_nil]
  exact
    { prev := by rw [same]; exact law.prev
      engine := by rw [calls]; exact law.engine
      emits := by rw [calls]; exact law.emits
      latest := by rw [snaps]; exact law.latest
      history := by rw [snaps]; exact law.history
      historyLen := law.historyLen
      events := law.events
      eventLogLen := law.eventLogLen }

/-- The first success is only remembered. -/
theorem law_first (law : Law R sys rules historyLen eventLogLen cycles emitted s) {c : Cycle} {cur : Sample}
    (ok : c.result = .ok cur) (first : (successes cycles).getLast? = none) :
    Law R sys rules historyLen eventLogLen (cycles ++ [c])
      (emitted ++ (s.work R sys display c).events) (s.cycle R sys display c) := by
  have pairs : consecutive (cycles ++ [c]) = consecutive cycles := by
    rw [consecutive_scanned cycles ok,first,Option.map_none,Option.toList_none,List.append_nil]
  have fresh : s.prev = none := by rw [law.prev,first,Option.map_none]
  have work : s.work R sys display c = ⟨some cur,s.engine,none,[],none⟩ := by
    rw [Sampler.work,ok,fresh]
  have calls : callsOf R sys (cycles ++ [c]) = callsOf R sys cycles := by rw [callsOf,pairs,callsOf]
  have snaps : snapshots R sys (cycles ++ [c]) = snapshots R sys cycles := by rw [snapshots,pairs,snapshots]
  rw [Sampler.cycle,work,List.append_nil]
  exact
    { prev := by rw [successes_scanned cycles ok,List.getLast?_append]; rfl
      engine := by rw [calls]; exact law.engine
      emits := by rw [calls]; exact law.emits
      latest := by rw [snaps]; exact law.latest
      history := by rw [snaps]; exact law.history
      historyLen := law.historyLen
      events := law.events
      eventLogLen := law.eventLogLen }

/-- Every later success is compared with the one before it. -/
theorem law_next (law : Law R sys rules historyLen eventLogLen cycles emitted s) {c : Cycle} {cur : Sample}
    (ok : c.result = .ok cur) {last : Cycle × Sample} (found : (successes cycles).getLast? = some last) :
    Law R sys rules historyLen eventLogLen (cycles ++ [c])
      (emitted ++ (s.work R sys display c).events) (s.cycle R sys display c) := by
  have pairs : consecutive (cycles ++ [c]) = consecutive cycles ++ [(last,(c,cur))] := by
    rw [consecutive_scanned cycles ok,found,Option.map_some,Option.toList_some]
  have before : s.prev = some last.2 := by rw [law.prev,found,Option.map_some]
  let call := callOf R sys (last,(c,cur))
  let evaluated := s.engine.evaluate R call.snap call.now call.order
  have work : s.work R sys display c = ⟨some cur,evaluated.1,some call.snap,evaluated.2,none⟩ := by
    rw [Sampler.work,ok,before]
    rfl
  have calls : callsOf R sys (cycles ++ [c]) = callsOf R sys cycles ++ [call] := by
    rw [callsOf,pairs,List.map_append]
    rfl
  have snaps : snapshots R sys (cycles ++ [c]) = snapshots R sys cycles ++ [call.snap] := by
    rw [snapshots,pairs,List.map_append]
    rfl
  rw [Sampler.cycle,work]
  exact
    { prev := by rw [successes_scanned cycles ok,List.getLast?_append]; rfl
      engine := by rw [calls,engineAfter_append,← law.engine]
      emits := by rw [calls,emittedAfter_append,← law.engine,← law.emits]
      latest := by rw [snaps,List.getLast?_append]; rfl
      history := by
        rw [snaps,List.map_append]
        exact represents_push law.history (.ofSnapshot R call.snap)
      historyLen := (capacity_apply s.shared.history (.push _)).trans law.historyLen
      events := by
        rw [List.map_append]
        exact represents_pushes law.events Prod.snd evaluated.2
      eventLogLen := (capacity_pushes Prod.snd evaluated.2 _).trans law.eventLogLen }

private theorem law_cycle (law : Law R sys rules historyLen eventLogLen cycles emitted s) (c : Cycle) :
    Law R sys rules historyLen eventLogLen (cycles ++ [c])
      (emitted ++ (s.work R sys display c).events) (s.cycle R sys display c) := by
  cases result : c.result with
  | error e => exact law_failed R sys display rules historyLen eventLogLen law result
  | ok cur =>
    cases found : (successes cycles).getLast? with
    | none => exact law_first R sys display rules historyLen eventLogLen law result found
    | some last => exact law_next R sys display rules historyLen eventLogLen law result found

private theorem eventsFrom_append (cycles : List Cycle) (c : Cycle) (s : Sampler) :
    eventsFrom R sys display s (cycles ++ [c]) = eventsFrom R sys display s cycles ++
      ((cycles.foldl (Sampler.cycle R sys display) s).work R sys display c).events := by
  induction cycles generalizing s with
  | nil => simp [eventsFrom]
  | cons first cycles ih => simp only [List.cons_append,eventsFrom,ih,List.append_assoc,List.foldl_cons]

theorem law_run (cycles : List Cycle) : Law R sys rules historyLen eventLogLen cycles
    (eventsOf R sys display rules historyLen eventLogLen cycles)
    (samplerAfter R sys display rules historyLen eventLogLen cycles) := by
  induction cycles using List.reverseRecOn with
  | nil => exact law_new R sys rules historyLen eventLogLen
  | append_singleton cycles c ih =>
    rw [samplerAfter,List.foldl_append,eventsOf,eventsFrom_append]
    exact law_cycle R sys display rules historyLen eventLogLen ih c

theorem named_entry {calls : List Call} {id : SubjectId} {st : State}
    (found : (engineAfter R rules calls).states.lookup id = some st) :
    named R rules (calls.getLast?.map Call.snap) id =
      some (((engineAfter R rules calls).rules.getD id.rule default).name,st.label) := by
  have kept := engine_rules R rules (asRun calls) calls.length
  rcases calls.eq_nil_or_concat with rfl | ⟨earlier,call,rfl⟩
  · cases found.symm.trans (AList.lookup_empty id)
  · rw [engineAfter] at found ⊢
    rw [kept]
    rw [List.concat_eq_append,List.length_append,List.length_singleton] at found
    obtain ⟨rule,v,indexed,read⟩ := EngineProduct.entry_reading found
    rw [asRun_last] at read
    have last : (earlier.concat call).getLast? = some call := by simp
    have chosen : rules.getD id.rule default = rule := by simp [List.getD,indexed]
    rw [named,last,Option.map_some,indexed,chosen]
    simp only [Option.bind_eq_bind,Option.bind_some,read]
    rfl

/-- Whatever fires is listed under the name of its rule and its own name in the last snapshot. -/
theorem active_named (calls : List Call) (order : Iteration (Σ _ : SubjectId, State))
    (clock : SubjectId → Nat) : ∃ ids : List SubjectId, ids.Nodup ∧
      (∀ id, id ∈ ids ↔ ∃ e, (Family.emitted id (emittedAfter R rules calls)).getLast? = some e ∧
        e.kind = .fired) ∧
      (((engineAfter R rules calls).active order clock).map (fun a => some (a.1,a.2.1))).Perm
        (ids.map (named R rules (calls.getLast?.map Call.snap))) := by
  let e := engineAfter R rules calls
  refine ⟨EngineLedger.activeIds e order,EngineLedger.activeIds_nodup e order,?_,?_⟩
  · intro id
    rw [EngineLedger.mem_activeIds]
    exact (EngineLedger.latest_fired_entry R rules (asRun calls) calls.length id).symm
  · have rows := (EngineLedger.active_rows e order clock).map (Option.map (fun a => (a.1,a.2.1)))
    rw [List.map_map,List.map_map] at rows
    refine rows.trans (List.Perm.of_eq ?_)
    apply List.map_congr_left
    intro id listed
    obtain ⟨st,found,_⟩ := (EngineLedger.mem_activeIds e order id).mp listed
    rw [Function.comp_apply,EngineLedger.activeRow,found,named_entry R rules found]
    rfl

theorem callsOf_last (cycles : List Cycle) :
    (callsOf R sys cycles).getLast?.map Call.snap = (snapshots R sys cycles).getLast? := by
  rw [callsOf,snapshots,List.getLast?_map,List.getLast?_map,Option.map_map]
  rfl

theorem activeAlerts_run (cycles : List Cycle) :
    let s := samplerAfter R sys display rules historyLen eventLogLen cycles
    ∃ order clock, s.shared.activeAlerts = (s.engine.active order clock).map (fun a => (a.1,a.2.1,a.2.2.1)) := by
  induction cycles using List.reverseRecOn with
  | nil =>
    have quiet : (Engine.new rules).active (.stored _) (fun _ => 0) = [] := by
      simp [Engine.active,Engine.new,Iteration.stored]
    refine ⟨.stored _,fun _ => 0,?_⟩
    change [] = ((Engine.new rules).active _ _).map _
    rw [quiet,List.map_nil]
  | append_singleton cycles c _ =>
    rw [samplerAfter,List.foldl_append]
    exact ⟨c.activeOrder,c.clock,rfl⟩

/-- A failed scan changes nothing but the reported error, and whatever the pattern of
failures, the sampler shows the successful scans. -/
theorem sampler_shows (cycles : List Cycle) :
    let s := samplerAfter R sys display rules historyLen eventLogLen cycles
    let events := eventsOf R sys display rules historyLen eventLogLen cycles
    (∀ c : Cycle,
      (∀ e, c.result = .error e → let after := s.cycle R sys display c
        after.prev = s.prev ∧ after.engine = s.engine ∧ after.shared.latest = s.shared.latest ∧
          after.shared.history = s.shared.history ∧ after.shared.events = s.shared.events ∧
          after.shared.lastError = some (display e)) ∧
      ∀ cur, c.result = .ok cur → (s.cycle R sys display c).shared.lastError = none) ∧
    s.prev = (successes cycles).getLast?.map Prod.snd ∧
    s.engine = engineAfter R rules (callsOf R sys cycles) ∧ events = emittedAfter R rules (callsOf R sys cycles) ∧
    s.shared.latest = (snapshots R sys cycles).getLast? ∧
    (snapshots R sys cycles).length = (successes cycles).length-1 ∧
    s.shared.history.iterChrono = ((snapshots R sys cycles).map (.ofSnapshot R)).rtake (max historyLen 1) ∧
    s.shared.events.iterChrono = (events.map Prod.snd).rtake (max eventLogLen 1) ∧
    ∃ ids : List SubjectId, ids.Nodup ∧
      (∀ id, id ∈ ids ↔ ∃ e, (Family.emitted id events).getLast? = some e ∧ e.kind = .fired) ∧
      (s.shared.activeAlerts.map (fun a => some (a.1,a.2.1))).Perm
        (ids.map (named R rules (snapshots R sys cycles).getLast?)) := by
  intro s events
  have law := law_run R sys display rules historyLen eventLogLen cycles
  refine ⟨?_,law.prev,law.engine,law.emits,law.latest,?_,?_,?_,?_⟩
  · intro c
    refine ⟨?_,?_⟩
    · intro e failed
      have work : s.work R sys display c = ⟨s.prev,s.engine,none,[],some (display e)⟩ := by
        rw [Sampler.work,failed]
      rw [Sampler.cycle,work]
      exact ⟨rfl,rfl,rfl,rfl,rfl,rfl⟩
    · intro cur ok
      simp only [Sampler.cycle,Sampler.work,ok]
      cases s.prev <;> rfl
  · simp [snapshots,consecutive]
  · rw [iterChrono_represented law.history,law.historyLen]
  · rw [iterChrono_represented law.events,law.eventLogLen]
  · obtain ⟨order,clock,active⟩ := activeAlerts_run R sys display rules historyLen eventLogLen cycles
    obtain ⟨ids,distinct,firing,rows⟩ := active_named R rules (callsOf R sys cycles) order clock
    rw [callsOf_last] at rows
    change s.shared.activeAlerts = _ at active
    refine ⟨ids,distinct,?_,?_⟩
    · intro id
      rw [firing id,← law.emits]
    · rw [active,List.map_map,law.engine]
      exact rows

end
end Vitals.SamplerRun
