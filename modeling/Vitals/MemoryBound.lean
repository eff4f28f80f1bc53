import Vitals.ReaderAlerts

/-! How much the sampler keeps, in every interleaving and however long it runs: the two rings
never grow, and the alert engine holds no more than the rules can see in the last snapshot. -/
namespace Vitals.MemoryBound
open Kernel Library Semantics ThreadPublication SamplerRun

/-- The subjects a rule may have a value for in a snapshot: the system, or the matching processes
that were there before. -/
def watched (snap : Option Snapshot) (rule : Rule) : List Subject :=
  match snap with
  | none => []
  | some s => match rule.target with
    | .system => [none]
    | .process _ => (s.procs.filter (fun p => rule.target.isMatch p.comm && !p.isNew)).map (fun p => some (identity p))

def load (rules : List Rule) (snap : Option Snapshot) : Nat := (rules.map (fun rule => (watched snap rule).length)).sum

section
variable {R : Rounding}

private theorem procValue_watched {rule : Rule} {p : ProcRate} {v : F64} (read : procValue R rule p = some v) :
    (rule.target.isMatch p.comm && !p.isNew) = true := by
  unfold procValue at read
  split at read
  · cases read
  · split at read
    · cases read
    · simp_all

private theorem reading_watched {rule : Rule} {snap : Snapshot} {subject : Subject} {seen : F64 × Text.Str}
    (read : reading R rule snap subject = some seen) : subject ∈ watched (some snap) rule := by
  cases subject with
  | none =>
    cases target : rule.target with
    | system => simp [watched,target]
    | process pattern => simp [reading,target] at read
  | some key =>
    cases target : rule.target with
    | system => simp [reading,target] at read
    | process pattern =>
      simp only [reading,target] at read
      obtain ⟨p,found,read⟩ := Option.bind_eq_some_iff.mp read
      obtain ⟨v,value,_⟩ := Option.map_eq_some_iff.mp read
      have about : identity p = key := by simpa using List.find?_some found
      simp only [watched,target,List.mem_map,List.mem_filter]
      refine ⟨p,⟨List.mem_of_find?_eq_some found,?_⟩,by rw [about]⟩
      rw [← target]
      exact procValue_watched value

def places (rules : List Rule) (snap : Option Snapshot) : List SubjectId :=
  rules.zipIdx.flatMap (fun e => (watched snap e.1).map (fun subject => ⟨e.2,subject⟩))

private theorem length_places (rules : List Rule) (snap : Option Snapshot) :
    (places rules snap).length = load rules snap := by
  have lengths := congrArg (List.map (fun rule => (watched snap rule).length)) (List.zipIdx_map_fst 0 rules)
  rw [List.map_map] at lengths
  rw [places,List.length_flatMap,load,← lengths]
  congr 2
  funext e
  exact List.length_map _

/-- An entry is of a rule of the file and of a subject this rule has a value for in the last
comparison. -/
theorem entry_watched (rules : List Rule) (calls : List Call) {id : SubjectId} {st : State}
    (found : (engineAfter R rules calls).states.lookup id = some st) :
    ∃ rule, rules[id.rule]? = some rule ∧ id.procKey ∈ watched (calls.getLast?.map Call.snap) rule := by
  have name := named_entry R rules found
  cases last : calls.getLast?.map Call.snap with
  | none =>
    rw [last,named] at name
    cases indexed : rules[id.rule]? with
    | none => simp [indexed] at name
    | some rule => simp [indexed] at name
  | some snap =>
    rw [last,named] at name
    obtain ⟨rule,indexed,name⟩ := Option.bind_eq_some_iff.mp name
    obtain ⟨_,same,name⟩ := Option.bind_eq_some_iff.mp name
    obtain rfl := Option.some.inj same
    obtain ⟨seen,read,_⟩ := Option.bind_eq_some_iff.mp name
    exact ⟨rule,indexed,reading_watched read⟩

private theorem states_bounded (rules : List Rule) (calls : List Call) :
    (engineAfter R rules calls).states.entries.length ≤ load rules (calls.getLast?.map Call.snap) := by
  have inside : (engineAfter R rules calls).states.keys ⊆ places rules (calls.getLast?.map Call.snap) := by
    intro id member
    obtain ⟨st,found⟩ := Option.isSome_iff_exists.mp (AList.lookup_isSome.mpr member)
    obtain ⟨rule,indexed,visible⟩ := entry_watched rules calls found
    exact List.mem_flatMap.mpr ⟨(rule,id.rule),List.mem_zipIdx_iff_getElem?.mpr indexed,
      List.mem_map.mpr ⟨id.procKey,visible,rfl⟩⟩
  have fewer := (List.subperm_of_subset (engineAfter R rules calls).states.keys_nodup inside).length_le
  rw [length_places,AList.keys,List.keys,List.length_map] at fewer
  exact fewer

private theorem active_bounded (e : Engine) (order : Iteration (Σ _ : SubjectId, State)) (clock : SubjectId → Nat) :
    (e.active order clock).length ≤ e.states.entries.length := by
  rw [Engine.active,List.length_mergeSort,List.length_map,← (order.perm e.states.entries).length_eq]
  exact List.length_filter_le _ _

end

def Keeps (move : Shared → Shared) : Prop := ∀ g : Shared,
  (move g).history.capacity = g.history.capacity ∧ (move g).events.capacity = g.events.capacity

private theorem swaps_keep (R : Rounding) (work : Work) (active : List (Text.Str × Text.Str × Nat)) :
    ∀ move ∈ swaps R work active, Keeps move := by
  intro move listed g
  simp only [swaps,List.mem_append,Option.mem_toList,Option.map_eq_some_iff,List.mem_map,List.mem_cons,
    List.not_mem_nil,or_false] at listed
  obtain ((⟨snap,_,rfl⟩ | ⟨e,_,rfl⟩) | latest) | rfl | rfl := listed
  · exact ⟨RingWindow.capacity_apply g.history (.push _),rfl⟩
  · exact ⟨rfl,RingWindow.capacity_apply g.events (.push _)⟩
  · split at latest
    · obtain rfl := List.mem_singleton.mp latest
      exact ⟨rfl,rfl⟩
    · cases latest
  · exact ⟨rfl,rfl⟩
  · exact ⟨rfl,rfl⟩

section
variable {ρ : Type} {R : Rounding} {sys : SysConst} {display : IoError → Text.Str} {interval : Nat}
variable {w w' : World ρ} {a : Action ρ} {rules : List Rule} {historyLen eventLogLen began : Nat}
variable {actions : List (Action ρ)}

structure Capped (historyLen eventLogLen : Nat) (w : World ρ) : Prop where
  history : w.shared.value.history.capacity = max historyLen 1
  events : w.shared.value.events.capacity = max eventLogLen 1
  ahead : ∀ cycleStart left, w.pc = .swap cycleStart left → ∀ move ∈ left, Keeps move

private theorem capped_step (capped : Capped historyLen eventLogLen w) (step : Step R sys display interval w a w') :
    Capped historyLen eventLogLen w' := by
  obtain ⟨history,events,ahead⟩ := capped
  cases step with
  | own step =>
    cases step with
    | lock cycleStart work active g at_ inner =>
      have same : g.value = w.shared.value := inner.value
      refine ⟨(congrArg (fun s => s.history.capacity) same).trans history,
        (congrArg (fun s => s.events.capacity) same).trans events,?_⟩
      intro _ _ now
      cases now
      exact swaps_keep R work active
    | write cycleStart move left g at_ inner =>
      have moved : g.value = move w.shared.value := inner.value
      obtain ⟨keep,rest⟩ := List.forall_mem_cons.mp (ahead _ _ at_)
      refine ⟨?_,?_,?_⟩
      · exact ((congrArg (fun s => s.history.capacity) moved).trans (keep _).1).trans history
      · exact ((congrArg (fun s => s.events.capacity) moved).trans (keep _).2).trans events
      · intro _ _ now
        cases now
        exact rest
    | unlock cycleStart g at_ inner =>
      have same : g.value = w.shared.value := inner.value
      exact ⟨(congrArg (fun s => s.history.capacity) same).trans history,
        (congrArg (fun s => s.events.capacity) same).trans events,nofun⟩
    | proceed | exit | begin | scan | count | rest | overrun | arm | wait | due | poll | quit | nap | rouse =>
      exact ⟨history,events,nofun⟩
  | other step =>
    cases step with
    | enter r g inner | leave r g inner | read r seen g inner =>
      have same : g.value = w.shared.value := inner.value
      exact ⟨(congrArg (fun s => s.history.capacity) same).trans history,
        (congrArg (fun s => s.events.capacity) same).trans events,ahead⟩
    | time | request | arrive | join => exact ⟨history,events,ahead⟩

private theorem capped_run
    (run : Run (Step R sys display interval) (spawn rules historyLen eventLogLen began) actions w) :
    Capped historyLen eventLogLen w :=
  run.invariant ⟨List.length_replicate,List.length_replicate,nofun⟩ (fun _ _ _ capped step => capped_step capped step)

private theorem engine_run
    (run : Run (Step R sys display interval) (spawn rules historyLen eventLogLen began) actions w) :
    w.engine = engineAfter R rules (callsOf R sys (scans actions)) := by
  obtain ⟨_,engine,_⟩ := ThreadPublication.law_run run
  exact engine.trans (SamplerRun.law_run R sys display rules historyLen eventLogLen (scans actions)).engine

/-- In every reachable state every entry of the engine is of a rule and of a subject this rule saw
in the last comparison, at most one for each, the rings have the size they were made with, and a
reader never finds more alerts than the snapshot found with them has subjects. -/
theorem kept_bounded
    (run : Run (Step R sys display interval) (spawn rules historyLen eventLogLen began) actions w) :
    (∀ id st, w.engine.states.lookup id = some st → ∃ rule, rules[id.rule]? = some rule ∧
      id.procKey ∈ watched (snapshots R sys (scans actions)).getLast? rule) ∧
    w.engine.states.entries.length ≤ load rules (snapshots R sys (scans actions)).getLast? ∧
    w.shared.value.history.capacity = max historyLen 1 ∧ w.shared.value.events.capacity = max eventLogLen 1 ∧
    ∀ before r seen, actions = before ++ [.access (.read r seen)] →
      seen.activeAlerts.length ≤ load rules seen.latest := by
  obtain ⟨history,events,_⟩ := capped_run run
  rw [engine_run run,← callsOf_last]
  refine ⟨?_,states_bounded rules _,history,events,?_⟩
  · intro id st found
    exact entry_watched rules _ found
  · intro before r seen shape
    have law := SamplerRun.law_run R sys display rules historyLen eventLogLen (handed before)
    obtain ⟨order,clock,active⟩ := activeAlerts_run R sys display rules historyLen eventLogLen (handed before)
    rw [read_handed run shape,law.latest,← callsOf_last,active,List.length_map,law.engine]
    exact (active_bounded _ order clock).trans (states_bounded rules _)

end

theorem kept_bounded_deserted : ∃ seen : Shared, seen.activeAlerts.length = 1 ∧
    load (parseRules .exact "alert idle system proc_count < 5 for 0s".toList).1 seen.latest = 1 := by
  let rules := (parseRules .exact "alert idle system proc_count < 5 for 0s".toList).1
  obtain ⟨before,seen,w,run,turns⟩ := deserted_read rules
  have whole := read_handed run rfl
  have one : seen.activeAlerts.length = 1 := by
    rw [whole,turns]
    decide +kernel
  have most : load rules seen.latest ≤ 1 := by
    rw [whole,turns]
    decide +kernel
  obtain ⟨_,_,_,_,alerts⟩ := kept_bounded run
  exact ⟨seen,one,Nat.le_antisymm most (one ▸ alerts before () seen rfl)⟩

end Vitals.MemoryBound
