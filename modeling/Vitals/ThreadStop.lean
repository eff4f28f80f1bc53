import Vitals.ThreadTiming

/-! Stopping the sampler thread. The flag is only looked at between turns and between slices of
sleep, so the thread may still finish what it is doing; how much that can be is bounded, nothing
can hold it up for good, and what is shared after the join is final. -/
namespace Vitals.ThreadStop
open Kernel Library Semantics ThreadPublication ThreadTiming

section
variable {ρ : Type} {R : Rounding} {sys : SysConst} {display : IoError → Text.Str} {interval : Nat}
variable {w w' : World ρ} {a : Action ρ} {actions more : List (Action ρ)}

/-- The steps of the thread itself, the moves under the lock left out. -/
def ownSteps : Action ρ → Nat
  | .proceed | .begin _ | .scan _ | .access .lock | .access .unlock | .finish _ | .sleep _ | .exit => 1
  | _ => 0

def unlocks : Action ρ → Nat
  | .access .unlock => 1
  | _ => 0

def scansOne : Action ρ → Nat
  | .scan _ => 1
  | _ => 0

def sleepsOne : Action ρ → Nat
  | .sleep _ => 1
  | _ => 0

/-- How many of each a thread that sees the flag has before it. -/
structure Left where
  steps : Nat
  unlocks : Nat
  scans : Nat
  sleeps : Nat

def leftAt : Pc → Left
  | .exited => ⟨0,0,0,0⟩
  | .check => ⟨1,0,0,0⟩
  | .poll _ => ⟨1,0,0,0⟩
  | .wait _ => ⟨2,0,0,0⟩
  | .asleep _ _ => ⟨3,0,0,0⟩
  | .nap _ => ⟨4,0,0,1⟩
  | .arm _ => ⟨3,0,0,0⟩
  | .drift _ => ⟨4,0,0,0⟩
  | .count _ => ⟨5,0,0,0⟩
  | .swap _ _ => ⟨6,1,0,0⟩
  | .lock _ _ _ => ⟨7,1,0,0⟩
  | .scan _ => ⟨8,1,1,0⟩
  | .start => ⟨9,1,1,0⟩

/-- A step pays for what it does out of what is left. -/
structure Pays (a : Action ρ) (before after : Left) : Prop where
  steps : ownSteps a + after.steps ≤ before.steps
  unlocks : unlocks a + after.unlocks ≤ before.unlocks
  scans : scansOne a + after.scans ≤ before.scans
  sleeps : sleepsOne a + after.sleeps ≤ before.sleeps

theorem pays_own (seen : w.arrived = true) (step : OwnStep R sys display interval w a w') :
    Pays a (leftAt w.pc) (leftAt w'.pc) := by
  cases step with
  | proceed at_ run | poll _ at_ run =>
    rw [seen] at run
    cases run
  | begin at_ | scan _ _ at_ _ | lock _ _ _ _ at_ _ | write _ _ _ _ at_ _ | unlock _ _ at_ _ | count _ at_
  | rest _ _ at_ _ | overrun _ at_ _ | arm _ at_ | wait _ at_ _ | due _ at_ _ | exit at_ _ | quit _ at_ _
  | nap _ at_ | rouse _ _ at_ _ =>
    rw [at_]
    constructor <;> simp [leftAt,ownSteps,unlocks,scansOne,sleepsOne]

private theorem pays_other (step : OtherStep w a w') : Pays a (leftAt w.pc) (leftAt w'.pc) := by
  cases step with
  | time | enter | read | leave | request | arrive | join => constructor <;> exact (Nat.zero_add _).le

private theorem arrived_step (seen : w.arrived = true) (step : Step R sys display interval w a w') :
    w'.arrived = true := by
  cases step with
  | own step => cases step <;> exact seen
  | other step =>
    cases step with
    | arrive => rfl
    | time | enter | read | leave | request | join => exact seen

private theorem pays_step (seen : w.arrived = true) (step : Step R sys display interval w a w') :
    Pays a (leftAt w.pc) (leftAt w'.pc) := by
  cases step with
  | own step => exact pays_own seen step
  | other step => exact pays_other step

private theorem leftAt_le (pc : Pc) : (leftAt pc).steps ≤ 9 ∧ (leftAt pc).unlocks ≤ 1 ∧ (leftAt pc).scans ≤ 1 ∧
    (leftAt pc).sleeps ≤ 1 := by
  cases pc <;> simp [leftAt]

private theorem published_unlocks (actions more : List (Action ρ)) :
    (Guarded.published (accesses (actions ++ more))).length =
      (Guarded.published (accesses actions)).length + (more.map unlocks).sum := by
  induction more using List.reverseRecOn with
  | nil => simp
  | append_singleton more a ih =>
    rw [← List.append_assoc,Guarded.published,ledger_snoc,List.map_append,List.sum_append,← Nat.add_assoc,← ih]
    cases a with
    | access x => cases x <;> simp [Action.accessed,Guarded.Ledger.note,Guarded.published,unlocks]
    | time | proceed | begin | scan | finish | sleep | exit | request | arrive | join =>
      simp [Action.accessed,Guarded.published,unlocks]

private theorem scans_sum (actions : List (Action ρ)) : (scans actions).length = (actions.map scansOne).sum := by
  induction actions using List.reverseRecOn with
  | nil => rfl
  | append_singleton actions a ih =>
    rw [scans_snoc,List.length_append,ih,List.map_append,List.sum_append]
    cases a <;> rfl

theorem paid {cost : Action ρ → Nat} {left : Left → Nat}
    (pays : ∀ {a : Action ρ} {before after : Left}, Pays a before after → cost a + left after ≤ left before)
    (seen : w.arrived = true) (run : Run (Step R sys display interval) w more w') :
    (more.map cost).sum ≤ left (leftAt w.pc) := by
  have spent := run.budget cost (fun w => left (leftAt w.pc)) (fun w => w.arrived = true) seen
    (fun m l u here step => arrived_step here step)
    (fun m l u here step => pays (pays_step here step))
  exact (Nat.le_add_right _ _).trans spent

variable {rules : List Rule} {historyLen eventLogLen began : Nat}

/-- From the moment the thread sees the flag it scans, publishes and sleeps at most once more, the
sleep no longer than a slice, and takes no more than nine steps apart from the moves of that one
publication. -/
theorem stop_bounded
    (before : Run (Step R sys display interval) (spawn rules historyLen eventLogLen began) actions w)
    (seen : w.arrived = true) (after : Run (Step R sys display interval) w more w') :
    (more.map ownSteps).sum ≤ 9 ∧ (scans more).length ≤ 1 ∧
    (handed (actions ++ more)).length ≤ (handed actions).length + 1 ∧
    (more.map sleepsOne).sum ≤ 1 ∧ ∀ request, .sleep request ∈ more → request ≤ slice := by
  obtain ⟨steps,publishes,scanning,sleeping⟩ := leftAt_le w.pc
  refine ⟨?_,?_,?_,?_,?_⟩
  · exact (paid Pays.steps seen after).trans steps
  · rw [scans_sum]
    exact (paid Pays.scans seen after).trans scanning
  · have late := published_handed (before.append after)
    have early := published_handed before
    have counted := published_unlocks actions more
    have length := congrArg List.length late.1
    have length' := congrArg List.length early.1
    rw [length_sections] at length length'
    have extra := (paid Pays.unlocks seen after).trans publishes
    omega
  · exact (paid Pays.sleeps seen after).trans sleeping
  · intro request listed
    obtain ⟨front,rear,rfl⟩ := List.append_of_mem listed
    have whole := before.append after
    rw [← List.append_assoc] at whole
    obtain ⟨_,_,_,sleeps⟩ := counters_exact whole
    obtain ⟨_,_,_,_,short⟩ := sleeps (actions ++ front) request rear rfl
    exact short

theorem own_possible
    (run : Run (Step R sys display interval) (spawn rules historyLen eventLogLen began) actions w)
    (here : w.pc ≠ .exited) (awake : ∀ deadline wake, w.pc = .asleep deadline wake → wake ≤ w.now)
    (free : ∀ cycleStart work active, w.pc = .lock cycleStart work active → w.shared.hold = .readers []) :
    ∃ a w', OwnStep R sys display interval w a w' := by
  have paced := paced_run run
  have swapping := swapping_run run
  cases at_ : w.pc with
  | exited => exact absurd at_ here
  | check =>
    cases flag : w.arrived with
    | false => exact ⟨_,_,.proceed w at_ flag⟩
    | true => exact ⟨_,_,.exit w at_ flag⟩
  | start => exact ⟨_,_,.begin w at_⟩
  | scan cycleStart =>
    rw [Paced,at_] at paced
    let c : Cycle := ⟨.error ⟨.notFound,none⟩,w.now,.stored _,.stored _,.stored _,fun _ => w.now⟩
    have timed : Timed cycleStart w.now c := by
      refine ⟨paced.2,fun _ => Nat.le_refl _,fun _ => Nat.le_refl _,?_⟩
      intro cur ok
      cases ok
    exact ⟨_,_,.scan w cycleStart c at_ timed⟩
  | lock cycleStart work active =>
    exact ⟨_,_,.lock w cycleStart work active _ at_ (Guarded.lock_possible (free _ _ _ at_))⟩
  | swap cycleStart left =>
    have closed := swapping.mpr ⟨_,_,at_⟩
    cases left with
    | nil => exact ⟨_,_,.unlock w cycleStart _ at_ (Guarded.unlock_possible closed)⟩
    | cons move left => exact ⟨_,_,.write w cycleStart move left _ at_ (Guarded.write_possible closed move)⟩
  | count cycleStart => exact ⟨_,_,.count w cycleStart at_⟩
  | drift cycleStart =>
    cases left : restOf interval (w.now-cycleStart) with
    | some rest => exact ⟨_,_,.rest w cycleStart rest at_ left⟩
    | none => exact ⟨_,_,.overrun w cycleStart at_ left⟩
  | arm rest => exact ⟨_,_,.arm w rest at_⟩
  | wait deadline =>
    by_cases early : w.now < deadline
    · exact ⟨_,_,.wait w deadline at_ early⟩
    · exact ⟨_,_,.due w deadline at_ early⟩
  | poll deadline =>
    cases flag : w.arrived with
    | false => exact ⟨_,_,.poll w deadline at_ flag⟩
    | true => exact ⟨_,_,.quit w deadline at_ flag⟩
  | nap deadline => exact ⟨_,_,.nap w deadline at_⟩
  | asleep deadline wake => exact ⟨_,_,.rouse w deadline wake at_ (awake _ _ at_)⟩

theorem lock_open {cycleStart : Nat} {work : Work} {active : List (Text.Str × Text.Str × Nat)}
    (run : Run (Step R sys display interval) (spawn rules historyLen eventLogLen began) actions w)
    (at_ : w.pc = .lock cycleStart work active) : ∃ inside, w.shared.hold = .readers inside := by
  cases hold : w.shared.hold with
  | readers inside => exact ⟨inside,rfl⟩
  | writer =>
    obtain ⟨_,_,swap⟩ := (swapping_run run).mp hold
    rw [at_] at swap
    cases swap

/-- Until it is gone the thread can take a step, unless it sleeps or waits for a reader to leave. -/
theorem never_stuck
    (run : Run (Step R sys display interval) (spawn rules historyLen eventLogLen began) actions w) :
    w.pc = .exited ∨ (∃ a w', OwnStep R sys display interval w a w') ∨
    (∃ deadline wake, w.pc = .asleep deadline wake ∧ w.now < wake) ∨
    ∃ cycleStart work active r, w.pc = .lock cycleStart work active ∧ Guarded.Inside r w.shared := by
  by_cases here : w.pc = .exited
  · exact .inl here
  by_cases asleep : ∃ deadline wake, w.pc = .asleep deadline wake ∧ w.now < wake
  · exact .inr (.inr (.inl asleep))
  by_cases kept : ∃ cycleStart work active r, w.pc = .lock cycleStart work active ∧ Guarded.Inside r w.shared
  · exact .inr (.inr (.inr kept))
  refine .inr (.inl (own_possible run here ?_ ?_))
  · intro deadline wake at_
    by_contra early
    exact asleep ⟨deadline,wake,at_,Nat.lt_of_not_le early⟩
  · intro cycleStart work active at_
    obtain ⟨inside,hold⟩ := lock_open run at_
    cases inside with
    | nil => exact hold
    | cons r others => exact absurd ⟨cycleStart,work,active,r,at_,_,hold,List.mem_cons_self⟩ kept

/-- A joined thread is gone, and a thread that is gone stays gone. -/
def Gone (w : World ρ) : Prop := w.handle = .joined → w.pc = .exited

private theorem gone_step (gone : Gone w) (step : Step R sys display interval w a w') : Gone w' := by
  cases step with
  | own step =>
    intro joined
    cases step with
    | proceed at_ _ | begin at_ | scan _ _ at_ _ | lock _ _ _ _ at_ _ | write _ _ _ _ at_ _ | unlock _ _ at_ _
    | count _ at_ | rest _ _ at_ _ | overrun _ at_ _ | arm _ at_ | wait _ at_ _ | due _ at_ _ | poll _ at_ _
    | nap _ at_ | rouse _ _ at_ _ =>
      have out := gone joined
      rw [at_] at out
      cases out
    | exit | quit => rfl
  | other step =>
    cases step with
    | join at_ out => exact fun _ => out
    | request => exact nofun
    | time | enter | read | leave | arrive => exact gone

theorem joined_gone
    (run : Run (Step R sys display interval) (spawn rules historyLen eventLogLen began) actions w)
    (joined : w.handle = .joined) : w.pc = .exited := by
  have fresh : Gone (spawn rules historyLen eventLogLen began : World ρ) := nofun
  exact run.invariant fresh (fun m l u gone step => gone_step gone step) joined

private theorem exited_step (out : w.pc = .exited) (step : Step R sys display interval w a w') :
    w'.pc = .exited ∧ w'.shared.value = w.shared.value ∧ w'.ticks = w.ticks ∧ Action.scanned a = none := by
  cases step with
  | own step =>
    cases step with
    | proceed at_ _ | begin at_ | scan _ _ at_ _ | lock _ _ _ _ at_ _ | write _ _ _ _ at_ _ | unlock _ _ at_ _
    | count _ at_ | rest _ _ at_ _ | overrun _ at_ _ | arm _ at_ | wait _ at_ _ | due _ at_ _ | poll _ at_ _
    | nap _ at_ | rouse _ _ at_ _ | exit at_ _ | quit _ at_ _ =>
      rw [at_] at out
      cases out
  | other step =>
    cases step with
    | enter r g inner | read r seen g inner | leave r g inner =>
      refine ⟨out,?_,rfl,rfl⟩
      change g.value = w.shared.value
      generalize w.shared = before at inner
      cases inner
      rfl
    | time | request | arrive | join => exact ⟨out,rfl,rfl,rfl⟩

theorem exited_all
    (run : Run (Step R sys display interval) (spawn rules historyLen eventLogLen began) actions w)
    (out : w.pc = .exited) : handed actions = scans actions ∧ w.shared.hold ≠ .writer := by
  refine ⟨?_,?_⟩
  · obtain ⟨_,_,done⟩ := law_run run
    rw [out] at done
    obtain ⟨books,known,_⟩ := published_handed run
    have length := congrArg List.length (books.symm.trans done)
    rw [length_sections,length_sections] at length
    exact known.eq_of_length length
  · intro closed
    obtain ⟨_,_,at_⟩ := (swapping_run run).mp closed
    rw [out] at at_
    cases at_

/-- Once the handle has joined the thread, every turn that was begun has been handed over as a
whole, nothing is left under the lock, and nothing changes any more whatever readers do. -/
theorem join_final
    (before : Run (Step R sys display interval) (spawn rules historyLen eventLogLen began) actions w)
    (joined : w.handle = .joined) (after : Run (Step R sys display interval) w more w') :
    handed actions = scans actions ∧ (starts actions).length = (scans actions).length ∧
    w.shared.value = (samplerAfter R sys display rules historyLen eventLogLen (scans actions)).shared ∧
    w.shared.hold ≠ .writer ∧ w'.shared.value = w.shared.value ∧ w'.ticks = w.ticks ∧ scans more = [] := by
  have out := joined_gone before joined
  obtain ⟨all,open_⟩ := exited_all before out
  have value := value_handed before open_
  rw [all] at value
  have counts := counts_run before
  have begun : (starts actions).length = (scans actions).length := by
    have started := counts.started
    have published := counts.published
    rw [out] at started published
    have length := congrArg List.length (published_handed before).1
    rw [length_sections,all] at length
    exact started.trans (published.symm.trans length)
  have frozen : w'.pc = .exited ∧ w'.shared.value = w.shared.value ∧ w'.ticks = w.ticks ∧ scans more = [] := by
    induction after with
    | refl => exact ⟨out,rfl,rfl,rfl⟩
    | snoc more m a u _ step ih =>
      obtain ⟨here,same,ticks,none_⟩ := ih
      obtain ⟨there,same',ticks',nothing⟩ := exited_step here step
      refine ⟨there,same'.trans same,ticks'.trans ticks,?_⟩
      rw [scans_snoc,none_,nothing]
      rfl
  exact ⟨all,begun,value,open_,frozen.2⟩

end

theorem stop_bounded_scanning : ∃ more : List (Action Unit), scans more = [deserted] ∧ .access .unlock ∈ more ∧
    (more.map ownSteps).sum ≤ 9 := by
  let world : World Unit := spawn [] 1 1 0
  have idle : Run (Step .exact (sysConst none none) (fun _ => []) 1) world [] world := .refl
  have opening := (idle.next (.own (.proceed world rfl rfl))).next (.own (.begin {world with pc := .start} rfl))
  have asked := opening.next (.other (.request {world with pc := .scan 0} rfl))
  let stopping : World Unit := {world with pc := .scan 0, requested := true, handle := .joining}
  have seen := asked.next (.other (.arrive stopping rfl))
  let last : World Unit := {stopping with arrived := true}
  have rest : Run (Step .exact (sysConst none none) (fun _ => []) 1) last [] last := .refl
  have scanned := rest.next (.own (.scan last 0 deserted rfl deserted_timed))
  have taken := scanned.next (.own (.lock _ 0 _ _ _ rfl (Guarded.lock_possible rfl)))
  have published := taken.append (own_run (moves_finish 0 _ _ rfl rfl))
  exact ⟨_,rfl,by simp,(stop_bounded seen rfl published).1⟩

theorem never_stuck_waiting : ∃ w : World Unit, (∃ work active, w.pc = .lock 0 work active) ∧
    Guarded.Inside () w.shared ∧ (w.pc = .exited ∨ (∃ a w', OwnStep .exact (sysConst none none) (fun _ => []) 1 w a w') ∨
      (∃ deadline wake, w.pc = .asleep deadline wake ∧ w.now < wake) ∨
      ∃ cycleStart work active r, w.pc = .lock cycleStart work active ∧ Guarded.Inside r w.shared) := by
  let world : World Unit := spawn [] 1 1 0
  have idle : Run (Step .exact (sysConst none none) (fun _ => []) 1) world [] world := .refl
  have opening := (idle.next (.own (.proceed world rfl rfl))).next (.own (.begin {world with pc := .start} rfl))
  have scanned := opening.next (.own (.scan {world with pc := .scan 0} 0 deserted rfl deserted_timed))
  have entered := scanned.next (.other (.enter _ () _ (Guarded.enter_possible rfl ())))
  exact ⟨_,⟨_,_,rfl⟩,⟨_,rfl,List.mem_cons_self⟩,never_stuck entered⟩

theorem join_final_deserted : ∃ (w : World Unit) (actions : List (Action Unit)), scans actions = [deserted,deserted] ∧
    w.handle = .joined ∧ handed actions = scans actions ∧ w.shared.hold ≠ .writer ∧
    w.shared.value.activeAlerts = [("idle".toList,"system".toList,0)] := by
  obtain ⟨actions,u,run,scanned,at_,_,_,_⟩ := turns_twice deserted_timed [idle] 1 1
  have asked := (own_run run).next (.other (.request u (own_handle run)))
  have seen := asked.next (.other (.arrive _ rfl))
  have out := seen.next (.own (.exit _ at_ rfl))
  have joined := out.next (.other (.join _ rfl rfl))
  obtain ⟨all,_,value,open_,_⟩ := join_final joined rfl .refl
  have turns : scans (actions ++ [.request] ++ [.arrive] ++ [.exit] ++ [.join]) = [deserted,deserted] := by
    rw [scans_snoc,scans_snoc,scans_snoc,scans_snoc,scanned]
    rfl
  refine ⟨_,_,turns,rfl,all,open_,?_⟩
  rw [value,turns]
  decide +kernel

end Vitals.ThreadStop
