import Vitals.ProgramPace
import Vitals.ThreadStop
import Vitals.ScreenText

/-! How the program ends. The main thread holds the guard only while it looks, so neither thread
can keep the other waiting for good, and a program that is to end can always still do so. -/
namespace Vitals.ProgramStop
open Kernel Library Semantics ThreadPublication ThreadStop ProgramOutput

section
variable {R : Rounding} {P : Fixed3} {sys : SysConst} {display : IoError → Text.Str} {o : Options} {rules : List Rule}
variable {began : Nat} {actions : List MainAction} {p p' : Program} {a : MainAction}

/-- The guard as the main thread's position tells it. -/
def Guarding (hold : Hold Unit) : MainPc → Prop
  | .inside | .looked => hold = .readers [()]
  | _ => hold = .writer ∨ hold = .readers []

def handleAt : MainPc → Handle
  | .joining => .joining
  | .done => .joined
  | _ => .held

structure Linked (p : Program) : Prop where
  hold : Guarding p.world.shared.hold p.pc
  handle : p.world.handle = handleAt p.pc
  stored : p.world.requested = true ↔ handleAt p.pc ≠ .held

theorem Guarding.outside {hold : Hold Unit} {pc : MainPc} (guarding : Guarding hold pc) (out : pc ≠ .inside ∧ pc ≠ .looked) :
    hold = .writer ∨ hold = .readers [] := by
  cases pc with
  | inside => exact absurd rfl out.1
  | looked => exact absurd rfl out.2
  | spawned | settling | top | decide | asleep | stopping | joining | done => exact guarding

/-- Whoever writes has the lock alone, so the main thread is outside. -/
theorem Guarding.changed {before after : Hold Unit} {pc : MainPc} (guarding : Guarding before pc)
    (mine : before = .writer ∨ before = .readers []) (next : after = .writer ∨ after = .readers []) :
    Guarding after pc := by
  cases pc with
  | inside | looked =>
    rcases mine with mine | mine <;> cases (guarding : before = .readers [()]).symm.trans mine
  | spawned | settling | top | decide | asleep | stopping | joining | done => exact next

private theorem linked_thread {w : World Unit} {b : Action Unit} (linked : Linked p)
    (step : OwnStep R sys display o.interval p.world b w) : Linked {p with world := w} := by
  obtain ⟨_,requested,_,handle⟩ := own_frame step
  refine ⟨?_,handle.trans linked.handle,requested ▸ linked.stored⟩
  cases step with
  | lock _ _ _ g at_ inner =>
    obtain ⟨free,closed⟩ := inner.holds
    exact linked.hold.changed (.inr free) (.inl closed)
  | write _ _ _ g at_ inner =>
    obtain ⟨before,after⟩ := inner.holds
    exact linked.hold.changed (.inl before) (.inl after)
  | unlock _ g at_ inner =>
    obtain ⟨before,after⟩ := inner.holds
    exact linked.hold.changed (.inl before) (.inr after)
  | proceed | exit | begin | scan | count | rest | overrun | arm | wait | due | poll | quit | nap | rouse =>
    exact linked.hold

private theorem linked_main (linked : Linked p) (step : MainStep R P o p a p') : Linked p' := by
  obtain ⟨hold,handle,stored⟩ := linked
  cases step with
  | settle at_ | begin wake at_ slept | break_ at_ ended | sleep at_ more | wake wake at_ slept =>
    rw [at_] at hold handle stored
    exact ⟨hold,handle,stored⟩
  | enter w at_ step =>
    rw [at_] at hold handle stored
    cases step with
    | enter r g inner =>
      obtain ⟨others,before,after⟩ := Guarded.enter_hold inner
      refine ⟨?_,handle,stored⟩
      rcases hold with closed | free
      · cases closed.symm.trans before
      · cases free.symm.trans before
        exact after
  | look seen w text at_ step shown =>
    rw [at_] at hold handle stored
    cases step with
    | read r seen g inner => exact ⟨(Guarded.read_hold inner).trans hold,handle,stored⟩
  | leave w at_ step =>
    rw [at_] at hold handle stored
    cases step with
    | leave r g inner =>
      obtain ⟨front,rear,before,after⟩ := Guarded.leave_hold inner
      refine ⟨.inr ?_,handle,stored⟩
      have one := Hold.readers.inj (before.symm.trans hold)
      have none_ : front ++ rear = [] := by
        have length := congrArg List.length one
        rw [List.length_append,List.length_cons,List.length_singleton] at length
        refine List.eq_nil_of_length_eq_zero ?_
        rw [List.length_append]
        omega
      rw [after,none_]
  | request w at_ step =>
    rw [at_] at hold
    cases step with
    | request held => exact ⟨hold,rfl,fun _ => nofun,fun _ => rfl⟩
  | join w at_ step =>
    rw [at_] at hold stored
    cases step with
    | join asked out => exact ⟨hold,rfl,fun _ => nofun,fun _ => stored.mpr nofun⟩

private theorem linked_run (run : Run (ProgramStep R P sys display o) (begun rules began) actions p) : Linked p := by
  induction run with
  | refl => exact ⟨.inr rfl,rfl,nofun,fun asked => absurd rfl asked⟩
  | snoc actions middle a last _ taken ih =>
    cases taken with
    | main step => exact linked_main ih step
    | thread b w label step same => exact same ▸ linked_thread ih step
    | time passed label same => exact same ▸ ⟨ih.hold,ih.handle,ih.stored⟩
    | arrive stored label same => exact same ▸ ⟨ih.hold,ih.handle,ih.stored⟩

/-- Nothing that can be seen makes the rendering fail. -/
theorem frame_some (R : Rounding) (P : Fixed3) (o : Options) (seen : Shared) : ∃ text, frame R P o seen = some text := by
  rw [frame]
  cases seen.latest with
  | none => exact ⟨_,rfl⟩
  | some snap =>
    cases json : o.json with
    | true => exact ⟨_,rfl⟩
    | false => exact ⟨_,congrArg (Option.map _) (ScreenText.renderText_eq R seen snap o.top o.once)⟩

/-- What the main thread asks the lock or the handle for is there, unless the sampler has it. -/
theorem main_possible (linked : Linked p) (out : p.pc ≠ .done)
    (awake : ∀ wake, p.pc = .settling wake ∨ p.pc = .asleep wake → wake ≤ p.world.now)
    (free : p.pc = .top → p.world.shared.hold ≠ .writer) (gone : p.pc = .joining → p.world.pc = .exited) :
    ∃ a p', MainStep R P o p a p' := by
  obtain ⟨hold,handle,_⟩ := linked
  cases at_ : p.pc with
  | spawned => exact ⟨_,_,.settle p at_⟩
  | settling wake => exact ⟨_,_,.begin p wake at_ (awake wake (.inl at_))⟩
  | top =>
    rw [at_] at hold
    rcases hold with closed | open_
    · exact absurd closed (free at_)
    · exact ⟨_,_,.enter p _ at_ (.enter _ () _ (Guarded.enter_possible open_ ()))⟩
  | inside =>
    rw [at_] at hold
    obtain ⟨text,shown⟩ := frame_some R P o p.world.shared.value
    exact ⟨_,_,.look p _ _ text at_ (.read _ () _ _ (Guarded.read_possible hold List.mem_cons_self)) shown⟩
  | looked =>
    rw [at_] at hold
    exact ⟨_,_,.leave p _ at_ (.leave _ () _ (Guarded.leave_possible [] [] hold))⟩
  | decide =>
    cases ended : enough o (p.world.now-p.start) with
    | true => exact ⟨_,_,.break_ p at_ ended⟩
    | false => exact ⟨_,_,.sleep p at_ ended⟩
  | asleep wake => exact ⟨_,_,.wake p wake at_ (awake wake (.inr at_))⟩
  | stopping =>
    rw [at_] at handle
    exact ⟨_,_,.request p _ at_ (.request _ handle)⟩
  | joining =>
    rw [at_] at handle
    exact ⟨_,_,.join p _ at_ (.join _ handle (gone at_))⟩
  | done => exact absurd at_ out

/-- One thread at a time is inside, the main thread for nothing but its look and never on its way
to sleep or to the join. Unless it has ended, the program can take a step or will after some
time. -/
theorem never_deadlocked (run : Run (ProgramStep R P sys display o) (begun rules began) actions p) :
    (Guarded.Inside () p.world.shared ↔ p.pc = .inside ∨ p.pc = .looked) ∧
    (Guarded.Inside () p.world.shared → ∃ a p', MainStep R P o p a p') ∧
    (p.pc = .done ∨ (∃ a p', MainStep R P o p a p') ∨
      (∃ b w, OwnStep R sys display o.interval p.world b w) ∨
      ∃ wake, p.world.now < wake ∧ (p.pc = .settling wake ∨ p.pc = .asleep wake ∨
        p.pc = .joining ∧ ∃ deadline, p.world.pc = .asleep deadline wake)) := by
  have linked := linked_run run
  have whole := world_run run
  have inside : Guarded.Inside () p.world.shared ↔ p.pc = .inside ∨ p.pc = .looked := by
    constructor
    · intro here
      obtain ⟨readers,hold,member⟩ := here
      by_contra out
      rcases linked.hold.outside (not_or.mp out) with closed | free
      · cases hold.symm.trans closed
      · cases hold.symm.trans free
        cases member
    · intro at_
      have hold := linked.hold
      rcases at_ with at_ | at_ <;> rw [at_] at hold <;> exact ⟨_,hold,List.mem_cons_self⟩
  refine ⟨inside,?_,?_⟩
  · intro here
    rcases inside.mp here with at_ | at_ <;> refine main_possible linked ?_ ?_ ?_ ?_ <;> rw [at_] <;> simp
  · by_cases ended : p.pc = .done
    · exact .inl ended
    by_cases early : ∃ wake, p.world.now < wake ∧ (p.pc = .settling wake ∨ p.pc = .asleep wake)
    · obtain ⟨wake,ahead,at_⟩ := early
      exact .inr (.inr (.inr ⟨wake,ahead,at_.imp_right .inl⟩))
    by_cases kept : p.pc = .top ∧ p.world.shared.hold = .writer
    · -- the sampler is inside and needs nobody to go on
      obtain ⟨_,_,swap⟩ := (swapping_run whole).mp kept.2
      refine .inr (.inr (.inl (own_possible whole ?_ ?_ ?_))) <;> rw [swap] <;> simp
    by_cases waiting : p.pc = .joining ∧ p.world.pc ≠ .exited
    · by_cases asleep : ∃ deadline wake, p.world.pc = .asleep deadline wake ∧ p.world.now < wake
      · obtain ⟨deadline,wake,at_,ahead⟩ := asleep
        exact .inr (.inr (.inr ⟨wake,ahead,.inr (.inr ⟨waiting.1,deadline,at_⟩)⟩))
      · refine .inr (.inr (.inl (own_possible whole waiting.2 ?_ ?_)))
        · intro deadline wake at_
          by_contra ahead
          exact asleep ⟨deadline,wake,at_,Nat.lt_of_not_le ahead⟩
        · intro cycleStart work active at_
          have hold := linked.hold
          rw [waiting.1] at hold
          obtain ⟨readers,open_⟩ := lock_open whole at_
          exact hold.resolve_left (fun closed => by cases open_.symm.trans closed)
    refine .inr (.inl (main_possible linked ended ?_ ?_ ?_))
    · intro wake at_
      by_contra ahead
      exact early ⟨wake,Nat.lt_of_not_le ahead,at_⟩
    · exact fun at_ closed => kept ⟨at_,closed⟩
    · intro at_
      by_contra out
      exact waiting ⟨at_,out⟩

variable (R P sys display o rules began)

def Leads (p q : Program) : Prop := ∃ more, Run (ProgramStep R P sys display o) p more q

/-- From here the program can end. -/
def Ends (p : Program) : Prop := ∃ q, Leads R P sys display o p q ∧ q.pc = .done

def Reached (p : Program) : Prop := Leads R P sys display o (begun rules began) p

variable {R P sys display o rules began}
variable {q : Program}

theorem Leads.trans {r : Program} (first : Leads R P sys display o p q) (rest : Leads R P sys display o q r) :
    Leads R P sys display o p r := by
  obtain ⟨more,run⟩ := first
  obtain ⟨later,run'⟩ := rest
  exact ⟨_,run.append run'⟩

theorem Leads.step (step : ProgramStep R P sys display o p a q) : Leads R P sys display o p q := ⟨_,Run.refl.next step⟩

theorem Leads.main (step : MainStep R P o p a q) : Leads R P sys display o p q := .step (.main step)

theorem Leads.ends (first : Leads R P sys display o p q) (ends : Ends R P sys display o q) : Ends R P sys display o p := by
  obtain ⟨last,rest,ended⟩ := ends
  exact ⟨last,first.trans rest,ended⟩

private theorem Reached.linked (reached : Reached R P sys display o rules began p) : Linked p := by
  obtain ⟨actions,run⟩ := reached
  exact linked_run run

private theorem lock_released (reached : Reached R P sys display o rules began p)
    (out : p.pc ≠ .inside ∧ p.pc ≠ .looked) :
    ∃ w, Leads R P sys display o p {p with world := w} ∧ w.shared.hold = .readers [] ∧ w.now = p.world.now := by
  obtain ⟨actions,run⟩ := reached
  rcases (linked_run run).hold.outside out with closed | free
  · obtain ⟨cycleStart,left,at_⟩ := (swapping_run (world_run run)).mp closed
    exact ⟨_,⟨_,thread_run p rfl (moves_finish cycleStart left p.world at_ closed)⟩,rfl,rfl⟩
  · exact ⟨p.world,⟨_,.refl⟩,free,rfl⟩

private theorem look_finished (at_ : p.pc = .inside) (hold : p.world.shared.hold = .readers [()]) :
    ∃ q, Leads R P sys display o p q ∧ q.pc = .decide ∧ q.start = p.start ∧ q.world.now = p.world.now := by
  obtain ⟨text,shown⟩ := frame_some R P o p.world.shared.value
  have read := Guarded.read_possible hold List.mem_cons_self
  have look : Leads R P sys display o p _ := .main (.look p _ _ text at_ (.read _ () _ _ read) shown)
  exact ⟨_,look.trans (.main (.leave _ _ rfl (.leave _ () _ (Guarded.leave_possible [] [] hold)))),rfl,rfl,rfl⟩

private theorem look_taken (reached : Reached R P sys display o rules began p) (at_ : p.pc = .top) :
    ∃ q, Leads R P sys display o p q ∧ q.pc = .decide ∧ q.start = p.start ∧ q.world.now = p.world.now := by
  have out : p.pc ≠ .inside ∧ p.pc ≠ .looked := by simp [at_]
  obtain ⟨w,opens,free,clock⟩ := lock_released reached out
  let inner : Program := {p with pc := .inside, world := {w with shared := ⟨w.shared.value,.readers [()]⟩}}
  have enter : Leads R P sys display o {p with world := w} inner :=
    .main (.enter _ _ at_ (.enter _ () _ (Guarded.enter_possible free ())))
  have look : ∃ q, Leads R P sys display o inner q ∧ q.pc = .decide ∧ q.start = p.start ∧ q.world.now = w.now :=
    look_finished rfl rfl
  obtain ⟨q,looks,decide,start,now⟩ := look
  exact ⟨q,(opens.trans enter).trans looks,decide,start,now.trans clock⟩

private theorem join_ends (reached : Reached R P sys display o rules began p) (at_ : p.pc = .joining)
    (out : p.world.pc = .exited) : Ends R P sys display o p := by
  have handle := reached.linked.handle
  rw [at_] at handle
  exact ⟨_,.main (.join p _ at_ (.join _ handle out)),rfl⟩

private theorem own_counted {w w' : World Unit} {b : Action Unit} (step : OwnStep R sys display o.interval w b w')
    (out : ∀ cycleStart left, w.pc ≠ .swap cycleStart left) : ownSteps b = 1 := by
  cases step with
  | write _ _ _ _ at_ _ | unlock _ _ at_ _ => exact absurd at_ (out _ _)
  | proceed | exit | begin | scan | lock | count | rest | overrun | arm | wait | due | poll | quit | nap
  | rouse => rfl

private theorem slept_after (w : World Unit) :
    ∃ passed, ∀ deadline wake, w.pc = .asleep deadline wake → wake ≤ w.now+passed := by
  by_cases asleep : ∃ deadline wake, w.pc = .asleep deadline wake
  · obtain ⟨deadline,wake,at_⟩ := asleep
    refine ⟨wake,?_⟩
    intro _ _ here
    cases here.symm.trans at_
    exact Nat.le_add_left _ _
  · exact ⟨0,fun deadline wake here => absurd ⟨deadline,wake,here⟩ asleep⟩

/-- A thread that is told to stop comes to its end, given time; the induction is on the steps it
has left. -/
theorem thread_ends (n : Nat) (reached : Reached R P sys display o rules began p) (at_ : p.pc = .joining)
    (told : p.world.arrived = true) (near : (leftAt p.world.pc).steps ≤ n) : Ends R P sys display o p := by
  induction n generalizing p with
  | zero =>
    refine join_ends reached at_ ?_
    cases here : p.world.pc <;> rw [here] at near <;> simp [leftAt] at near
  | succ n ih =>
    by_cases out : p.world.pc = .exited
    · exact join_ends reached at_ out
    obtain ⟨actions,run⟩ := reached
    by_cases swapping : ∃ cycleStart left, p.world.pc = .swap cycleStart left
    · obtain ⟨cycleStart,left,moving⟩ := swapping
      have closed := (swapping_run (world_run run)).mpr ⟨_,_,moving⟩
      have moves : Leads R P sys display o p _ := ⟨_,thread_run p rfl (moves_finish cycleStart left p.world moving closed)⟩
      rw [moving] at near
      exact moves.ends (ih (.trans ⟨_,run⟩ moves) at_ told (Nat.le_of_succ_le_succ near))
    · have moving : ∀ cycleStart left, p.world.pc ≠ .swap cycleStart left :=
        fun cycleStart left here => swapping ⟨cycleStart,left,here⟩
      obtain ⟨passed,slept⟩ := slept_after p.world
      let later : Program := {p with world := {p.world with now := p.world.now+passed}}
      have waits : Leads R P sys display o p later := .step (.time passed rfl rfl)
      obtain ⟨more,run'⟩ := Leads.trans ⟨_,run⟩ waits
      have free : ∀ cycleStart work active, later.world.pc = .lock cycleStart work active →
          later.world.shared.hold = .readers [] := by
        intro cycleStart work active here
        have hold := (linked_run run').hold
        rw [show later.pc = .joining from at_] at hold
        obtain ⟨readers,open_⟩ := lock_open (world_run run') here
        exact hold.resolve_left (fun closed => by cases open_.symm.trans closed)
      obtain ⟨b,w,step⟩ := own_possible (world_run run') out slept free
      have goes : Leads R P sys display o later {later with world := w} := .step (.thread b w rfl step rfl)
      have seen : later.world.arrived = true := told
      have paid := (pays_own seen step).steps
      rw [own_counted step moving] at paid
      have nearer : (leftAt w.pc).steps ≤ n := by
        have start : (leftAt later.world.pc).steps ≤ n+1 := near
        omega
      have still : w.arrived = true := (own_frame step).2.2.1.trans told
      exact (waits.trans goes).ends (ih (.trans ⟨_,run'⟩ goes) at_ still nearer)

private theorem stopping_ends (reached : Reached R P sys display o rules began p) (at_ : p.pc = .stopping) :
    Ends R P sys display o p := by
  have handle := reached.linked.handle
  rw [at_] at handle
  have asks : Leads R P sys display o p _ := .main (.request p _ at_ (.request _ handle))
  have tells := asks.trans (.step (.arrive rfl rfl rfl))
  exact tells.ends (thread_ends _ (.trans reached tells) rfl rfl (Nat.le_refl _))

private theorem over_ends (reached : Reached R P sys display o rules began p) (at_ : p.pc = .decide)
    (ended : enough o (p.world.now-p.start) = true) : Ends R P sys display o p := by
  have breaks : Leads R P sys display o p _ := .main (.break_ p at_ ended)
  exact breaks.ends (stopping_ends (.trans reached breaks) rfl)

variable (limited : o.once = true ∨ o.runFor.isSome = true)
include limited

private theorem decide_ends (reached : Reached R P sys display o rules began p) (at_ : p.pc = .decide) :
    Ends R P sys display o p := by
  cases ended : enough o (p.world.now-p.start) with
  | true => exact over_ends reached at_ ended
  | false =>
    obtain ⟨d,given⟩ : ∃ d, o.runFor = some d := by
      rcases limited with once | given
      · rw [enough,once,Bool.true_or] at ended
        cases ended
      · exact Option.isSome_iff_exists.mp given
    have sleeps : Leads R P sys display o p _ := .main (.sleep p at_ ended)
    have waits := sleeps.trans (.step (.time (o.interval+p.start+d) rfl rfl))
    have wakes := waits.trans (.main (.wake _ _ rfl (by simp [Nat.add_assoc])))
    obtain ⟨q,looks,decide,start,now⟩ := look_taken (.trans reached wakes) rfl
    refine (wakes.trans looks).ends (over_ends (.trans (.trans reached wakes) looks) decide ?_)
    rw [ProgramPace.enough_iff,now,start]
    exact .inr ⟨d,given,by simp; omega⟩

private theorem top_ends (reached : Reached R P sys display o rules began p) (at_ : p.pc = .top) :
    Ends R P sys display o p := by
  obtain ⟨q,looks,decide,_,_⟩ := look_taken reached at_
  exact looks.ends (decide_ends limited (.trans reached looks) decide)

private theorem settling_ends {wake : Nat} (reached : Reached R P sys display o rules began p)
    (at_ : p.pc = .settling wake) :
    Ends R P sys display o p := by
  have waits : Leads R P sys display o p _ := .step (.time wake rfl rfl)
  have begins := waits.trans (.main (.begin _ wake at_ (Nat.le_add_left _ _)))
  exact begins.ends (top_ends limited (.trans reached begins) rfl)

/-- A program that is told when to end can always still do so, wherever its threads are. -/
theorem limited_ends (reached : Reached R P sys display o rules began p) : Ends R P sys display o p := by
  cases at_ : p.pc with
  | spawned =>
    have settles : Leads R P sys display o p _ := .main (.settle p at_)
    exact settles.ends (settling_ends limited (.trans reached settles) rfl)
  | settling wake => exact settling_ends limited reached at_
  | top => exact top_ends limited reached at_
  | inside =>
    have hold := reached.linked.hold
    rw [at_] at hold
    obtain ⟨q,looks,decide,_,_⟩ := look_finished at_ hold
    exact looks.ends (decide_ends limited (.trans reached looks) decide)
  | looked =>
    have hold := reached.linked.hold
    rw [at_] at hold
    have leaves : Leads R P sys display o p _ := .main (.leave p _ at_ (.leave _ () _ (Guarded.leave_possible [] [] hold)))
    exact leaves.ends (decide_ends limited (.trans reached leaves) rfl)
  | decide => exact decide_ends limited reached at_
  | asleep wake =>
    have waits : Leads R P sys display o p _ := .step (.time wake rfl rfl)
    have wakes := waits.trans (.main (.wake _ wake at_ (Nat.le_add_left _ _)))
    exact wakes.ends (top_ends limited (.trans reached wakes) rfl)
  | stopping => exact stopping_ends reached at_
  | joining =>
    have stored := reached.linked.stored
    rw [at_] at stored
    have tells : Leads R P sys display o p _ := .step (.arrive (stored.mpr nofun) rfl rfl)
    exact tells.ends (thread_ends _ (.trans reached tells) at_ rfl (Nat.le_refl _))
  | done => exact ⟨p,⟨_,.refl⟩,at_⟩

omit limited in
/-- Wherever the threads stand, the program can still come to its end if and only if `--once` or
`--duration` was given, and when it has ended the sampler is gone, the lock is free and every turn
that was scanned has been handed over. -/
theorem program_ends (run : Run (ProgramStep R P sys display o) (begun rules began) actions p) :
    ((∃ more q, Run (ProgramStep R P sys display o) p more q ∧ q.pc = .done) ↔
      o.once = true ∨ o.runFor.isSome = true) ∧
    (p.pc = .done → p.world.pc = .exited ∧ p.world.shared.hold = .readers [] ∧
      handed (worldActions actions) = scans (worldActions actions) ∧
      p.world.shared.value = sharedAfter R sys display rules (scans (worldActions actions))) := by
  refine ⟨⟨?_,?_⟩,?_⟩
  · intro ends
    obtain ⟨more,q,rest,ended⟩ := ends
    have placed := (ProgramPace.kept_run (run.append rest)).placed
    rw [ProgramPace.Placed,ended] at placed
    rcases ProgramPace.enough_iff.mp placed.2 with once | ⟨d,given,_⟩
    · exact .inl once
    · exact .inr (Option.isSome_iff_exists.mpr ⟨d,given⟩)
  · intro limited
    obtain ⟨q,⟨more,rest⟩,ended⟩ := limited_ends limited ⟨actions,run⟩
    exact ⟨more,q,rest,ended⟩
  · intro ended
    have whole := world_run run
    have linked := linked_run run
    have handle := linked.handle
    rw [ended] at handle
    have out := joined_gone whole handle
    obtain ⟨all,open_⟩ := exited_all whole out
    refine ⟨out,?_,all,?_⟩
    · have hold := linked.hold
      rw [ended] at hold
      exact hold.resolve_left open_
    · rw [value_handed whole open_,all]
      rfl

end

theorem program_ends_document : ∃ (actions : List MainAction) (p : Program), p.out ≠ [] ∧
    (∃ more q, Run (ProgramStep .exact .halfEven (sysConst none none) (fun _ => []) onceJson) p more q ∧ q.pc = .done) ∧
    p.world.pc = .exited ∧ handed (worldActions actions) = scans (worldActions actions) := by
  obtain ⟨actions,p,run,ended,some_⟩ := deserted_document
  obtain ⟨possible,last⟩ := program_ends run
  obtain ⟨out,_,all,_⟩ := last ended
  exact ⟨actions,p,some_,possible.mpr (.inl rfl),out,all⟩

theorem never_deadlocked_inside : ∃ p : Program, p.pc = .inside ∧
    ∃ a p', MainStep .exact .halfEven onceJson p a p' := by
  have idle : Run (ProgramStep .exact .halfEven (sysConst none none) (fun _ => []) onceJson) (begun [] 0) [] _ := .refl
  have waited := (idle.next (.main (.settle _ rfl))).next (.time margin rfl rfl)
  have begins := waited.next (.main (.begin _ _ rfl (by simp [onceJson])))
  have entered := begins.next (.main (.enter _ _ rfl (.enter _ () _ (Guarded.enter_possible rfl ()))))
  obtain ⟨inside,looks,_⟩ := never_deadlocked entered
  exact ⟨_,rfl,looks (inside.mpr (.inl rfl))⟩

end Vitals.ProgramStop
