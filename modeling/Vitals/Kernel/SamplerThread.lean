import Vitals.Kernel.Sampler
import Vitals.Library.Guarded

/-! The sampler as a thread: `spawn`, the handle that stops it, and the readers of what it
shares. Every access to the lock, to a flag or to the clock is a step of its own and any
interleaving may happen. Times are nanoseconds of the monotonic clock. -/
namespace Vitals.Kernel
open Text Library

/-- Where the thread stands; `cycleStart` is the instant its turn began. -/
inductive Pc where
  | check
  | start
  | scan (cycleStart : Nat)
  | lock (cycleStart : Nat) (work : Work) (active : List (Str × Str × Nat))
  | swap (cycleStart : Nat) (left : List (Shared → Shared))
  | count (cycleStart : Nat)
  | drift (cycleStart : Nat)
  | arm (rest : Nat)
  | wait (deadline : Nat)
  | poll (deadline : Nat)
  | nap (deadline : Nat)
  | asleep (deadline wake : Nat)
  | exited

/-- The handle before `stop`, while it joins the thread, and after. -/
inductive Handle where
  | held
  | joining
  | joined
deriving DecidableEq

/-- `requested` is the stop flag as the handle has stored it and `arrived` as the thread loads
it: a relaxed store may take a while to be seen. -/
structure World (ρ : Type) where
  now : Nat
  pc : Pc
  prev : Option Sample
  engine : Engine
  shared : Guarded Shared ρ
  requested : Bool
  arrived : Bool
  handle : Handle
  ticks : UInt64
  overruns : UInt64

inductive Action (ρ : Type) where
  | time (passed : Nat)
  | proceed
  | begin (cycleStart : Nat)
  | scan (c : Cycle)
  | access (a : Access Shared ρ)
  | finish (spent : Nat)
  | sleep (request : Nat)
  | exit
  | request
  | arrive
  | join

def Duration.checkedSub (a b : Nat) : Option Nat := if b ≤ a then some (a-b) else none

/-- What is left of the interval, `none` where the scan took at least as long. -/
def restOf (interval spent : Nat) : Option Nat :=
  match Duration.checkedSub interval spent with
  | some rest => if rest ≠ 0 then some rest else none
  | none => none

/-- Duration::from_millis(50). -/
def slice : Nat := 50000000

section
variable (R : Rounding) (sys : SysConst) (display : IoError → Str) {ρ : Type}

def activeOf (e : Engine) (c : Cycle) : List (Str × Str × Nat) :=
  (e.active c.activeOrder c.clock).map (fun (r,s,d,_) => (r,s,d))

/-- The work of a turn; it reads nothing but the thread's own state. -/
def World.work (w : World ρ) (c : Cycle) : Work :=
  (Sampler.mk w.prev w.engine w.shared.value).work R sys display c

def pushPoint (p : HistoryPoint) (g : Shared) : Shared := {g with history := (g.history.push p).1}

def pushEvent (e : Event) (g : Shared) : Shared := {g with events := (g.events.push e).1}

def setLatest (s : Option Snapshot) (g : Shared) : Shared := {g with latest := s}

def setActive (active : List (Str × Str × Nat)) (g : Shared) : Shared := {g with activeAlerts := active}

def setError (err : Option Str) (g : Shared) : Shared := {g with lastError := err}

/-- The moves made under the write lock, in order. -/
def swaps (w : Work) (active : List (Str × Str × Nat)) : List (Shared → Shared) :=
  (w.snapshot.map (fun s => pushPoint (.ofSnapshot R s))).toList ++
  w.events.map (fun e => pushEvent e.2) ++
  (if w.snapshot.isSome then [setLatest w.snapshot] else []) ++
  [setActive active,setError w.err]

/-- The clock was read for the rules after the turn began, and for each alert after that. -/
structure Timed (cycleStart now : Nat) (c : Cycle) : Prop where
  started : cycleStart ≤ c.now
  reported : ∀ id, c.now ≤ c.clock id
  past : ∀ id, c.clock id ≤ now
  taken : ∀ cur, c.result = .ok cur → cycleStart ≤ cur.instant ∧ cur.instant ≤ c.now

/-- One step of the thread itself. -/
inductive OwnStep (interval : Nat) : World ρ → Action ρ → World ρ → Prop
  | proceed (w) (at_ : w.pc = .check) (run : w.arrived = false) :
      OwnStep interval w .proceed {w with pc := .start}
  | exit (w) (at_ : w.pc = .check) (stop : w.arrived = true) :
      OwnStep interval w .exit {w with pc := .exited}
  | begin (w) (at_ : w.pc = .start) :
      OwnStep interval w (.begin w.now) {w with pc := .scan w.now}
  | scan (w) (cycleStart) (c : Cycle) (at_ : w.pc = .scan cycleStart) (timed : Timed cycleStart w.now c) :
      OwnStep interval w (.scan c) {w with
        pc := .lock cycleStart (w.work R sys display c) (activeOf (w.work R sys display c).engine c)
        prev := (w.work R sys display c).prev
        engine := (w.work R sys display c).engine}
  | lock (w) (cycleStart work active) (g) (at_ : w.pc = .lock cycleStart work active)
      (step : Guarded.Step w.shared .lock g) :
      OwnStep interval w (.access .lock) {w with pc := .swap cycleStart (swaps R work active), shared := g}
  | write (w) (cycleStart) (move : Shared → Shared) (left) (g) (at_ : w.pc = .swap cycleStart (move :: left))
      (step : Guarded.Step w.shared (.write move) g) :
      OwnStep interval w (.access (.write move)) {w with pc := .swap cycleStart left, shared := g}
  | unlock (w) (cycleStart) (g) (at_ : w.pc = .swap cycleStart []) (step : Guarded.Step w.shared .unlock g) :
      OwnStep interval w (.access .unlock) {w with pc := .count cycleStart, shared := g}
  | count (w) (cycleStart) (at_ : w.pc = .count cycleStart) :
      OwnStep interval w .proceed {w with pc := .drift cycleStart, ticks := w.ticks + 1}
  | rest (w) (cycleStart rest) (at_ : w.pc = .drift cycleStart)
      (some_ : restOf interval (w.now-cycleStart) = some rest) :
      OwnStep interval w (.finish (w.now-cycleStart)) {w with pc := .arm rest}
  | overrun (w) (cycleStart) (at_ : w.pc = .drift cycleStart)
      (none_ : restOf interval (w.now-cycleStart) = none) :
      OwnStep interval w (.finish (w.now-cycleStart)) {w with pc := .check, overruns := w.overruns + 1}
  | arm (w) (rest) (at_ : w.pc = .arm rest) :
      OwnStep interval w .proceed {w with pc := .wait (w.now+rest)}
  | wait (w) (deadline) (at_ : w.pc = .wait deadline) (early : w.now < deadline) :
      OwnStep interval w .proceed {w with pc := .poll deadline}
  | due (w) (deadline) (at_ : w.pc = .wait deadline) (late : ¬ w.now < deadline) :
      OwnStep interval w .proceed {w with pc := .check}
  | poll (w) (deadline) (at_ : w.pc = .poll deadline) (run : w.arrived = false) :
      OwnStep interval w .proceed {w with pc := .nap deadline}
  | quit (w) (deadline) (at_ : w.pc = .poll deadline) (stop : w.arrived = true) :
      OwnStep interval w .exit {w with pc := .exited}
  | nap (w) (deadline) (at_ : w.pc = .nap deadline) :
      OwnStep interval w (.sleep (min (deadline-w.now) slice))
        {w with pc := .asleep deadline (w.now+min (deadline-w.now) slice)}
  | rouse (w) (deadline wake) (at_ : w.pc = .asleep deadline wake) (slept : wake ≤ w.now) :
      OwnStep interval w .proceed {w with pc := .wait deadline}

/-- Everything else that can happen: time passes, a reader comes, looks or goes, the handle
stores the stop flag, the thread gets to see it, the handle has joined. -/
inductive OtherStep : World ρ → Action ρ → World ρ → Prop
  | time (w) (passed : Nat) : OtherStep w (.time passed) {w with now := w.now+passed}
  | enter (w) (r : ρ) (g) (step : Guarded.Step w.shared (.enter r) g) :
      OtherStep w (.access (.enter r)) {w with shared := g}
  | read (w) (r : ρ) (seen : Shared) (g) (step : Guarded.Step w.shared (.read r seen) g) :
      OtherStep w (.access (.read r seen)) {w with shared := g}
  | leave (w) (r : ρ) (g) (step : Guarded.Step w.shared (.leave r) g) :
      OtherStep w (.access (.leave r)) {w with shared := g}
  | request (w) (at_ : w.handle = .held) :
      OtherStep w .request {w with requested := true, handle := .joining}
  | arrive (w) (stored : w.requested = true) : OtherStep w .arrive {w with arrived := true}
  | join (w) (at_ : w.handle = .joining) (gone : w.pc = .exited) :
      OtherStep w .join {w with handle := .joined}

inductive Step (interval : Nat) (w : World ρ) (a : Action ρ) (w' : World ρ) : Prop
  | own (step : OwnStep R sys display interval w a w')
  | other (step : OtherStep w a w')

end

/-- `spawn`: the world as the thread starts, at any instant. -/
def spawn {ρ : Type} (rules : List Rule) (historyLen eventLogLen now : Nat) : World ρ where
  now := now
  pc := .check
  prev := none
  engine := .new rules
  shared := ⟨⟨none,.new historyLen,.new eventLogLen,[],none⟩,.readers []⟩
  requested := false
  arrived := false
  handle := .held
  ticks := 0
  overruns := 0

end Vitals.Kernel
