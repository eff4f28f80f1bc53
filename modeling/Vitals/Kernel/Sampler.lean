import Vitals.Kernel.Engine
import Vitals.Kernel.Ring

/-! The background sampler: `sampler.rs`. One turn of the loop does all its work on the
thread's own state and then hands the results over to the shared one. -/
namespace Vitals.Kernel
open Text

structure HistoryPoint where
  cpuPct : F64
  memPct : F64
  netRxBps : F64
  netTxBps : F64
  procCount : UInt32
  scanMicros : UInt64
deriving DecidableEq

/-- What the readers see. An active alert is its rule, its subject and its duration. -/
structure Shared where
  latest : Option Snapshot
  history : Ring HistoryPoint
  events : Ring Event
  activeAlerts : List (Str × Str × Nat)
  lastError : Option Str

structure Sampler where
  prev : Option Sample
  engine : Engine
  shared : Shared

/-- What one turn of the loop meets: a scan, the clock as it is read for the rules and for
each alert, and the orders in which the hash maps happen to be visited. -/
structure Cycle where
  result : Except IoError Sample
  now : Nat
  procOrder : Iteration (Σ _ : ProcKey, ProcSample)
  stateOrder : Iteration (Σ _ : SubjectId, State)
  activeOrder : Iteration (Σ _ : SubjectId, State)
  clock : SubjectId → Nat

/-- The results of a turn before the lock is taken. -/
structure Work where
  prev : Option Sample
  engine : Engine
  snapshot : Option Snapshot
  events : List (SubjectId × Event)
  err : Option Str

section
variable (R : Rounding) (sys : SysConst) (display : IoError → Str)

def HistoryPoint.ofSnapshot (s : Snapshot) : HistoryPoint where
  cpuPct := s.system.cpuPct
  memPct := s.system.mem.usedPct R
  netRxBps := s.system.netRxBps
  netTxBps := s.system.netTxBps
  procCount := UInt32.ofNat s.system.procCount
  scanMicros := UInt64.ofNat (s.system.scanTime / 1000)

namespace Sampler

def new (rules : List Rule) (historyLen eventLogLen : Nat) : Sampler :=
  ⟨none,.new rules,⟨none,.new historyLen,.new eventLogLen,[],none⟩⟩

def work (s : Sampler) (c : Cycle) : Work :=
  match c.result with
  | .ok cur => match s.prev with
    | some p =>
      let snap := diff R sys c.procOrder p cur
      let evaluated := s.engine.evaluate R snap c.now c.stateOrder
      ⟨some cur,evaluated.1,some snap,evaluated.2,none⟩
    | none => ⟨some cur,s.engine,none,[],none⟩
  | .error e => ⟨s.prev,s.engine,none,[],some (display e)⟩

def handover (shared : Shared) (w : Work) (active : List (Str × Str × Nat)) : Shared where
  history := match w.snapshot with
    | some s => (shared.history.push (.ofSnapshot R s)).1
    | none => shared.history
  events := w.events.foldl (fun ring e => (ring.push e.2).1) shared.events
  latest := if w.snapshot.isSome then w.snapshot else shared.latest
  activeAlerts := active
  lastError := w.err

def cycle (s : Sampler) (c : Cycle) : Sampler :=
  let w := s.work R sys display c
  let active := (w.engine.active c.activeOrder c.clock).map (fun (r,s,d,_) => (r,s,d))
  ⟨w.prev,w.engine,handover R s.shared w active⟩

end Sampler
end
end Vitals.Kernel
