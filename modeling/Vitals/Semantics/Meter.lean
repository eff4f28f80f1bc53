import Vitals.Semantics.Cycles

/-! Meters: what the kernel counts upwards, and the part of it that a snapshot accounts for. -/
namespace Vitals.Semantics
open Kernel

/-- How much a rate has moved within a time in nanoseconds. -/
def movedBy (bps : F64) (duration : Nat) : ℚ :=
  (match bps with
    | .fin q => q
    | _ => 0)*(duration/10^9)

/-- A counter that some samples show, and what a snapshot makes of it: exactly its growth between
the two samples compared, where both show it and time has passed. -/
structure Meter (sys : SysConst) where
  read : Sample → Option Nat
  amount : Snapshot → ℚ
  exact : ∀ (order : Iteration (Σ _ : ProcKey, ProcSample)) (prev cur : Sample) (a b : Nat),
    prev.instant < cur.instant → read prev = some a → read cur = some b →
    amount (diff .exact sys order prev cur) = ((b-a : Nat) : ℚ)

def Meter.total {sys : SysConst} (m : Meter sys) (snaps : List Snapshot) : ℚ := (snaps.map m.amount).sum

/-- The scans went forward in time. -/
def Forward (cycles : List Cycle) : Prop :=
  ((successes cycles).map (fun s => s.2.instant)).Pairwise (· < ·)

/-- The readings of a meter by the successful scans from number `i` on. -/
def Metered {sys : SysConst} (m : Meter sys) (cycles : List Cycle) (i n : Nat) (count : Nat → Nat) : Prop :=
  ∀ k ≤ n, ∃ s, (successes cycles)[i+k]? = some s ∧ m.read s.2 = some (count k)

end Vitals.Semantics
