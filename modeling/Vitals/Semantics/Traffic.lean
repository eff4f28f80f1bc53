import Vitals.Kernel.Delta

/-! The traffic of a machine: what its interfaces have counted, loopback apart. -/
namespace Vitals.Semantics
open Kernel Text

def external (nets : List NetDev) : List NetDev := nets.filter (fun n => n.name ≠ "lo".toList)

/-- What the interfaces have counted together, not wrapped around. -/
def counted (counter : NetDev → UInt64) (nets : List NetDev) : Nat :=
  ((external nets).map (fun n => (counter n).toNat)).sum

/-- The four counters that are summed over the interfaces. -/
def summed : List (NetDev → UInt64) := [NetDev.rxBytes,NetDev.txBytes,NetDev.rxErrs,NetDev.txErrs]

def NetFits (nets : List NetDev) : Prop := ∀ counter ∈ summed, counted counter nets < 2^64

def SameInterfaces (prev cur : List NetDev) : Prop :=
  (prev.map NetDev.name).Nodup ∧ (cur.map NetDev.name).Perm (prev.map NetDev.name)

def countOf (counter : NetDev → UInt64) (nets : List NetDev) (name : Str) : Nat :=
  ((nets.find? (fun n => n.name = name)).map (fun n => (counter n).toNat)).getD 0

/-- The traffic between two readings interface by interface; a counter that went back
adds nothing. -/
def growth (counter : NetDev → UInt64) (prev cur : List NetDev) : Nat :=
  ((external cur).map (fun n => (counter n).toNat - countOf counter prev n.name)).sum

/-- A rate that has moved so many bytes within a time in nanoseconds. -/
def Moves (bps : F64) (duration : Nat) (amount : ℚ) : Prop := ∃ q, bps = .fin q ∧ q*(duration/10^9) = amount

/-- The same interfaces, none of whose counters went back. -/
def Advances (prev cur : List NetDev) : Prop :=
  ∃ paired, cur.Perm paired ∧
    List.Forall₂ (fun p n => n.name = p.name ∧ p.rxBytes ≤ n.rxBytes ∧ p.txBytes ≤ n.txBytes) prev paired

section
variable (c : Collector) (fs : Nat → FileSystem)

def netReadable (i : Nat) : Bool := ((fs i).readToString (c.root ++ ["net".toList,"dev".toList])).isOk

/-- The last scan so far that could read the interfaces. -/
def lastRead : Nat → Option Nat
  | 0 => if netReadable c fs 0 then some 0 else none
  | i+1 => if netReadable c fs (i+1) then some (i+1) else lastRead i

/-- One scan after another, each of a file system of its own. -/
structure NetRun (s : Nat → Sample) : Prop where
  collected : ∀ i, ∃ started finished, c.collect (fs i) started finished = .ok (s i)
  advances : ∀ i j, i ≤ j → netReadable c fs i = true → netReadable c fs j = true →
    Advances (s i).nets (s j).nets

/-- What came in or went out between the last reading before scan `i+1` and that scan. -/
def increase (s : Nat → Sample) (counter : NetDev → UInt64) (i : Nat) : Nat :=
  if netReadable c fs (i+1) then match lastRead c fs i with
    | some j => counted counter (s (i+1)).nets - counted counter (s j).nets
    | none => 0
  else 0

end
end Vitals.Semantics
