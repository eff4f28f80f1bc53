import Mathlib.Data.List.Basic
import Mathlib.Tactic.Common

/-! The fixed-capacity history buffer: `ring.rs`. Every slot that is read or written is
indexed under a bound that the buffer itself carries. -/
namespace Vitals.Kernel

structure Ring (α : Type) where
  slots : List (Option α)
  head : Nat
  len : Nat
  pushed : UInt64
  head_lt : head < slots.length
  len_le : len ≤ slots.length

namespace Ring
variable {α : Type}

/-- Capacity is clamped to at least 1. -/
def new (capacity : Nat) : Ring α where
  slots := List.replicate (max capacity 1) none
  head := 0
  len := 0
  pushed := 0
  head_lt := by
    rw [List.length_replicate]
    omega
  len_le := Nat.zero_le _

def capacity (r : Ring α) : Nat := r.slots.length

def isEmpty (r : Ring α) : Bool := r.len = 0

def isFull (r : Ring α) : Bool := r.len = r.slots.length

def totalPushed (r : Ring α) : UInt64 := r.pushed

theorem capacity_pos (r : Ring α) : 0 < r.slots.length := Nat.zero_lt_of_lt r.head_lt

/-- Overwrites the oldest entry if full, and returns what it overwrites. -/
def push (r : Ring α) (v : α) : Ring α × Option α :=
  ({ slots := r.slots.set r.head (some v)
     head := (r.head+1) % r.slots.length
     len := if r.len < r.slots.length then r.len+1 else r.len
     pushed := r.pushed+1
     head_lt := by
       rw [List.length_set]
       exact Nat.mod_lt _ r.capacity_pos
     len_le := by
       have bound := r.len_le
       rw [List.length_set]
       split <;> omega },
  r.slots.get ⟨r.head,r.head_lt⟩)

/-- Index 0 is the oldest live item: it sits at the cursor once the buffer is full. -/
def phys (r : Ring α) (logical : Nat) : Nat :=
  let start := if r.len = r.slots.length then r.head else 0
  (start + logical) % r.slots.length

theorem phys_lt (r : Ring α) (logical : Nat) : r.phys logical < r.slots.length :=
  Nat.mod_lt _ r.capacity_pos

def get (r : Ring α) (logical : Nat) : Option α :=
  if r.len ≤ logical then none else r.slots.get ⟨r.phys logical,r.phys_lt logical⟩

def last (r : Ring α) : Nat := (r.head + r.slots.length - 1) % r.slots.length

theorem last_lt (r : Ring α) : r.last < r.slots.length := Nat.mod_lt _ r.capacity_pos

def newest (r : Ring α) : Option α :=
  if r.len = 0 then none else r.slots.get ⟨r.last,r.last_lt⟩

def oldest (r : Ring α) : Option α := r.get 0

def iterChrono (r : Ring α) : List α := (List.range r.len).filterMap r.get

def clear (r : Ring α) : Ring α where
  slots := r.slots.map (fun _ => none)
  head := 0
  len := 0
  pushed := r.pushed
  head_lt := by
    rw [List.length_map]
    exact r.capacity_pos
  len_le := Nat.zero_le _

end Ring
end Vitals.Kernel
