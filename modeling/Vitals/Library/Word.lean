import Mathlib.Algebra.Ring.Nat
import Mathlib.Tactic.Common

/-! Saturating and checked arithmetic on 64-bit words. A checked operation has no result
where the exact one is outside 64 bits. -/
namespace Vitals.Word

def saturatingSub (a b : UInt64) : UInt64 := if b ≤ a then a - b else 0

def saturatingMul (a b : UInt64) : UInt64 :=
  if a.toNat * b.toNat < 2^64 then a * b else UInt64.ofNat (2^64-1)

def checkedAdd (a b : UInt64) : Option UInt64 := if a.toNat + b.toNat < 2^64 then some (a + b) else none

def checkedSub (a b : UInt64) : Option UInt64 := if b ≤ a then some (a - b) else none

def checkedMul (a b : UInt64) : Option UInt64 := if a.toNat * b.toNat < 2^64 then some (a * b) else none

@[simp] theorem toNat_saturatingSub (a b : UInt64) : (saturatingSub a b).toNat = a.toNat - b.toNat := by
  unfold saturatingSub
  split
  · rename_i ordered
    exact UInt64.toNat_sub_of_le a b ordered
  · rename_i crossed
    have reversed : a.toNat ≤ b.toNat := Nat.le_of_lt (UInt64.lt_iff_toNat_lt.mp (UInt64.not_le.mp crossed))
    simp [Nat.sub_eq_zero_of_le reversed]

theorem toNat_saturatingMul (a b : UInt64) :
    (saturatingMul a b).toNat = min (a.toNat * b.toNat) (2^64-1) := by
  unfold saturatingMul
  split
  · rename_i small
    rw [UInt64.toNat_mul,Nat.mod_eq_of_lt small]
    omega
  · rename_i large
    have top : (UInt64.ofNat (2^64-1)).toNat = 2^64-1 := by decide
    rw [top]
    omega

theorem toNat_pos {x : UInt64} (nonzero : x ≠ 0) : 0 < x.toNat :=
  Nat.pos_of_ne_zero (fun zero => nonzero (UInt64.toNat_inj.mp zero))

/-- Saturation is not met where the subtrahend is the smaller. -/
theorem saturatingSub_eq {a b : UInt64} (ordered : b ≤ a) : saturatingSub a b = a - b := if_pos ordered

theorem toNat_add_of_fits {a b : UInt64} (fits : a.toNat + b.toNat < 2^64) : (a + b).toNat = a.toNat + b.toNat := by
  rw [UInt64.toNat_add,Nat.mod_eq_of_lt fits]

/-- A running sum is exact to the end, or leaves 64 bits at some term. -/
theorem foldlM_checkedAdd (terms : List UInt64) (start : UInt64) : terms.foldlM checkedAdd start =
    if start.toNat + (terms.map UInt64.toNat).sum < 2^64 then some (terms.foldl (· + ·) start) else none := by
  induction terms generalizing start with
  | nil => simp [start.toNat_lt]
  | cons term terms ih =>
    rw [List.foldlM_cons,checkedAdd,List.map_cons,List.sum_cons]
    by_cases fits : start.toNat + term.toNat < 2^64
    · rw [if_pos fits,Option.bind_eq_bind,Option.bind_some,ih,toNat_add_of_fits fits,Nat.add_assoc]
      rfl
    · have beyond : ¬ start.toNat + (term.toNat + (terms.map UInt64.toNat).sum) < 2^64 := by omega
      rw [if_neg fits,if_neg beyond]
      rfl

theorem toNat_foldl_add (terms : List UInt64) (start : UInt64) :
    (terms.foldl (· + ·) start).toNat = (start.toNat + (terms.map UInt64.toNat).sum) % 2^64 := by
  induction terms generalizing start with
  | nil => simp [Nat.mod_eq_of_lt start.toNat_lt]
  | cons term terms ih =>
    rw [List.foldl_cons,ih,UInt64.toNat_add,List.map_cons,List.sum_cons,Nat.mod_add_mod,Nat.add_assoc]

end Vitals.Word
