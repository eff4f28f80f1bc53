import Mathlib.Algebra.Order.Field.Rat
import Mathlib.Data.Rat.Floor
import Mathlib.Algebra.Ring.Nat
import Mathlib.Tactic.Linarith
import Mathlib.Tactic.NormNum

/-! The natural number nearest to a rational one, ties to even. -/
namespace Vitals.Nearest

def nearest (x : ℚ) : Nat :=
  let down := x.floor.toNat
  if x-down < 1/2 ∨ x-down = 1/2 ∧ down % 2 = 0 then down else down+1

theorem floor_bounds {x : ℚ} (nonneg : 0 ≤ x) : (x.floor.toNat : ℚ) ≤ x ∧ x < x.floor.toNat+1 := by
  have whole : ((x.floor.toNat : Int) : ℚ) = x.floor := by
    rw [Int.toNat_of_nonneg (Rat.le_floor_iff.mpr (by exact_mod_cast nonneg))]
  rw [Int.cast_natCast] at whole
  rw [whole]
  have above := Rat.lt_floor_add_one x
  rw [Int.cast_add,Int.cast_one] at above
  exact ⟨Rat.floor_le x,above⟩

theorem floor_of_bounds {x : ℚ} {n : Nat} (low : (n : ℚ) ≤ x) (high : x < n+1) : x.floor.toNat = n := by
  have nonneg : 0 ≤ x := (Nat.cast_nonneg n).trans low
  obtain ⟨below,above⟩ := floor_bounds nonneg
  have first : (n : ℚ) < (x.floor.toNat+1 : Nat) := by
    push_cast
    linarith
  have second : ((x.floor.toNat : Nat) : ℚ) < (n+1 : Nat) := by
    push_cast
    linarith
  have first := Nat.cast_lt.mp first
  have second := Nat.cast_lt.mp second
  omega

theorem nearest_natCast (n : Nat) : nearest n = n := by
  have whole : (n : ℚ).floor.toNat = n := floor_of_bounds le_rfl (by linarith)
  unfold nearest
  dsimp only
  rw [whole,sub_self,if_pos (.inl (by norm_num))]

theorem nearest_zero : nearest 0 = 0 := nearest_natCast 0

/-- The two naturals around a number, and how it is placed between them. -/
theorem nearest_cases (x : ℚ) :
    nearest x = x.floor.toNat ∧ x-x.floor.toNat ≤ 1/2 ∨ nearest x = x.floor.toNat+1 ∧ 1/2 ≤ x-x.floor.toNat := by
  unfold nearest
  dsimp only
  split_ifs with low
  · left
    refine ⟨rfl,?_⟩
    rcases low with below | ⟨tie,_⟩
    · exact below.le
    · exact tie.le
  · right
    exact ⟨rfl,not_lt.mp (not_or.mp low).1⟩

theorem nearest_close {x : ℚ} (nonneg : 0 ≤ x) : |(nearest x : ℚ)-x| ≤ 1/2 := by
  obtain ⟨below,above⟩ := floor_bounds nonneg
  rw [abs_le]
  rcases nearest_cases x with ⟨value,near⟩ | ⟨value,near⟩
  · rw [value]
    constructor <;> linarith
  · rw [value]
    push_cast
    constructor <;> linarith

theorem nearest_mono {x y : ℚ} (nonneg : 0 ≤ x) (ordered : x ≤ y) : nearest x ≤ nearest y := by
  have nonneg' : 0 ≤ y := nonneg.trans ordered
  obtain ⟨below,above⟩ := floor_bounds nonneg
  obtain ⟨below',above'⟩ := floor_bounds nonneg'
  have floors : x.floor.toNat ≤ y.floor.toNat := by
    have cast : ((x.floor.toNat : Nat) : ℚ) < (y.floor.toNat+1 : Nat) := by
      push_cast
      linarith
    have strict := Nat.cast_lt.mp cast
    omega
  rcases floors.eq_or_lt with same | apart
  · -- between the same two naturals the choice depends on the distance alone
    unfold nearest
    dsimp only
    rw [← same]
    split_ifs with low high
    · exact le_rfl
    · exact Nat.le_succ _
    · rename_i high
      exfalso
      rcases high with below | ⟨tie,even⟩
      · exact low (.inl (by linarith))
      · rcases ordered.eq_or_lt with rfl | less
        · exact low (.inr ⟨tie,even⟩)
        · exact low (.inl (by linarith))
    · exact le_rfl
  · rcases nearest_cases x with ⟨value,_⟩ | ⟨value,_⟩ <;>
      rcases nearest_cases y with ⟨value',_⟩ | ⟨value',_⟩ <;> omega

theorem nearest_le {x : ℚ} {n : Nat} (nonneg : 0 ≤ x) (small : x ≤ n) : nearest x ≤ n := by
  have ordered := nearest_mono nonneg small
  rwa [nearest_natCast] at ordered

theorem le_nearest {x : ℚ} {n : Nat} (large : (n : ℚ) ≤ x) : n ≤ nearest x := by
  have ordered := nearest_mono (Nat.cast_nonneg n) large
  rwa [nearest_natCast] at ordered

end Vitals.Nearest
