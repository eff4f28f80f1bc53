import Mathlib.Algebra.Order.Field.Basic
import Mathlib.Tactic.FieldSimp
import Mathlib.Tactic.GCongr
import Mathlib.Tactic.Linarith
import Mathlib.Tactic.Positivity
import Mathlib.Tactic.Ring

/-! Numbers up to a factor. Two numbers are `k` factors apart at most when neither exceeds the
other by more; the factors of a product and of a quotient add up, so a computation is charged
for its operations one by one. -/
namespace Vitals
variable {K : Type} [Field K] [LinearOrder K]

structure Close (w : K) (k : Nat) (x y : K) : Prop where
  nonneg : 0 ≤ x
  nonneg' : 0 ≤ y
  below : x ≤ y*w^k
  above : y ≤ x*w^k

namespace Close
variable {w x y z x' y' : K} {k l : Nat}

theorem symm (near : Close w k x y) : Close w k y x := ⟨near.nonneg',near.nonneg,near.above,near.below⟩

theorem refl (nonneg : 0 ≤ x) : Close w 0 x x := ⟨nonneg,nonneg,by simp,by simp⟩

theorem eq_zero (near : Close w k x 0) : x = 0 := le_antisymm (by simpa using near.below) near.nonneg

theorem pos (near : Close w k x y) (positive : 0 < y) : 0 < x := by
  refine near.nonneg.lt_of_ne ?_
  rintro rfl
  exact positive.ne' near.symm.eq_zero

variable [IsStrictOrderedRing K]

section
variable (one_le : 1 ≤ w)
include one_le

theorem factor_pos (k : Nat) : 0 < w^k := pow_pos (zero_lt_one.trans_le one_le) k

theorem mono (near : Close w k x y) (more : k ≤ l) : Close w l x y where
  nonneg := near.nonneg
  nonneg' := near.nonneg'
  below := near.below.trans (mul_le_mul_of_nonneg_left (pow_le_pow_right₀ one_le more) near.nonneg')
  above := near.above.trans (mul_le_mul_of_nonneg_left (pow_le_pow_right₀ one_le more) near.nonneg)

private theorem le_of_le_of_le (first : x ≤ y*w^k) (second : y ≤ z*w^l) : x ≤ z*w^(k+l) := by
  calc
    x ≤ y*w^k := first
    _ ≤ z*w^l*w^k := mul_le_mul_of_nonneg_right second (factor_pos one_le k).le
    _ = z*w^(k+l) := by rw [mul_assoc,← pow_add,add_comm l k]

theorem trans (first : Close w k x y) (second : Close w l y z) : Close w (k+l) x z where
  nonneg := first.nonneg
  nonneg' := second.nonneg'
  below := le_of_le_of_le one_le first.below second.below
  above := by
    rw [add_comm]
    exact le_of_le_of_le one_le second.above first.above

private theorem mul_le (nonneg : 0 ≤ x') (nonneg' : 0 ≤ y) (first : x ≤ y*w^k) (second : x' ≤ y'*w^l) :
    x*x' ≤ y*y'*w^(k+l) := by
  calc
    x*x' ≤ (y*w^k)*(y'*w^l) :=
      mul_le_mul first second nonneg (mul_nonneg nonneg' (factor_pos one_le k).le)
    _ = y*y'*w^(k+l) := by rw [pow_add]; ring

theorem mul (first : Close w k x y) (second : Close w l x' y') : Close w (k+l) (x*x') (y*y') where
  nonneg := mul_nonneg first.nonneg second.nonneg
  nonneg' := mul_nonneg first.nonneg' second.nonneg'
  below := mul_le one_le second.nonneg first.nonneg' first.below second.below
  above := mul_le one_le second.nonneg' first.nonneg first.above second.above

omit one_le in
private theorem inv_le (positive : 0 < x) (positive' : 0 < y) (above : y ≤ x*w^k) : x⁻¹ ≤ y⁻¹*w^k := by
  rw [inv_mul_eq_div,le_div_iff₀ positive',inv_mul_eq_div,div_le_iff₀ positive,mul_comm]
  exact above

omit one_le in
theorem inv (near : Close w k x y) : Close w k x⁻¹ y⁻¹ := by
  rcases near.nonneg'.eq_or_lt with rfl | positive
  · rw [near.eq_zero,inv_zero]
    exact ⟨le_rfl,le_rfl,by simp,by simp⟩
  · have positive' := near.pos positive
    exact ⟨inv_nonneg.mpr near.nonneg,inv_nonneg.mpr near.nonneg',inv_le positive' positive near.above,
      inv_le positive positive' near.below⟩

/-- Also where both divisors are zero. -/
theorem div (first : Close w k x y) (second : Close w l x' y') : Close w (k+l) (x/x') (y/y') := by
  rw [div_eq_mul_inv,div_eq_mul_inv]
  exact first.mul one_le second.inv

theorem add (first : Close w k x y) (second : Close w l x' y') : Close w (max k l) (x+x') (y+y') := by
  have left := first.mono one_le (le_max_left k l)
  have right := second.mono one_le (le_max_right k l)
  refine ⟨add_nonneg left.nonneg right.nonneg,add_nonneg left.nonneg' right.nonneg',?_,?_⟩
  · rw [add_mul]
    exact add_le_add left.below right.below
  · rw [add_mul]
    exact add_le_add left.above right.above

theorem min (near : Close w k x y) {c : K} (nonneg : 0 ≤ c) : Close w k (min x c) (min y c) := by
  have kept : c ≤ c*w^k := le_mul_of_one_le_right nonneg (one_le_pow₀ one_le)
  have power := (factor_pos one_le k).le
  refine ⟨le_min near.nonneg nonneg,le_min near.nonneg' nonneg,?_,?_⟩
  · rw [min_mul_of_nonneg _ _ power]
    exact min_le_min near.below kept
  · rw [min_mul_of_nonneg _ _ power]
    exact min_le_min near.above kept

theorem error (near : Close w k x y) : |x-y| ≤ (w^k-1)*y := by
  have grows : 0 ≤ w^k-1 := sub_nonneg.mpr (one_le_pow₀ one_le)
  rw [abs_sub_le_iff]
  refine ⟨by linarith [near.below],?_⟩
  rcases le_total x y with less | more
  · have scaled := mul_le_mul_of_nonneg_right less grows
    linarith [near.above]
  · linarith [mul_nonneg grows near.nonneg']

end

/-- Small factors add up like their excesses, with a margin of two. -/
theorem power_le {e : K} (nonneg : 0 ≤ e) {k : Nat} (small : 2*(k*e) ≤ 1) : (1+e)^k ≤ 1+2*(k*e) := by
  induction k with
  | zero => simp
  | succ k ih =>
    push_cast at small ⊢
    have before : 2*(k*e) ≤ 1 := by linarith
    have product : 2*(k*e)*e ≤ e := mul_le_of_le_one_left nonneg before
    calc
      (1+e)^(k+1) = (1+e)^k*(1+e) := pow_succ _ _
      _ ≤ (1+2*(k*e))*(1+e) := mul_le_mul_of_nonneg_right (ih before) (by linarith)
      _ ≤ 1+2*((k+1)*e) := by linarith

end Close

/-- Zero, or between two powers of two. -/
def Sized (m : Nat) (x : K) : Prop := x = 0 ∨ 1/2^m ≤ x ∧ x ≤ 2^m

namespace Sized
variable {x y : K} {m n : Nat}

variable [IsStrictOrderedRing K]

theorem one_le_power (m : Nat) : (1 : K) ≤ 2^m := one_le_pow₀ (by norm_num)

theorem nonneg (sized : Sized m x) : 0 ≤ x := by
  rcases sized with rfl | ⟨low,_⟩
  · exact le_rfl
  · exact le_trans (by positivity) low

theorem mono (sized : Sized m x) (more : m ≤ n) : Sized n x := by
  rcases sized with zero | ⟨low,high⟩
  · exact .inl zero
  · have powers : (2 : K)^m ≤ 2^n := pow_le_pow_right₀ (by norm_num) more
    exact .inr ⟨(one_div_le_one_div_of_le (by positivity) powers).trans low,high.trans powers⟩

theorem mul (first : Sized m x) (second : Sized n y) : Sized (m+n) (x*y) := by
  rcases first with rfl | ⟨low,high⟩
  · exact .inl (zero_mul y)
  rcases second with rfl | ⟨low',high'⟩
  · exact .inl (mul_zero x)
  have bounded : 0 ≤ y := le_trans (by positivity) low'
  refine .inr ⟨?_,?_⟩
  · rw [pow_add,← one_div_mul_one_div]
    exact mul_le_mul low low' (by positivity) (le_trans (by positivity) low)
  · rw [pow_add]
    exact mul_le_mul high high' bounded (by positivity)

theorem inv (sized : Sized m x) : Sized m x⁻¹ := by
  rcases sized with rfl | ⟨low,high⟩
  · exact .inl inv_zero
  have positive : 0 < x := lt_of_lt_of_le (by positivity) low
  refine .inr ⟨?_,?_⟩
  · rw [← one_div]
    exact one_div_le_one_div_of_le positive high
  · rw [inv_le_comm₀ positive (by positivity),← one_div]
    exact low

theorem div (first : Sized m x) (second : Sized n y) : Sized (m+n) (x/y) := by
  rw [div_eq_mul_inv]
  exact first.mul second.inv

theorem add (first : Sized m x) (second : Sized n y) : Sized (max m n+1) (x+y) := by
  have left := first.mono (le_max_left m n)
  have right := second.mono (le_max_right m n)
  rcases left with rfl | ⟨low,high⟩
  · rw [zero_add]
    exact right.mono (Nat.le_succ _)
  · refine .inr ⟨?_,?_⟩
    · have powers : (1 : K)/2^(max m n+1) ≤ 1/2^max m n :=
        one_div_le_one_div_of_le (by positivity) (pow_le_pow_right₀ (by norm_num) (Nat.le_succ _))
      linarith [right.nonneg]
    · have second' : y ≤ 2^max m n := by
        rcases right with rfl | ⟨_,high'⟩
        · positivity
        · exact high'
      rw [pow_succ]
      linarith

theorem min (first : Sized m x) (second : Sized n y) : Sized (max m n) (min x y) := by
  rcases min_choice x y with chosen | chosen
  · rw [chosen]
    exact first.mono (le_max_left m n)
  · rw [chosen]
    exact second.mono (le_max_right m n)

/-- What is close to a number has nearly its size. -/
theorem of_close {w : K} {k : Nat} (one_le : 1 ≤ w) (le_two : w ≤ 2) (near : Close w k x y) (sized : Sized m y) :
    Sized (m+k) x := by
  have power := Close.factor_pos one_le k
  have factor : w^k ≤ 2^k := pow_le_pow_left₀ (zero_le_one.trans one_le) le_two k
  rcases sized with rfl | ⟨low,high⟩
  · exact .inl near.eq_zero
  refine .inr ⟨?_,?_⟩
  · rw [pow_add,div_mul_eq_div_div,div_le_iff₀ (by positivity)]
    exact low.trans (near.above.trans (mul_le_mul_of_nonneg_left factor near.nonneg))
  · rw [pow_add]
    exact near.below.trans (mul_le_mul high factor power.le (by positivity))

theorem of_nat {n m : Nat} (below : n ≤ 2^m) : Sized m (n : K) := by
  rcases Nat.eq_zero_or_pos n with rfl | positive
  · exact .inl Nat.cast_zero
  · refine .inr ⟨?_,by exact_mod_cast below⟩
    have one : (1 : K) ≤ n := by exact_mod_cast positive
    exact ((div_le_one (by positivity)).mpr (one_le_power m)).trans one

end Sized
end Vitals
