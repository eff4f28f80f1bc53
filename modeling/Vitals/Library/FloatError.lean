import Vitals.Library.Binary64
import Vitals.Library.Closeness

/-! What a computation in binary64 is worth: its result is finite and a few roundings away from
that of the same computation on rationals. Sizes are carried along, since a result that is
neither too large nor too small is all a rounding needs. -/
namespace Vitals
namespace Binary64

/-- A rounding changes a number by less. -/
def grain : ℚ := 1+1/2^52

theorem one_le_grain : 1 ≤ grain := by norm_num [grain]

theorem grain_le_two : grain ≤ 2 := by norm_num [grain]

theorem magnitude_power {n : Nat} : magnitude (2^n) = 2^n := by
  have value : (2^n : ℚ) = (1 : Nat)*2^(n : Int) := by
    rw [Nat.cast_one,one_mul,zpow_natCast]
  exact magnitude_exact (by positivity) value (by norm_num) (by omega)

theorem close_magnitude {q : ℚ} (low : 1/2^1022 ≤ q) : Close grain 1 (magnitude q) q := by
  have positive : 0 < q := lt_of_lt_of_le (by positivity) low
  have near := abs_sub_le_iff.mp (magnitude_relative positive low)
  refine ⟨magnitude_nonneg q,positive.le,?_,?_⟩
  · rw [pow_one,grain]
    linarith [near.1]
  · rw [pow_one,grain]
    linarith [near.2]

theorem round_sized {m : Nat} {q : ℚ} (sized : Sized m q) (room : m ≤ 1022) :
    ∃ x, round q = .fin x ∧ Close grain 1 x q := by
  rcases sized with rfl | ⟨low,high⟩
  · refine ⟨0,?_,le_rfl,le_rfl,by simp,by simp⟩
    exact Rounding.binary64.round_zero
  · have least : (1/2^1022 : ℚ) ≤ 1/2^m :=
      one_div_le_one_div_of_le (by positivity) (pow_le_pow_right₀ (by norm_num) room)
    have nonneg : 0 ≤ q := le_trans (by positivity) low
    have below := magnitude_mono nonneg high
    rw [magnitude_power] at below
    have bound : (2 : ℚ)^m < 2^1024 := pow_lt_pow_right₀ (by norm_num) (by omega)
    refine ⟨magnitude q,?_,close_magnitude (least.trans low)⟩
    rw [round_nonneg nonneg,if_neg (not_le.mpr (below.trans_lt bound))]

end Binary64

open Binary64

/-- `x` stands for `q`, up to `k` roundings. -/
structure Approximates (k m : Nat) (x : F64) (q : ℚ) : Prop where
  near : ∃ p, x = .fin p ∧ Close grain k p q
  sized : Sized m q

namespace Approximates
variable {k l m n : Nat} {x y : F64} {p q : ℚ}

theorem rounded (near : Close grain k p q) (sized : Sized m q) (room : m+k ≤ 1022) :
    Approximates (k+1) m (Rounding.binary64.round p) q := by
  obtain ⟨x,value,close⟩ := round_sized (Sized.of_close one_le_grain grain_le_two near sized) room
  refine ⟨⟨x,value,?_⟩,sized⟩
  rw [add_comm]
  exact close.trans one_le_grain near

theorem ofNat {a : Nat} (below : a ≤ 2^m) (room : m ≤ 1022) : Approximates 1 m (Rounding.binary64.ofNat a) a :=
  rounded (.refl (Nat.cast_nonneg a)) (.of_nat below) room

theorem ofNat_exact {a : Nat} (below : a ≤ 2^m) (small : m ≤ 53) :
    Approximates 0 m (Rounding.binary64.ofNat a) a := by
  have places : a ≤ 2^53 := below.trans (Nat.pow_le_pow_right (by omega) small)
  exact ⟨⟨a,round_natCast places,.refl (Nat.cast_nonneg a)⟩,.of_nat below⟩

theorem mul (first : Approximates k m x p) (second : Approximates l n y q) (room : m+n+(k+l) ≤ 1022) :
    Approximates (k+l+1) (m+n) (Rounding.binary64.mul x y) (p*q) := by
  obtain ⟨⟨a,rfl,left⟩,sized⟩ := first
  obtain ⟨⟨b,rfl,right⟩,sized'⟩ := second
  exact rounded (left.mul one_le_grain right) (sized.mul sized') room

theorem div (first : Approximates k m x p) (second : Approximates l n y q) (nonzero : q ≠ 0)
    (room : m+n+(k+l) ≤ 1022) : Approximates (k+l+1) (m+n) (Rounding.binary64.div x y) (p/q) := by
  obtain ⟨⟨a,rfl,left⟩,sized⟩ := first
  obtain ⟨⟨b,rfl,right⟩,sized'⟩ := second
  have divisor : b ≠ 0 := (right.pos (right.nonneg'.lt_of_ne' nonzero)).ne'
  rw [Rounding.div,if_neg divisor]
  exact rounded (left.div one_le_grain right) (sized.div sized') room

theorem add (first : Approximates k m x p) (second : Approximates l n y q) (room : max m n+1+max k l ≤ 1022) :
    Approximates (max k l+1) (max m n+1) (Rounding.binary64.add x y) (p+q) := by
  obtain ⟨⟨a,rfl,left⟩,sized⟩ := first
  obtain ⟨⟨b,rfl,right⟩,sized'⟩ := second
  exact rounded (left.add one_le_grain right) (sized.add sized') room

theorem clamp (near : Approximates k m x q) {c : Nat} (small : c ≤ 2^n) :
    Approximates k (max m n) (x.clamp (.fin 0) (.fin c)) (min q c) := by
  obtain ⟨⟨a,rfl,close⟩,sized⟩ := near
  have bound : (0 : ℚ) ≤ c := Nat.cast_nonneg c
  refine ⟨⟨min a c,?_,close.min one_le_grain bound⟩,sized.min (.of_nat small)⟩
  rw [F64.clamp_fin _ bound,max_eq_right (le_min close.nonneg bound)]

theorem zero : Approximates 0 0 (.fin 0) 0 := ⟨⟨0,rfl,.refl le_rfl⟩,.inl rfl⟩

theorem mono (near : Approximates k m x q) (more : k ≤ l) (wider : m ≤ n) : Approximates l n x q := by
  obtain ⟨⟨p,value,close⟩,sized⟩ := near
  exact ⟨⟨p,value,close.mono one_le_grain more⟩,sized.mono wider⟩

end Approximates

/-- A float that shows an exact value, with a relative error of at most `k` times `2^-51`. -/
def Near (k : Nat) (shown exact : F64) : Prop :=
  ∃ p q, shown = .fin p ∧ exact = .fin q ∧ |p-q| ≤ k/2^51*|q|

namespace Near
variable {k l : Nat} {x y : F64}

theorem of_approximates {m : Nat} {q : ℚ} (near : Approximates k m x q) (few : k ≤ 2^51) : Near k x (.fin q) := by
  obtain ⟨⟨p,rfl,close⟩,sized⟩ := near
  have excess : (k : ℚ) ≤ 2^51 := by exact_mod_cast few
  have power : grain^k ≤ 1+2*(k*(1/2^52)) := Close.power_le (by positivity) (by linarith)
  refine ⟨p,q,rfl,rfl,(close.error one_le_grain).trans ?_⟩
  rw [abs_of_nonneg sized.nonneg]
  refine mul_le_mul_of_nonneg_right ?_ sized.nonneg
  linarith

theorem zero (k : Nat) : Near k (.fin 0) (.fin 0) := ⟨0,0,rfl,rfl,by simp⟩

theorem mono (near : Near k x y) (more : k ≤ l) : Near l x y := by
  obtain ⟨p,q,rfl,rfl,near⟩ := near
  have counts : (k : ℚ) ≤ l := by exact_mod_cast more
  refine ⟨p,q,rfl,rfl,near.trans (mul_le_mul_of_nonneg_right ?_ (abs_nonneg q))⟩
  linarith

theorem neg (near : Near k x y) : Near k x.neg y.neg := by
  obtain ⟨p,q,rfl,rfl,near⟩ := near
  refine ⟨-p,-q,rfl,rfl,?_⟩
  rwa [abs_neg,← neg_sub',abs_neg]

theorem ofNat {n m : Nat} (below : n ≤ 2^m) (room : m ≤ 1022) :
    Near 1 (Rounding.binary64.ofNat n) (Rounding.exact.ofNat n) :=
  .of_approximates (.ofNat below room) (by norm_num)

theorem ofInt {z : Int} {m : Nat} (below : z.natAbs ≤ 2^m) (room : m ≤ 1022) :
    Near 1 (Rounding.binary64.ofInt z) (Rounding.exact.ofInt z) := by
  obtain ⟨n,rfl | rfl⟩ := z.eq_nat_or_neg
  · exact ofNat below room
  · rw [Int.natAbs_neg,Int.natAbs_natCast] at below
    have mirrored : Rounding.binary64.ofInt (-n) = (Rounding.binary64.ofNat n).neg := by
      rcases Nat.eq_zero_or_pos n with rfl | positive
      · exact Rounding.binary64.round_zero.trans (congrArg F64.neg Rounding.binary64.round_zero).symm
      · have negative : ((-n : Int) : ℚ) < 0 := by simpa using positive
        refine (round_neg negative).trans ?_
        rw [Int.cast_neg,neg_neg]
        rfl
    have mirrored' : Rounding.exact.ofInt (-n) = (Rounding.exact.ofNat n).neg := by
      rw [Rounding.exact_ofNat,F64.neg,← Int.cast_natCast,← Int.cast_neg]
      rfl
    rw [mirrored,mirrored']
    exact (ofNat below room).neg

end Near
end Vitals
