import Vitals.Library.Float
import Vitals.Library.Nearest
import Mathlib.Data.Int.Log
import Mathlib.Tactic.FieldSimp
import Mathlib.Tactic.Ring

/-! The rounding of IEEE 754 binary64, to nearest with ties to even. A number is rounded to a
multiple of the unit in its last place, which is a power of two. -/
namespace Vitals.Binary64
open Nearest

/-- The exponent of the last place; no place is below that of the subnormal numbers. -/
def lastPlace (x : ℚ) : Int := max (Int.log 2 x - 52) (-1074)

def magnitude (x : ℚ) : ℚ := nearest (x/2^lastPlace x)*2^lastPlace x

def round (q : ℚ) : F64 :=
  if 2^1024 ≤ magnitude |q| then (if q < 0 then .negInf else .posInf)
  else .fin (if q < 0 then -magnitude |q| else magnitude |q|)

theorem power_pos (e : Int) : (0 : ℚ) < 2^e := zpow_pos (by norm_num) e

theorem power_le {d e : Int} (ordered : d ≤ e) : (2 : ℚ)^d ≤ 2^e := zpow_le_zpow_right₀ (by norm_num) ordered

theorem power_add (d e : Int) : (2 : ℚ)^(d+e) = 2^d*2^e := zpow_add₀ (by norm_num) d e

theorem magnitude_zero : magnitude 0 = 0 := by
  unfold magnitude
  rw [zero_div,nearest_zero,Nat.cast_zero,zero_mul]

theorem magnitude_nonneg (x : ℚ) : 0 ≤ magnitude x := mul_nonneg (Nat.cast_nonneg _) (power_pos _).le

theorem lt_power_lastPlace (x : ℚ) : x < 2^(53+lastPlace x) := by
  have below : x < 2^(Int.log 2 x + 1) := by exact_mod_cast Int.lt_zpow_succ_log_self (by norm_num) x
  refine below.trans_le (power_le ?_)
  unfold lastPlace
  omega

section
variable {x : ℚ} (positive : 0 < x)
include positive

theorem power_lastPlace_le (normal : -1074 < lastPlace x) : 2^(52+lastPlace x) ≤ x := by
  have above : 2^Int.log 2 x ≤ x := by exact_mod_cast Int.zpow_log_le_self (by norm_num) positive
  refine le_trans (power_le ?_) above
  unfold lastPlace at normal ⊢
  omega

theorem lastPlace_le {e : Int} (small : x < 2^(53+e)) (low : -1074 ≤ e) : lastPlace x ≤ e := by
  have below : Int.log 2 x < 53+e := (Int.lt_zpow_iff_log_lt (by norm_num) positive).mp small
  refine max_le ?_ low
  omega

theorem significand_le : nearest (x/2^lastPlace x) ≤ 2^53 := by
  have power := power_pos (lastPlace x)
  refine nearest_le (div_nonneg positive.le power.le) ?_
  rw [div_le_iff₀ power]
  have below := (lt_power_lastPlace x).le
  rw [power_add] at below
  exact_mod_cast below

theorem le_significand (normal : -1074 < lastPlace x) : 2^52 ≤ nearest (x/2^lastPlace x) := by
  have power := power_pos (lastPlace x)
  apply le_nearest
  rw [le_div_iff₀ power]
  have above := power_lastPlace_le positive normal
  rw [power_add] at above
  exact_mod_cast above

/-- What has at most 53 places is kept as it is. -/
theorem magnitude_exact {m : Nat} {e : Int} (value : x = m*2^e) (places : m ≤ 2^53) (low : -1074 ≤ e) :
    magnitude x = x := by
  have small : lastPlace x ≤ e ∨ m = 2^53 := by
    rcases places.eq_or_lt with full | less
    · exact .inr full
    · left
      refine lastPlace_le positive ?_ low
      rw [value,power_add]
      refine mul_lt_mul_of_pos_right ?_ (power_pos e)
      exact_mod_cast less
  -- a full significand is half as large one place higher
  have shape : ∃ (m : Nat) (e : Int), x = m*2^e ∧ lastPlace x ≤ e := by
    rcases small with small | full
    · exact ⟨m,e,value,small⟩
    · have shifted : x = (2^52 : Nat)*2^(e+1) := by
        rw [value,full,power_add]
        push_cast
        ring
      refine ⟨2^52,e+1,shifted,lastPlace_le positive ?_ (by omega)⟩
      rw [shifted,power_add 53]
      refine mul_lt_mul_of_pos_right ?_ (power_pos _)
      norm_num
  obtain ⟨m,e,value,small⟩ := shape
  have steps : e = (e-lastPlace x).toNat+lastPlace x := by omega
  have whole : x/2^lastPlace x = (m*2^(e-lastPlace x).toNat : Nat) := by
    rw [div_eq_iff (power_pos _).ne']
    conv_lhs => rw [value,steps,power_add,zpow_natCast]
    push_cast
    ring
  unfold magnitude
  rw [whole,nearest_natCast,← whole,div_mul_cancel₀ _ (power_pos _).ne']

theorem magnitude_close : |magnitude x - x| ≤ 2^lastPlace x/2 := by
  have power := power_pos (lastPlace x)
  have near := nearest_close (div_nonneg positive.le power.le)
  have scaled : magnitude x - x = (nearest (x/2^lastPlace x) - x/2^lastPlace x)*2^lastPlace x := by
    rw [sub_mul,div_mul_cancel₀ _ power.ne']
    rfl
  rw [scaled,abs_mul,abs_of_pos power]
  linarith [mul_le_mul_of_nonneg_right near power.le]

theorem magnitude_relative (normal : 1/2^1022 ≤ x) : |magnitude x - x| ≤ x/2^53 := by
  have close := magnitude_close positive
  have places : 2^(52+lastPlace x) ≤ x := by
    by_cases above : -1074 < lastPlace x
    · exact power_lastPlace_le positive above
    · have least : lastPlace x = -1074 := le_antisymm (not_lt.mp above) (le_max_right _ _)
      rw [least]
      refine le_trans (le_of_eq ?_) normal
      norm_num [zpow_neg]
  have split : (2 : ℚ)^(52+lastPlace x) = 2^52*2^lastPlace x := by
    rw [power_add]
    norm_num
  rw [split] at places
  refine close.trans ?_
  rw [le_div_iff₀ (by positivity)]
  linarith

end

theorem magnitude_mono {x y : ℚ} (nonneg : 0 ≤ x) (ordered : x ≤ y) : magnitude x ≤ magnitude y := by
  rcases nonneg.eq_or_lt with rfl | positive
  · rw [magnitude_zero]
    exact magnitude_nonneg y
  have positive' : 0 < y := positive.trans_le ordered
  have places : lastPlace x ≤ lastPlace y := max_le_max (by
    have logs := Int.log_mono_right (b := 2) positive ordered
    omega) le_rfl
  rcases places.eq_or_lt with same | apart
  · unfold magnitude
    rw [← same]
    have power := power_pos (lastPlace x)
    refine mul_le_mul_of_nonneg_right ?_ power.le
    exact_mod_cast nearest_mono (div_nonneg nonneg power.le) (div_le_div_of_nonneg_right ordered power.le)
  · -- a power of two lies between the two
    have normal : -1074 < lastPlace y := lt_of_le_of_lt (le_max_right _ _) apart
    calc
      magnitude x ≤ 2^53*2^lastPlace x := by
        refine mul_le_mul_of_nonneg_right ?_ (power_pos _).le
        exact_mod_cast significand_le positive
      _ = 2^(53+lastPlace x) := by rw [power_add]; norm_num
      _ ≤ 2^(52+lastPlace y) := power_le (by omega)
      _ = 2^52*2^lastPlace y := by rw [power_add]; norm_num
      _ ≤ magnitude y := by
        refine mul_le_mul_of_nonneg_right ?_ (power_pos _).le
        exact_mod_cast le_significand positive' normal

theorem round_nonneg {q : ℚ} (nonneg : 0 ≤ q) :
    round q = if 2^1024 ≤ magnitude q then .posInf else .fin (magnitude q) := by
  unfold round
  simp only [abs_of_nonneg nonneg,not_lt.mpr nonneg,if_false]

theorem round_neg {q : ℚ} (negative : q < 0) : round q = (round (-q)).neg := by
  rw [round_nonneg (show 0 ≤ -q by linarith)]
  unfold round
  simp only [abs_of_neg negative,negative,if_true]
  split_ifs <;> rfl

theorem neg_le_neg {x y : F64} (ordered : x ≤ y) : y.neg ≤ x.neg := by
  rw [F64.le_iff] at ordered ⊢
  cases x <;> cases y <;> simp_all [F64.lessEq,F64.neg]

theorem round_mono_nonneg {p q : ℚ} (nonneg : 0 ≤ p) (ordered : p ≤ q) : round p ≤ round q := by
  have magnitudes := magnitude_mono nonneg ordered
  rw [round_nonneg nonneg,round_nonneg (nonneg.trans ordered)]
  split_ifs with first second
  · rfl
  · exact absurd (first.trans magnitudes) second
  · rfl
  · exact (F64.fin_le_fin _ _).mpr magnitudes

theorem round_mono (p q : ℚ) (ordered : p ≤ q) : round p ≤ round q := by
  rcases lt_or_ge p 0 with negative | nonneg
  · rcases lt_or_ge q 0 with negative' | nonneg'
    · rw [round_neg negative,round_neg negative']
      exact neg_le_neg (round_mono_nonneg (by linarith) (by linarith))
    · rw [round_neg negative,round_nonneg (show 0 ≤ -p by linarith),round_nonneg nonneg']
      split_ifs
      · rfl
      · rfl
      · rfl
      · exact (F64.fin_le_fin _ _).mpr (by linarith [magnitude_nonneg (-p),magnitude_nonneg q])
  · exact round_mono_nonneg nonneg ordered

theorem round_exact {q : ℚ} {m : Nat} {e : Int} (value : q = m*2^e) (places : m ≤ 2^53) (low : -1074 ≤ e)
    (high : q < 2^1024) : round q = .fin q := by
  have nonneg : 0 ≤ q := by
    rw [value]
    exact mul_nonneg (Nat.cast_nonneg m) (power_pos e).le
  have kept : magnitude q = q := by
    rcases nonneg.eq_or_lt with rfl | positive
    · exact magnitude_zero
    · exact magnitude_exact positive value places low
  rw [round_nonneg nonneg,kept,if_neg (not_le.mpr high)]

theorem round_natCast {n : Nat} (small : n ≤ 2^53) : round n = .fin n := by
  have value : (n : ℚ) = n*2^(0 : Int) := by rw [zpow_zero,mul_one]
  refine round_exact value small (by norm_num) ?_
  have cast : (n : ℚ) ≤ 2^53 := by exact_mod_cast small
  exact cast.trans_lt (pow_lt_pow_right₀ (by norm_num) (by norm_num))

/-- From one on, far below the largest number, a rounding is a significand and a power of two. -/
theorem round_normal {q : ℚ} (low : 1 ≤ q) (high : q ≤ 2^1000) :
    ∃ x, ∃ m : Nat, ∃ e : Int, round q = .fin x ∧ x = m*2^e ∧ m ≤ 2^53 ∧ -52 ≤ e ∧ 1 ≤ x ∧ |x-q| ≤ q/2^53 := by
  have positive : 0 < q := by linarith
  have bound : (2 : ℚ)^1000 < 2^1024 := pow_lt_pow_right₀ (by norm_num) (by norm_num)
  have one : magnitude 1 = 1 := by
    have value : (1 : ℚ) = (1 : Nat)*2^(0 : Int) := by norm_num
    exact magnitude_exact (by norm_num) value (by norm_num) (by norm_num)
  have power : magnitude (2^1000) = 2^1000 := by
    have value : (2^1000 : ℚ) = (1 : Nat)*2^(1000 : Int) := by
      rw [Nat.cast_one,one_mul,zpow_ofNat]
    exact magnitude_exact (by positivity) value (by norm_num) (by norm_num)
  have above := magnitude_mono (by norm_num) low
  have below := magnitude_mono positive.le high
  rw [one] at above
  rw [power] at below
  refine ⟨magnitude q,nearest (q/2^lastPlace q),lastPlace q,?_,rfl,significand_le positive,?_,above,?_⟩
  · rw [round_nonneg positive.le,if_neg (not_le.mpr (below.trans_lt bound))]
  · have log := Int.log_mono_right (b := 2) (by norm_num) low
    rw [Int.log_one_right] at log
    exact le_max_of_le_left (by omega)
  · refine magnitude_relative positive (le_trans ?_ low)
    exact (div_le_one (by positivity)).mpr (one_le_pow₀ (by norm_num))

theorem round_tiny : round (1/2^1074) = .fin (1/2^1074) := by
  have value : (1/2^1074 : ℚ) = (1 : Nat)*2^(-1074 : Int) := by norm_num [zpow_neg]
  refine round_exact value (by norm_num) le_rfl ?_
  have small : (1/2^1074 : ℚ) ≤ 1 := (div_le_one (by positivity)).mpr (one_le_pow₀ (by norm_num))
  exact small.trans_lt (one_lt_pow₀ (by norm_num) (by norm_num))

end Vitals.Binary64

/-- The arithmetic of the program. -/
def Vitals.Rounding.binary64 : Rounding where
  round := Binary64.round
  monotone := Binary64.round_mono
  integers := fun _ small => Binary64.round_natCast small
  tiny := Binary64.round_tiny
