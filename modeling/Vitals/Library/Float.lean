import Vitals.Library.Decimal
import Mathlib.Algebra.Order.Field.Rat
import Mathlib.Data.Rat.Floor
import Mathlib.Tactic.Linarith
import Mathlib.Tactic.Positivity
import Mathlib.Tactic.NormNum

/-! Binary floating point over the rationals. A finite value is the rational it
denotes, every operation is the rounded exact operation, and the rounding is a
parameter of which only laws of IEEE 754 binary64 are assumed. Taking it to be the
identity reads the arithmetic in exact rationals. The sign of a zero is not kept: comparisons do
not see it, and what shows it keeps it beside the number. -/
namespace Vitals

inductive F64 where
  | nan
  | negInf
  | fin (value : ℚ)
  | posInf
deriving DecidableEq,Inhabited

namespace F64

def less : F64 → F64 → Bool
  | .fin a,.fin b => a < b
  | .negInf,.fin _ | .negInf,.posInf | .fin _,.posInf => true
  | _,_ => false

def lessEq : F64 → F64 → Bool
  | .fin a,.fin b => a ≤ b
  | .negInf,.negInf | .negInf,.fin _ | .negInf,.posInf => true
  | .fin _,.posInf | .posInf,.posInf => true
  | _,_ => false

instance : LT F64 := ⟨fun a b => less a b = true⟩
instance : LE F64 := ⟨fun a b => lessEq a b = true⟩
instance : DecidableLT F64 := fun a b => inferInstanceAs (Decidable (less a b = true))
instance : DecidableLE F64 := fun a b => inferInstanceAs (Decidable (lessEq a b = true))

theorem lt_iff (a b : F64) : a < b ↔ less a b = true := Iff.rfl
theorem le_iff (a b : F64) : a ≤ b ↔ lessEq a b = true := Iff.rfl

@[simp] theorem fin_lt_fin (a b : ℚ) : F64.fin a < .fin b ↔ a < b := decide_eq_true_iff
@[simp] theorem fin_le_fin (a b : ℚ) : F64.fin a ≤ .fin b ↔ a ≤ b := decide_eq_true_iff

/-- Both comparisons are false on a NaN, so no ordering hypothesis is needed. -/
theorem lt_of_le_of_lt {a b c : F64} (first : a ≤ b) (second : b < c) : a < c := by
  rw [le_iff] at first
  rw [lt_iff] at second ⊢
  cases a <;> cases b <;> cases c <;> simp_all [less,lessEq]
  exact LE.le.trans_lt first second

theorem lt_of_lt_of_le {a b c : F64} (first : a < b) (second : b ≤ c) : a < c := by
  rw [le_iff] at second
  rw [lt_iff] at first ⊢
  cases a <;> cases b <;> cases c <;> simp_all [less,lessEq]
  exact LT.lt.trans_le first second

theorem not_le_of_lt {a b : F64} (below : a < b) : ¬ b ≤ a := by
  rw [lt_iff] at below
  rw [le_iff]
  cases a <;> cases b <;> simp_all [less,lessEq]

theorem not_lt_iff_of_le {x y : F64} (below : x ≤ y) : ¬ x < y ↔ x = y := by
  rw [le_iff] at below
  rw [lt_iff]
  cases x <;> cases y <;> simp_all [less,lessEq]
  exact ⟨fun above => le_antisymm below above,fun same => same.ge⟩

/-- `partial_cmp`, undefined when either side is a NaN. -/
def partialCmp (a b : F64) : Option Ordering :=
  if a < b then some .lt else if b < a then some .gt else if a = .nan ∨ b = .nan then none else some .eq

def clamp (x low high : F64) : F64 :=
  if x < low then low else if high < x then high else x

theorem clamp_fin (q : ℚ) {low high : ℚ} (ordered : low ≤ high) :
    (F64.fin q).clamp (.fin low) (.fin high) = .fin (max low (min q high)) := by
  simp only [clamp,fin_lt_fin]
  split_ifs with below above
  · rw [max_eq_left ((min_le_left q high).trans below.le)]
  · rw [min_eq_right above.le,max_eq_right ordered]
  · rw [min_eq_left (not_lt.mp above),max_eq_right (not_lt.mp below)]

/-- The cast `as u64`: truncating, saturating, and zero for a NaN. -/
def toU64 : F64 → UInt64
  | .nan | .negInf => 0
  | .posInf => UInt64.ofNat (2^64-1)
  | .fin q => if 2^64 ≤ q then UInt64.ofNat (2^64-1) else UInt64.ofNat q.floor.toNat

def neg : F64 → F64
  | .nan => .nan
  | .negInf => .posInf
  | .fin q => .fin (-q)
  | .posInf => .negInf

def sign : F64 → Int
  | .nan => 0
  | .negInf => -1
  | .fin q => if q < 0 then -1 else if q = 0 then 0 else 1
  | .posInf => 1

theorem toU64_natCast {n : Nat} (small : n < 2^64) : (toU64 (.fin n)).toNat = n := by
  have within : ¬ (2^64 : ℚ) ≤ n := by
    have cast : (n : ℚ) < 2^64 := by exact_mod_cast small
    exact not_le.mpr cast
  have whole : (n : ℚ).floor = n := by
    rw [← Int.cast_natCast]
    exact Rat.floor_intCast n
  rw [toU64,if_neg within,whole,Int.toNat_natCast,UInt64.toNat_ofNat_of_lt' small]

/-- The infinity of a given sign; a product of zero and infinity is a NaN. -/
def infinite (sign : Int) : F64 :=
  if sign < 0 then .negInf else if sign = 0 then .nan else .posInf

end F64

/-- A rounding of exact results: monotone, exact on the integers of 53 bits and on
the smallest positive binary64. -/
structure Rounding where
  round : ℚ → F64
  monotone : ∀ p q, p ≤ q → round p ≤ round q
  integers : ∀ n : Nat, n ≤ 2^53 → round n = .fin n
  tiny : round (1/2^1074) = .fin (1/2^1074)

namespace Rounding
open F64

def exact : Rounding where
  round := .fin
  monotone := fun _ _ ordered => (fin_le_fin _ _).mpr ordered
  integers := fun _ _ => rfl
  tiny := rfl

variable (R : Rounding)

def ofNat (n : Nat) : F64 := R.round n

def ofInt (z : Int) : F64 := R.round z

def add : F64 → F64 → F64
  | .fin a,.fin b => R.round (a+b)
  | .nan,_ | _,.nan | .posInf,.negInf | .negInf,.posInf => .nan
  | .posInf,_ | _,.posInf => .posInf
  | .negInf,_ | _,.negInf => .negInf

def mul : F64 → F64 → F64
  | .fin a,.fin b => R.round (a*b)
  | .nan,_ | _,.nan => .nan
  | x,y => infinite (x.sign*y.sign)

def div : F64 → F64 → F64
  | .nan,_ | _,.nan => .nan
  | .fin a,.fin b => if b = 0 then infinite (F64.fin a).sign else R.round (a/b)
  | .fin _,_ => .fin 0
  | x,.fin b => infinite (x.sign*(if b < 0 then -1 else 1))
  | _,_ => .nan

/-- A division with no result for a divisor of zero. -/
def checkedDiv (x y : F64) : Option F64 := if y = .fin 0 then none else some (R.div x y)

@[simp] theorem exact_ofNat (n : Nat) : exact.ofNat n = .fin n := rfl

@[simp] theorem exact_add (a b : ℚ) : exact.add (.fin a) (.fin b) = .fin (a+b) := rfl

@[simp] theorem exact_mul (a b : ℚ) : exact.mul (.fin a) (.fin b) = .fin (a*b) := rfl

theorem exact_div (a : ℚ) {b : ℚ} (nonzero : b ≠ 0) : exact.div (.fin a) (.fin b) = .fin (a/b) := if_neg nonzero

theorem tiny_le_round {q : ℚ} (large : 1/2^1074 ≤ q) : .fin (1/2^1074) ≤ R.round q := by
  have ordered := R.monotone _ _ large
  rwa [R.tiny] at ordered

theorem round_zero : R.round 0 = .fin 0 := by simpa using R.integers 0 (by omega)

theorem round_one : R.round 1 = .fin 1 := by simpa using R.integers 1 (by omega)

theorem round_nonneg {q : ℚ} (nonneg : 0 ≤ q) : .fin 0 ≤ R.round q := by
  have ordered := R.monotone 0 q nonneg
  rwa [round_zero] at ordered

theorem ofNat_zero : R.ofNat 0 = .fin 0 := by rw [ofNat,Nat.cast_zero,round_zero]

theorem ofNat_one : R.ofNat 1 = .fin 1 := by rw [ofNat,Nat.cast_one,round_one]

theorem one_le_ofNat {n : Nat} (positive : 0 < n) : .fin 1 ≤ R.ofNat n := by
  have ordered := R.monotone 1 n (by exact_mod_cast positive)
  rwa [round_one] at ordered

/-- Zero divided by a count is zero, also where the count is rounded to infinity. -/
theorem zero_div_ofNat {n : Nat} (positive : 0 < n) : R.div (.fin 0) (R.ofNat n) = .fin 0 := by
  have large := R.one_le_ofNat positive
  cases value : R.ofNat n with
  | nan => rw [value] at large; cases large
  | negInf => rw [value] at large; cases large
  | posInf => rfl
  | fin b =>
    rw [value,fin_le_fin] at large
    have nonzero : b ≠ 0 := by linarith
    rw [div,if_neg nonzero,zero_div,round_zero]

theorem checkedDiv_ofNat (x : F64) {n : Nat} (positive : 0 < n) :
    R.checkedDiv x (R.ofNat n) = some (R.div x (R.ofNat n)) := by
  have large := R.one_le_ofNat positive
  have nonzero : R.ofNat n ≠ .fin 0 := by
    intro zero
    rw [zero,fin_le_fin] at large
    linarith
  rw [checkedDiv,if_neg nonzero]

theorem pos_of_tiny_le {x : F64} (large : .fin (1/2^1074) ≤ x) : .fin 0 < x := by
  refine F64.lt_of_lt_of_le ((fin_lt_fin 0 _).mpr ?_) large
  positivity

theorem tiny_le_add {x y : F64} (left : .fin 0 ≤ x) (right : .fin 0 ≤ y)
    (large : .fin (1/2^1074) ≤ x ∨ .fin (1/2^1074) ≤ y) : .fin (1/2^1074) ≤ R.add x y := by
  cases x with
  | nan => cases left
  | negInf => cases left
  | posInf =>
    cases y with
    | nan => cases right
    | negInf => cases right
    | fin b => rfl
    | posInf => rfl
  | fin a =>
    cases y with
    | nan => cases right
    | negInf => cases right
    | posInf => rfl
    | fin b =>
      simp only [fin_le_fin] at left right large
      apply R.tiny_le_round
      rcases large with first | second
      · exact le_trans first (le_add_of_nonneg_right right)
      · exact le_trans second (le_add_of_nonneg_left left)

end Rounding

namespace F64
open Text

def scale (mantissa : Nat) (exponent : Int) : ℚ :=
  if 0 ≤ exponent then mantissa*10^exponent.toNat else mantissa/10^(-exponent).toNat

def exponent : Str → Option Int
  | [] => some 0
  | c :: rest => if c.toLower = 'e' then Decimal.integer rest else none

/-- An unsigned literal: digits on at least one side of an optional point, then an
optional exponent. -/
def number (s : Str) : Option ℚ :=
  let whole := s.takeWhile Char.isDigit
  let rest := s.dropWhile Char.isDigit
  let fraction := match rest with
    | '.' :: digits => digits.takeWhile Char.isDigit
    | _ => []
  let rest := match rest with
    | '.' :: digits => digits.dropWhile Char.isDigit
    | _ => rest
  if whole.isEmpty && fraction.isEmpty then none
  else (exponent rest).map (fun e => scale (Nat.ofDigitChars 10 (whole++fraction) 0) (e-fraction.length))

def special (s : Str) : Option F64 :=
  let name := s.map Char.toLower
  if name = "inf".toList ∨ name = "infinity".toList then some .posInf
  else if name = "nan".toList then some .nan else none

/-- `str::parse::<f64>`: the literal correctly rounded. -/
def parse (R : Rounding) (s : Str) : Option F64 :=
  let negative := s.head? = some '-'
  let body := if s.head? = some '-' ∨ s.head? = some '+' then s.tail else s
  match number body with
  | some q => some (R.round (if negative then -q else q))
  | none => (special body).map (fun x => if negative then x.neg else x)

end F64
end Vitals
