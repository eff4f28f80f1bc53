import Vitals.Library.Text
import Mathlib.Tactic.IntervalCases

/-! Decimal integers: `str::parse` at the fixed widths the kernel files use, and
the rendering of `Display`. A sign alone, an empty text and a value outside the
width are all refused; a leading `+` is accepted. -/
namespace Vitals.Decimal
open Text

def digits (s : Str) : Option Nat :=
  if s.isEmpty || !s.all Char.isDigit then none else some (Nat.ofDigitChars 10 s 0)

def natural : Str → Option Nat
  | '+' :: rest => digits rest
  | s => digits s

def integer : Str → Option Int
  | '-' :: rest => (digits rest).map (fun (n : Nat) => -(n : Int))
  | '+' :: rest => (digits rest).map Int.ofNat
  | s => (digits s).map Int.ofNat

def parseU64 (s : Str) : Option UInt64 :=
  (natural s).bind (fun n => if n < 2^64 then some (UInt64.ofNat n) else none)

def parseI32 (s : Str) : Option Int32 :=
  (integer s).bind (fun z => if -2^31 ≤ z ∧ z < 2^31 then some (Int32.ofInt z) else none)

def parseI64 (s : Str) : Option Int64 :=
  (integer s).bind (fun z => if -2^63 ≤ z ∧ z < 2^63 then some (Int64.ofInt z) else none)

def renderNat (n : Nat) : Str := Nat.toDigits 10 n

def renderInt : Int → Str
  | .ofNat n => renderNat n
  | .negSucc n => '-' :: renderNat (n+1)

theorem digit_of_mem_renderNat {c : Char} {n : Nat} (member : c ∈ renderNat n) : c.isDigit = true :=
  Nat.isDigit_of_mem_toDigits (by omega) (by omega) member

theorem renderNat_ne_nil (n : Nat) : renderNat n ≠ [] := Nat.toDigits_ne_nil

theorem renderNat_head {n : Nat} (positive : 0 < n) : (renderNat n).head? ≠ some '0' := by
  induction n using Nat.strongRecOn with
  | ind n ih =>
    by_cases single : n < 10
    · rw [renderNat,Nat.toDigits_of_lt_base single]
      interval_cases n <;> decide
    · have front := ih (n/10) (by omega) (by omega)
      rw [renderNat,Nat.toDigits_of_base_le (by omega) (by omega),List.head?_append_of_ne_nil _ Nat.toDigits_ne_nil]
      exact front

theorem digits_renderNat (n : Nat) : digits (renderNat n) = some n := by
  have all : (renderNat n).all Char.isDigit = true :=
    List.all_eq_true.mpr (fun _ member => digit_of_mem_renderNat member)
  have value : Nat.ofDigitChars 10 (renderNat n) 0 = n := Nat.ofDigitChars_toDigits (by omega) (by omega)
  simp [digits,all,renderNat_ne_nil,value]

/-- What a rendered number consists of: digits, and at most a minus sign. -/
def IsNumeral (c : Char) : Prop := c.isDigit = true ∨ c = '-'

theorem numeral_of_mem_renderInt {c : Char} {z : Int} (member : c ∈ renderInt z) : IsNumeral c := by
  cases z with
  | ofNat n => exact .inl (digit_of_mem_renderNat member)
  | negSucc n =>
    rcases List.mem_cons.mp member with rfl | member
    · exact .inr rfl
    · exact .inl (digit_of_mem_renderNat member)

theorem renderInt_ne_nil (z : Int) : renderInt z ≠ [] := by
  cases z with
  | ofNat n => exact renderNat_ne_nil n
  | negSucc n => simp [renderInt]

private theorem numeral_code {c : Char} (numeral : IsNumeral c) :
    c = '-' ∨ 48 ≤ c.toNat ∧ c.toNat ≤ 57 := by
  rcases numeral with digit | rfl
  · right
    simp only [Char.isDigit,Bool.and_eq_true,decide_eq_true_eq,ge_iff_le,UInt32.le_iff_toNat_le] at digit
    exact digit
  · exact .inl rfl

theorem numeral_not_whitespace {c : Char} (numeral : IsNumeral c) : isWhitespace c = false := by
  rcases numeral_code numeral with rfl | ⟨low,high⟩
  · decide
  · have code := Char.ofNat_toNat c
    generalize c.toNat = n at low high code
    subst code
    interval_cases n <;> decide

theorem numeral_not_ascii_whitespace {c : Char} (numeral : IsNumeral c) :
    isAsciiWhitespace c = false := by
  have outside := numeral_not_whitespace numeral
  simp only [isWhitespace,Bool.or_eq_false_iff] at outside
  exact outside.1.1.1

theorem numeral_ne {c d : Char} (numeral : IsNumeral c) (other : d.isDigit = false) (sign : d ≠ '-') :
    c ≠ d := by
  intro same
  subst d
  rcases numeral with digit | minus
  · simp [digit] at other
  · exact sign minus

theorem isWord_renderInt (z : Int) : IsWord (renderInt z) :=
  ⟨renderInt_ne_nil z,fun _ member => numeral_not_ascii_whitespace (numeral_of_mem_renderInt member)⟩

theorem isWord_renderNat (n : Nat) : IsWord (renderNat n) := isWord_renderInt (.ofNat n)

private theorem natural_renderNat (n : Nat) : natural (renderNat n) = some n := by
  have value := digits_renderNat n
  cases shape : renderNat n with
  | nil => exact absurd shape (renderNat_ne_nil n)
  | cons first rest =>
    have digit := digit_of_mem_renderNat (c := first) (n := n) (by simp [shape])
    have plus : first ≠ '+' := numeral_ne (.inl digit) (by decide) (by decide)
    rw [shape] at value
    simp [natural,plus,value]

theorem integer_renderInt (z : Int) : integer (renderInt z) = some z := by
  cases z with
  | ofNat n =>
    have value := digits_renderNat n
    cases shape : renderNat n with
    | nil => exact absurd shape (renderNat_ne_nil n)
    | cons first rest =>
      have digit := digit_of_mem_renderNat (c := first) (n := n) (by simp [shape])
      have plus : first ≠ '+' := numeral_ne (.inl digit) (by decide) (by decide)
      have minus : first ≠ '-' := by
        intro same
        simp [same] at digit
      rw [shape] at value
      simp [renderInt,shape,integer,plus,minus,value]
  | negSucc n =>
    change (digits (renderNat (n+1))).map (fun (n : Nat) => -(n : Int)) = some (Int.negSucc n)
    rw [digits_renderNat,Option.map_some,Int.negSucc_eq,Nat.cast_succ]

theorem parseU64_render (x : UInt64) : parseU64 (renderNat x.toNat) = some x := by
  simp [parseU64,natural_renderNat,x.toNat_lt]

/-- Rendered numbers are read back, whatever stands for a word that is no number. -/
theorem parse_rendered (ns : List UInt64) (fallback : UInt64) :
    (ns.map (fun n => renderNat n.toNat)).map (fun t => (parseU64 t).getD fallback) = ns := by
  rw [List.map_map]
  simp [Function.comp_def,parseU64_render]

theorem parseI32_render (x : Int32) : parseI32 (renderInt x.toInt) = some x := by
  have range : -2^31 ≤ x.toInt ∧ x.toInt < 2^31 := ⟨x.le_toInt,x.toInt_lt⟩
  rw [parseI32,integer_renderInt,Option.bind_some,if_pos range,Int32.ofInt_toInt]

theorem parseI64_render (x : Int64) : parseI64 (renderInt x.toInt) = some x := by
  have range : -2^63 ≤ x.toInt ∧ x.toInt < 2^63 := ⟨x.le_toInt,x.toInt_lt⟩
  rw [parseI64,integer_renderInt,Option.bind_some,if_pos range,Int64.ofInt_toInt]

end Vitals.Decimal
