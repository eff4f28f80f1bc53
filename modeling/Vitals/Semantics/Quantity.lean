import Vitals.Kernel.Units
import Vitals.Library.FloatText

/-! What a size or a duration of the rule file may look like. -/
namespace Vitals.Semantics
open Kernel Text Json F64

/-- Units with the number of bytes in each. -/
def sizeUnits : List (Str × Nat) :=
  [("GB".toList,2^30),("G".toList,2^30),("MB".toList,2^20),("M".toList,2^20),("KB".toList,2^10),("K".toList,2^10),
  ("B".toList,1),("".toList,1)]

/-- Units with the number of milliseconds in each. -/
def durationUnits : List (Str × Nat) :=
  [("ms".toList,1),("s".toList,1000),("m".toList,60000),("h".toList,3600000),("".toList,1000)]

section
variable (units : List (Str × Nat)) (s : Str)

/-- A word that stands for `x`, and behind it a unit or none. Blank space around the two
and between them does not count. -/
def Written (x : F64) (scale : Nat) : Prop :=
  ∃ word gap unit, trim s = word ++ (gap ++ unit) ∧ (∀ b ∈ gap, isWhitespace b = true) ∧ (unit,scale) ∈ units ∧
    Reads word x

/-- A finite decimal number that is not negative, with its unit. -/
def Quantity : Prop := ∃ q scale, 0 ≤ q ∧ Written units s (.fin q) scale

end

section
variable (R : Rounding)

/-- A spelling of not-a-number or of positive infinity, or a negative number too small to be
told from zero, with its unit. -/
def Misread (units : List (Str × Nat)) (s : Str) : Prop :=
  (∃ scale, Written units s .nan scale) ∨ (∃ scale, Written units s .posInf scale) ∨
    ∃ q scale, q < 0 ∧ R.round q = .fin 0 ∧ Written units s (.fin q) scale

/-- What a token says is what is read from it: only quantities are accepted, and a natural
number with a unit is exact up to 53 bits, a duration being in nanoseconds. -/
structure Meant (s : Str) : Prop where
  size : (parseSize R s).isSome → Quantity sizeUnits s
  duration : (parseDuration R s).isSome → Quantity durationUnits s
  bytes : ∀ digits unit scale, (unit,scale) ∈ sizeUnits → IsDigits digits → trim s = digits ++ unit →
    Nat.ofDigitChars 10 digits 0 * scale ≤ 2^53 →
      (parseSize R s).map UInt64.toNat = some (Nat.ofDigitChars 10 digits 0 * scale)
  millis : ∀ digits unit scale, (unit,scale) ∈ durationUnits → IsDigits digits → trim s = digits ++ unit →
    Nat.ofDigitChars 10 digits 0 * scale ≤ 2^53 →
      parseDuration R s = some (Nat.ofDigitChars 10 digits 0 * scale * 10^6)

end
end Vitals.Semantics
