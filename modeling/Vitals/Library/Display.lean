import Vitals.Library.FloatText
import Vitals.Library.Nearest

/-! Numbers and columns as the formatter of the standard library writes them. -/
namespace Vitals.Display
open Text Decimal Nearest F64 Json

/-- `{:>width}`. -/
def padLeft (width : Nat) (s : Str) : Str := s.leftpad width ' '

/-- `{:<width}`. -/
def padRight (width : Nat) (s : Str) : Str := s.rightpad width ' '

/-- How many units of the last decimal a number comes to. -/
def lastDecimals (digits : Nat) (q : ℚ) : Nat := nearest (|q| * 10^digits)

/-- The decimals behind the point, with their leading zeros. -/
def fraction (digits n : Nat) : Str := (renderNat (n % 10^digits)).leftpad digits '0'

def fixedPoint (digits n : Nat) : Str :=
  renderNat (n / 10^digits) ++ if digits = 0 then [] else '.' :: fraction digits n

/-- `{:.digits}` of a float: the exact value to the nearest unit of the last decimal, ties to
even. A zero is taken to be the positive one. -/
def decimals (digits : Nat) : F64 → Str
  | .nan => "NaN".toList
  | .negInf => "-inf".toList
  | .posInf => "inf".toList
  | .fin q => (if q < 0 then ['-'] else []) ++ fixedPoint digits (lastDecimals digits q)

example : decimals 1 (.fin (1023/20)) = "51.2".toList ∧ decimals 0 (.fin (5/2)) = "2".toList := by decide +kernel

theorem length_padLeft (width : Nat) (s : Str) : (padLeft width s).length = max width s.length := List.length_leftpad

theorem padLeft_spec (width : Nat) (s : Str) : padLeft width s = List.replicate (width-s.length) ' ' ++ s := rfl

theorem length_fraction {digits : Nat} (some_ : 0 < digits) (n : Nat) : (fraction digits n).length = digits := by
  have short : (renderNat (n % 10^digits)).length ≤ digits :=
    (Nat.length_toDigits_le_iff (by omega) some_).mpr (Nat.mod_lt _ (by positivity))
  rw [fraction,List.length_leftpad]
  omega

theorem digit_of_mem_fraction {digits n : Nat} {c : Char} (member : c ∈ fraction digits n) : c.isDigit = true := by
  rcases List.mem_append.mp member with padding | digit
  · rw [List.eq_of_mem_replicate padding]
    rfl
  · exact digit_of_mem_renderNat digit

theorem ofDigitChars_fraction {digits : Nat} (some_ : 0 < digits) (n init : Nat) :
    Nat.ofDigitChars 10 (fraction digits n) init = 10^digits*init + n % 10^digits := by
  have zeros : Nat.ofDigitChars 10 (List.replicate (digits - (renderNat (n % 10^digits)).length) '0') 0 = 0 := by
    rw [Nat.ofDigitChars_replicate_zero,Nat.mul_zero]
  have value : Nat.ofDigitChars 10 (fraction digits n) 0 = n % 10^digits := by
    rw [fraction,List.leftpad,Nat.ofDigitChars_append,zeros]
    exact Nat.ofDigitChars_ten_toDigits
  rw [Nat.ofDigitChars_eq_ofDigitChars_zero,value,length_fraction some_]

theorem fixedPoint_zero (n : Nat) : fixedPoint 0 n = renderNat n := by
  rw [fixedPoint,if_pos rfl,List.append_nil,Nat.pow_zero,Nat.div_one]

theorem fixedPoint_point {digits : Nat} (some_ : 0 < digits) (n : Nat) :
    fixedPoint digits n = renderNat (n / 10^digits) ++ '.' :: fraction digits n := by
  rw [fixedPoint,if_neg (by omega)]

theorem isDigits_renderNat (n : Nat) : IsDigits (renderNat n) :=
  ⟨renderNat_ne_nil n,fun _ member => digit_of_mem_renderNat member⟩

theorem literal_fixedPoint (digits n : Nat) : Literal (fixedPoint digits n) (n/10^digits) := by
  have whole (n : Nat) : Nat.ofDigitChars 10 (renderNat n) 0 = n := Nat.ofDigitChars_ten_toDigits
  rcases Nat.eq_zero_or_pos digits with rfl | some_
  · have literal := Literal.integer (isDigits_renderNat n) .none
    have value : scale (Nat.ofDigitChars 10 (renderNat n) 0) 0 = n/10^0 := by simp [scale,whole]
    rwa [List.append_nil,value,← fixedPoint_zero] at literal
  · have both : IsDigits (renderNat (n / 10^digits) ++ fraction digits n) :=
      ⟨List.append_ne_nil_of_left_ne_nil (renderNat_ne_nil _) _,List.forall_mem_append.mpr
        ⟨(isDigits_renderNat _).2,fun _ member => digit_of_mem_fraction member⟩⟩
    have value : Nat.ofDigitChars 10 (renderNat (n / 10^digits) ++ fraction digits n) 0 = n := by
      rw [Nat.ofDigitChars_append,whole,ofDigitChars_fraction some_,Nat.div_add_mod]
    have places : ¬ (0 : Int) ≤ 0-digits := by omega
    have literal := Literal.decimal both .none
    rw [value,length_fraction some_,scale,if_neg places,List.append_nil,← fixedPoint_point some_] at literal
    simpa using literal

theorem reads_decimals (digits : Nat) {q : ℚ} (nonneg : 0 ≤ q) :
    Reads (decimals digits (.fin q)) (.fin (lastDecimals digits q/10^digits)) := by
  rw [decimals,if_neg (not_lt.mpr nonneg),List.nil_append]
  exact .plain (.literal (literal_fixedPoint digits _))

theorem lastDecimals_close (digits : Nat) {q : ℚ} (nonneg : 0 ≤ q) :
    |(lastDecimals digits q : ℚ)/10^digits-q| ≤ 1/(2*10^digits) := by
  have power : (0 : ℚ) < 10^digits := by positivity
  have near := nearest_close (mul_nonneg nonneg power.le)
  have scaled : (lastDecimals digits q : ℚ)/10^digits-q = (nearest (q*10^digits)-q*10^digits)/10^digits := by
    rw [lastDecimals,abs_of_nonneg nonneg,sub_div,mul_div_cancel_right₀ _ power.ne']
  rw [scaled,abs_div,abs_of_pos power,div_le_iff₀ power]
  refine near.trans (le_of_eq ?_)
  field_simp

theorem lastDecimals_mono (digits : Nat) {p q : ℚ} (nonneg : 0 ≤ p) (ordered : p ≤ q) :
    lastDecimals digits p ≤ lastDecimals digits q := by
  rw [lastDecimals,lastDecimals,abs_of_nonneg nonneg,abs_of_nonneg (nonneg.trans ordered)]
  exact nearest_mono (by positivity) (mul_le_mul_of_nonneg_right ordered (by positivity))

theorem lastDecimals_natCast (digits n : Nat) : lastDecimals digits n = n*10^digits := by
  have cast : |(n : ℚ)| * 10^digits = (n*10^digits : Nat) := by
    rw [abs_of_nonneg (Nat.cast_nonneg n)]
    push_cast
    rfl
  rw [lastDecimals,cast,nearest_natCast]

theorem length_fixedPoint {digits n k : Nat} (some_ : 0 < k) (small : n < 10^(k+digits)) :
    (fixedPoint digits n).length ≤ if digits = 0 then k else k+1+digits := by
  have whole : (renderNat (n / 10^digits)).length ≤ k := by
    refine (Nat.length_toDigits_le_iff (by omega) some_).mpr ?_
    rw [Nat.pow_add] at small
    exact Nat.div_lt_of_lt_mul (by rwa [Nat.mul_comm] at small)
  rcases Nat.eq_zero_or_pos digits with rfl | point
  · rw [fixedPoint_zero,if_pos rfl]
    simpa using whole
  · rw [fixedPoint_point point,if_neg (by omega),List.length_append,List.length_cons,length_fraction point]
    omega

theorem length_decimals {digits k : Nat} {q : ℚ} (nonneg : 0 ≤ q) (some_ : 0 < k)
    (small : lastDecimals digits q < 10^(k+digits)) :
    (decimals digits (.fin q)).length ≤ if digits = 0 then k else k+1+digits := by
  rw [decimals,if_neg (not_lt.mpr nonneg),List.nil_append]
  exact length_fixedPoint some_ small

theorem fixedPoint_solid {digits n : Nat} {c : Char} (member : c ∈ fixedPoint digits n) :
    c.isDigit = true ∨ c = '.' := by
  rcases Nat.eq_zero_or_pos digits with rfl | point
  · rw [fixedPoint_zero] at member
    exact .inl (digit_of_mem_renderNat member)
  · rw [fixedPoint_point point,List.mem_append,List.mem_cons] at member
    rcases member with whole | rfl | fraction
    · exact .inl (digit_of_mem_renderNat whole)
    · exact .inr rfl
    · exact .inl (digit_of_mem_fraction fraction)

theorem isWord_of_all {s : Str} (plain : (!s.isEmpty && s.all (fun c => !isAsciiWhitespace c)) = true) : IsWord s := by
  simpa [IsWord] using plain

theorem isWord_decimals (digits : Nat) (x : F64) : IsWord (decimals digits x) := by
  cases x with
  | nan => exact isWord_of_all (s := "NaN".toList) (by decide +kernel)
  | negInf => exact isWord_of_all (s := "-inf".toList) (by decide +kernel)
  | posInf => exact isWord_of_all (s := "inf".toList) (by decide +kernel)
  | fin q =>
    refine ⟨?_,?_⟩
    · exact List.append_ne_nil_of_right_ne_nil _ (List.append_ne_nil_of_left_ne_nil (renderNat_ne_nil _) _)
    · intro c member
      rcases List.mem_append.mp member with sign | number
      · split_ifs at sign
        · obtain rfl := List.mem_singleton.mp sign
          decide
        · cases sign
      · rcases fixedPoint_solid number with digit | rfl
        · exact numeral_not_ascii_whitespace (.inl digit)
        · decide

theorem split_padLeft (width : Nat) {cell rest : Str} (word : IsWord cell)
    (apart : ∀ c, rest.head? = some c → isAsciiWhitespace c = true) :
    splitAsciiWhitespace (padLeft width cell ++ rest) = cell :: splitAsciiWhitespace rest := by
  rw [padLeft_spec,List.append_assoc,split_blanks,split_word_before word apart]

end Vitals.Display
