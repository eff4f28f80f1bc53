import Vitals.Quantities
import Vitals.Library.Binary64

/-! Sizes as the screen shows them: six characters at most, within a twentieth of the true
number, and taken by the rule file as far as gigabytes. -/
namespace Vitals.HumanBytes
open Kernel Semantics Text Decimal Display Json F64 Binary64 Quantities Nearest

private theorem binary64_ofNat {n : Nat} (small : n ≤ 2^53) : Rounding.binary64.ofNat n = .fin n :=
  round_natCast small

/-- The loop divides without a rounding, so it changes the unit and not the number. -/
theorem scaleDown_spec (left i : Nat) {x : ℚ} {m : Nat} {e : Int} (value : x = m*2^e) (places : m ≤ 2^53)
    (low : -1074+10*left ≤ e) (high : x < 2^1024) (one : 1 ≤ x) :
    ∃ k, scaleDown .binary64 (.fin x) i left = (.fin (x/1024^k),i+k) ∧ k ≤ left ∧ 1 ≤ x/1024^k ∧
      (k = left ∨ x/1024^k < 1024) := by
  induction left generalizing i x e with
  | zero => exact ⟨0,by simp [scaleDown],le_rfl,by simpa using one,.inl rfl⟩
  | succ left ih =>
    have divisor : Rounding.binary64.ofNat 1024 = .fin 1024 := binary64_ofNat (by norm_num)
    rw [scaleDown,divisor]
    by_cases large : 1024 ≤ x
    · have smaller : x/1024 < 2^1024 := (div_le_self (by linarith) (by norm_num)).trans_lt high
      have shape : x/1024 = m*2^(e-10) := by
        rw [value,zpow_sub₀ (by norm_num)]
        ring
      have exact_ : Rounding.binary64.div (.fin x) (.fin 1024) = .fin (x/1024) := by
        rw [Rounding.div,if_neg (by norm_num)]
        exact round_exact shape places (by omega) smaller
      obtain ⟨k,loop,within,above,last⟩ := ih (i+1) shape (by omega) smaller ((one_le_div (by norm_num)).mpr large)
      have power : x/1024/1024^k = x/1024^(k+1) := by rw [div_div,pow_succ']
      rw [power] at loop above last
      refine ⟨k+1,?_,by omega,above,?_⟩
      · rw [if_pos ((fin_le_fin _ _).mpr large),exact_,loop,Nat.add_assoc,Nat.add_comm 1]
      · exact last.imp_left (congrArg Nat.succ)
    · rw [if_neg (mt (fin_le_fin _ _).mp large)]
      exact ⟨0,by simp,by omega,by simpa using one,.inr (by simpa using large)⟩

/-- A number of bytes in a unit that fits it, up to the rounding of the number itself. -/
structure Reduced (n k : Nat) (v : ℚ) : Prop where
  unit : 1 ≤ k ∧ k ≤ 5
  one_le : 1 ≤ v
  fits : v < 1024 ∨ k = 5
  close : |v*1024^k-n| ≤ n/2^53
  exact : n ≤ 2^53 → v*1024^k = n

private theorem reduced {n : Nat} (large : 1024 ≤ n) (small : n < 2^64) :
    ∃ k v, scaleDown .binary64 (Rounding.binary64.ofNat n) 0 5 = (.fin v,k) ∧ Reduced n k v := by
  have low : (1024 : ℚ) ≤ n := by exact_mod_cast large
  have high : (n : ℚ) ≤ 2^64 := by exact_mod_cast small.le
  have thousand : (2 : ℚ)^64 ≤ 2^1000 := pow_le_pow_right₀ (by norm_num) (by norm_num)
  obtain ⟨x,m,e,value,shape,places,exponent,one,close⟩ := round_normal (by linarith) (high.trans thousand)
  have bound : x < 2^1024 := by
    have above := (abs_le.mp close).2
    have part : (n : ℚ)/2^53 ≤ n := div_le_self (by positivity) (by norm_num)
    have double : x ≤ 2^65 := by linarith
    exact double.trans_lt (pow_lt_pow_right₀ (by norm_num) (by norm_num))
  have kilo : 1024 ≤ x := by
    have ordered := round_mono 1024 n low
    have same : Binary64.round (1024 : Nat) = .fin (1024 : Nat) := round_natCast (by norm_num)
    rw [Nat.cast_ofNat] at same
    rwa [same,value,fin_le_fin] at ordered
  obtain ⟨k,loop,within,above,fits⟩ := scaleDown_spec 5 0 shape places (by norm_num; omega) bound one
  have restored : x/1024^k*1024^k = x := div_mul_cancel₀ _ (by positivity)
  have some_ : 1 ≤ k := by
    rcases fits with last | less
    · omega
    · by_contra none
      obtain rfl : k = 0 := by omega
      rw [pow_zero,div_one] at less
      linarith
  refine ⟨k,x/1024^k,?_,⟨some_,within⟩,above,fits.symm,?_,?_⟩
  · have start : Rounding.binary64.ofNat n = .fin x := value
    rw [start,loop,Nat.zero_add]
  · rwa [restored]
  · intro exact_
    have same := round_natCast exact_
    rw [value] at same
    rw [restored]
    exact F64.fin.inj same

/-- What a reader can tell from a text, and what the rule file makes of it. -/
structure Legible (n : Nat) (text : Str) : Prop where
  short : text.length ≤ 6
  close : ∃ word k q, text = word ++ [byteUnits.getD k 'B'] ∧ k < byteUnits.length ∧ Reads word (.fin q) ∧
    |q*1024^k-n| ≤ n/20
  exact : n < 1024 → text = renderNat n ++ ['B']
  accepted : n < 2^40 → ∃ v, parseSize .binary64 text = some v ∧ |(v.toNat : ℚ)-n| ≤ n/20
  refused : 2^40 ≤ n → parseSize .binary64 text = none

structure Shows (n : Nat) (word : Str) (k : Nat) (q : ℚ) : Prop where
  reads : Reads word (.fin q)
  solid : ∀ c ∈ word, c.isDigit = true ∨ c = '.'
  short : word.length ≤ 5
  unit : k < byteUnits.length
  small : n < 1024 → k = 0
  whole : k = 0 → q = n
  one_le : k ≠ 0 → 1 ≤ q
  close : |q*1024^k-n| ≤ n/21
  tera : 4 ≤ k ↔ 2^40 ≤ n

section
variable {n k : Nat} {v : ℚ} (fits : Reduced n k v)
include fits

private theorem power_bounds : (1024 : ℚ) ≤ 1024^k ∧ (1024 : ℚ)^k ≤ 2^50 := by
  obtain ⟨low,high⟩ := fits.unit
  refine ⟨le_self_pow₀ (by norm_num) (by omega),?_⟩
  have power : (1024 : ℚ)^k ≤ 1024^5 := pow_le_pow_right₀ (by norm_num) high
  linarith

/-- Beyond 53 bits the number is a rounded one, and in the largest unit. -/
theorem exact_or_large : v*1024^k = n ∨ 2 ≤ v ∧ (2 : ℚ)^52 ≤ v*1024^k := by
  by_cases small : n ≤ 2^53
  · exact .inl (fits.exact small)
  · right
    obtain ⟨_,power⟩ := power_bounds fits
    have cast : (2 : ℚ)^53 ≤ n := by exact_mod_cast (not_le.mp small).le
    have close := (abs_le.mp fits.close).1
    have part : (n : ℚ)/2^53 ≤ n/2 := div_le_div_of_nonneg_left (by positivity) (by norm_num) (by norm_num)
    have large : (2 : ℚ)^52 ≤ v*1024^k := by linarith
    refine ⟨?_,large⟩
    by_contra less
    have product := mul_le_mul (not_le.mp less).le power (by positivity) (by norm_num)
    linarith

private theorem tera_iff : 4 ≤ k ↔ 2^40 ≤ n := by
  have one := fits.one_le
  refine ⟨?_,?_⟩
  · intro high
    have power : (1024 : ℚ)^4 ≤ 1024^k := pow_le_pow_right₀ (by norm_num) high
    by_contra small
    have exact_ := fits.exact (by omega)
    have cast : (n : ℚ) < 2^40 := by exact_mod_cast not_le.mp small
    have product := mul_le_mul one power (by norm_num) (zero_le_one.trans one)
    linarith
  · intro large
    have cast : (2 : ℚ)^40 ≤ n := by exact_mod_cast large
    by_contra low
    have less : v < 1024 := fits.fits.resolve_right (by omega)
    have power : (1024 : ℚ)^k ≤ 1024^3 := pow_le_pow_right₀ (by norm_num) (by omega)
    have product := mul_lt_mul less power (by positivity) (by norm_num)
    rcases exact_or_large fits with exact_ | ⟨_,above⟩ <;> linarith

private theorem reduced_lt (below : n < 2^64) : v < 32768 := by
  rcases fits.fits with less | rfl
  · linarith
  · have close := (abs_le.mp fits.close).2
    have part : (n : ℚ)/2^53 ≤ n := div_le_self (by positivity) (by norm_num)
    have cast : (n : ℚ) < 2^64 := by exact_mod_cast below
    linarith

end

private theorem shows_small {n : Nat} (small : n < 1024) : Shows n (renderNat n) 0 n where
  reads := by
    have reads := reads_digits (isDigits_renderNat n)
    rwa [show Nat.ofDigitChars 10 (renderNat n) 0 = n from Nat.ofDigitChars_ten_toDigits] at reads
  solid := fun _ member => .inl (digit_of_mem_renderNat member)
  short := (Nat.length_toDigits_le_iff (by omega) (by omega)).mpr (by omega)
  unit := by decide
  small := fun _ => rfl
  whole := fun _ => rfl
  one_le := fun other => absurd rfl other
  close := by
    rw [pow_zero,mul_one,sub_self,abs_zero]
    positivity
  tera := by omega

private theorem error_small {digits : Nat} {v : ℚ} (one : 1 ≤ v)
    (chosen : digits = 0 ∧ 100 ≤ v ∨ digits = 1 ∧ v < 100) :
    |(lastDecimals digits v : ℚ)/10^digits-v| ≤ v/21 ∧ (2 ≤ v → |(lastDecimals digits v : ℚ)/10^digits-v| ≤ v/40) := by
  have near := lastDecimals_close digits (zero_le_one.trans one)
  rcases chosen with ⟨rfl,wide⟩ | ⟨rfl,_⟩
  · constructor <;> intros <;> linarith
  · refine ⟨?_,fun two => by linarith⟩
    rcases le_or_gt (21/20) v with above | below
    · linarith
    · -- then the text is that of one
      have least := lastDecimals_mono 1 zero_le_one one
      have unit := lastDecimals_natCast 1 1
      rw [Nat.cast_one] at unit
      rw [unit] at least
      have cast : (lastDecimals 1 v : ℚ) < (11 : Nat) := by
        push_cast
        linarith [(abs_le.mp near).2]
      have most := Nat.cast_lt.mp cast
      have value : lastDecimals 1 v = 10 := by omega
      rw [value,abs_le]
      constructor <;> norm_num <;> linarith

private theorem length_shown {digits : Nat} {v : ℚ} (nonneg : 0 ≤ v) (below : v < 32768)
    (chosen : digits = 0 ∧ 100 ≤ v ∨ digits = 1 ∧ v < 100) : (decimals digits (.fin v)).length ≤ 5 := by
  rcases chosen with ⟨rfl,_⟩ | ⟨rfl,small⟩
  · have bound := lastDecimals_mono 0 nonneg (show v ≤ (32768 : Nat) by exact_mod_cast below.le)
    rw [lastDecimals_natCast] at bound
    exact length_decimals (k := 5) nonneg (by omega) (by omega)
  · have bound := lastDecimals_mono 1 nonneg (show v ≤ (100 : Nat) by exact_mod_cast small.le)
    rw [lastDecimals_natCast] at bound
    exact length_decimals (k := 3) nonneg (by omega) (by omega)

private theorem shows_decimals {n k digits : Nat} {v : ℚ} (fits : Reduced n k v) (large : 1024 ≤ n) (below : n < 2^64)
    (chosen : digits = 0 ∧ 100 ≤ v ∨ digits = 1 ∧ v < 100) :
    Shows n (decimals digits (.fin v)) k (lastDecimals digits v/10^digits) := by
  have one := fits.one_le
  have nonneg : 0 ≤ v := zero_le_one.trans one
  have power : (0 : ℚ) < 10^digits := by positivity
  have whole : (lastDecimals digits 1 : ℚ) = 10^digits := by
    have value := lastDecimals_natCast digits 1
    rw [Nat.cast_one,one_mul] at value
    rw [value,Nat.cast_pow,Nat.cast_ofNat]
  refine ⟨reads_decimals digits nonneg,?_,?_,?_,?_,?_,?_,?_,tera_iff fits⟩
  · intro c member
    rw [decimals,if_neg (not_lt.mpr nonneg),List.nil_append] at member
    exact fixedPoint_solid member
  · exact length_shown nonneg (reduced_lt fits below) chosen
  · have within := fits.unit.2
    change k < 6
    omega
  · intro small
    omega
  · intro none
    have some_ := fits.unit.1
    omega
  · intro _
    rw [one_le_div power,← whole]
    exact_mod_cast lastDecimals_mono digits zero_le_one one
  · obtain ⟨first,second⟩ := error_small one chosen
    have power : (0 : ℚ) < 1024^k := by positivity
    have split : lastDecimals digits v/10^digits*1024^k-n =
        (lastDecimals digits v/10^digits-v)*1024^k+(v*1024^k-n) := by ring
    rw [split]
    refine (abs_add_le _ _).trans ?_
    rw [abs_mul,abs_of_pos power]
    rcases exact_or_large fits with exact_ | ⟨two,_⟩
    · rw [← exact_,sub_self,abs_zero]
      linarith [mul_le_mul_of_nonneg_right first power.le]
    · have product := mul_le_mul_of_nonneg_right (second two) power.le
      have above := (abs_le.mp fits.close).2
      have part : (n : ℚ)/2^53 ≤ n/100 := div_le_div_of_nonneg_left (by positivity) (by norm_num) (by norm_num)
      linarith [fits.close]

theorem humanBytes_shows (n : UInt64) :
    ∃ word k q, humanBytes .binary64 n = word ++ [byteUnits.getD k 'B'] ∧ Shows n.toNat word k q := by
  unfold humanBytes
  have hundred : Rounding.binary64.ofNat 100 = .fin 100 := binary64_ofNat (by norm_num)
  by_cases small : n < 1024
  · rw [if_pos small]
    exact ⟨_,0,_,rfl,shows_small (UInt64.lt_iff_toNat_lt.mp small)⟩
  · have large : 1024 ≤ n.toNat := UInt64.le_iff_toNat_le.mp (UInt64.not_lt.mp small)
    obtain ⟨k,v,loop,fits⟩ := reduced large n.toNat_lt
    have steps : byteUnits.length-1 = 5 := rfl
    rw [if_neg small,steps,loop,hundred]
    by_cases wide : 100 ≤ v
    · exact ⟨_,k,_,if_pos ((fin_le_fin _ _).mpr wide),shows_decimals fits large n.toNat_lt (.inl ⟨rfl,wide⟩)⟩
    · exact ⟨_,k,_,if_neg (mt (fin_le_fin _ _).mp wide),
        shows_decimals fits large n.toNat_lt (.inr ⟨rfl,not_le.mp wide⟩)⟩

private theorem toU64_bounds {z : ℚ} (nonneg : 0 ≤ z) (small : z < 2^64) :
    ((toU64 (.fin z)).toNat : ℚ) ≤ z ∧ z < (toU64 (.fin z)).toNat+1 := by
  obtain ⟨below,above⟩ := floor_bounds nonneg
  have within : z.floor.toNat < 2^64 := by
    have cast : (z.floor.toNat : ℚ) < (2^64 : Nat) := by
      push_cast
      exact below.trans_lt small
    exact Nat.cast_lt.mp cast
  rw [toU64,if_neg (not_le.mpr small),UInt64.toNat_ofNat_of_lt' within]
  exact ⟨below,above⟩

private theorem unit_solid {k : Nat} (within : k < byteUnits.length) :
    isWhitespace (byteUnits.getD k 'B') = false := by
  have all : ∀ k < 6, isWhitespace (byteUnits.getD k 'B') = false := by decide
  exact all k within

private theorem solid_character {c : Char} (solid : c.isDigit = true ∨ c = '.') : isWhitespace c = false := by
  rcases solid with digit | rfl
  · exact numeral_not_whitespace (.inl digit)
  · decide

section
variable {n k : Nat} {word : Str} {q : ℚ} (shows : Shows n word k q)
include shows

private theorem trim_text : trim (word ++ [byteUnits.getD k 'B']) = word ++ [byteUnits.getD k 'B'] := by
  apply trim_ordinary
  intro c member
  rcases List.mem_append.mp member with inside | last
  · exact solid_character (shows.solid c inside)
  · rw [List.mem_singleton.mp last]
    exact unit_solid shows.unit

private theorem written_text (small : n < 2^40) :
    Written sizeUnits (word ++ [byteUnits.getD k 'B']) (.fin q) (1024^k) := by
  have known : ∀ k < 4, ([byteUnits.getD k 'B'],1024^k) ∈ sizeUnits := by decide +kernel
  have within : k < 4 := by
    have tera := shows.tera
    omega
  exact ⟨word,[],_,trim_text shows,by simp,known k within,shows.reads⟩

/-- The units above are not, and no other reading is left. -/
theorem not_written (large : 2^40 ≤ n) (x : F64) (scale : Nat) :
    ¬ Written sizeUnits (word ++ [byteUnits.getD k 'B']) x scale := by
  rintro ⟨word',gap,unit,split,blank,member,reads⟩
  rw [trim_text shows] at split
  have last : (word' ++ (gap ++ unit)).getLast? = some (byteUnits.getD k 'B') := by
    rw [← split,List.getLast?_append]
    rfl
  have unknown : ∀ k < 6, 4 ≤ k → unitLetter (byteUnits.getD k 'B') = false ∧ ends (byteUnits.getD k 'B') = false := by
    decide +kernel
  obtain ⟨letter,ending⟩ := unknown k shows.unit (shows.tera.mpr large)
  rw [List.getLast?_append,List.getLast?_append] at last
  rcases Option.or_eq_some_iff.mp last with last | ⟨_,last⟩
  · rcases Option.or_eq_some_iff.mp last with last | ⟨_,last⟩
    · have letters := List.all_eq_true.mp (sizeUnits_ordered.letters _ member) _ (List.mem_of_getLast? last)
      rw [letter] at letters
      cases letters
    · have space := blank _ (List.mem_of_getLast? last)
      rw [unit_solid shows.unit] at space
      cases space
  · have concluded := concluded_reads reads _ last
    rw [ending] at concluded
    cases concluded

private theorem reread (small : n < 2^40) :
    ∃ v, parseSize .binary64 (word ++ [byteUnits.getD k 'B']) = some v ∧ |(v.toNat : ℚ)-n| ≤ n/20 := by
  have written := written_text shows small
  have tera := shows.tera
  have scale : Rounding.binary64.ofNat (1024^k) = .fin (1024^k : Nat) := by
    refine binary64_ofNat ((Nat.pow_le_pow_right (by norm_num) (show k ≤ 3 by omega)).trans (by norm_num))
  rw [parseSize_eq]
  by_cases bytes : k = 0
  · obtain rfl := shows.whole bytes
    have value : rounded .binary64 (.fin (n : ℚ)) = .fin n := round_natCast (by omega)
    have accepted : scaled .binary64 sizeUnits (word ++ [byteUnits.getD k 'B']) = some (.fin n) := by
      refine (scaled_iff .binary64 sizeUnits_ordered).mpr ⟨_,_,written,?_,?_⟩
      · rw [value,fin_lt_fin]
        exact not_lt.mpr (Nat.cast_nonneg n)
      · rw [value,scale,bytes,pow_zero,Nat.cast_one,Rounding.mul,mul_one]
        exact round_natCast (by omega)
    refine ⟨(toU64 (.fin (n : ℚ))),by rw [accepted,Option.map_some],?_⟩
    rw [toU64_natCast (by omega),sub_self,abs_zero]
    positivity
  · have one := shows.one_le bytes
    have large : (1024 : ℚ) ≤ n := by exact_mod_cast not_lt.mp (mt shows.small bytes)
    have high : (n : ℚ) ≤ 2^40 := by exact_mod_cast small.le
    have power : (1 : ℚ) ≤ 1024^k := one_le_pow₀ (by norm_num)
    obtain ⟨low,above⟩ := abs_le.mp shows.close
    have bound : q ≤ q*1024^k := le_mul_of_one_le_right (by linarith) power
    have thousand : (2 : ℚ)^42 ≤ 2^1000 := pow_le_pow_right₀ (by norm_num) (by norm_num)
    obtain ⟨y,m,e,value,shape,places,exponent,above_one,near⟩ :=
      round_normal one ((show q ≤ 2^42 by linarith).trans thousand)
    -- the parsed word is off by its rounding, which the scaling carries over without another
    have error : |y*1024^k-q*1024^k| ≤ n/1000000 := by
      rw [← sub_mul,abs_mul,abs_of_nonneg (show (0 : ℚ) ≤ 1024^k by positivity)]
      have carried := mul_le_mul_of_nonneg_right near (show (0 : ℚ) ≤ 1024^k by positivity)
      have part : q/2^53*1024^k = q*1024^k/2^53 := by ring
      rw [part] at carried
      refine carried.trans ?_
      rw [div_le_iff₀ (by positivity)]
      linarith
    obtain ⟨less,more⟩ := abs_le.mp error
    have nonneg : 0 ≤ y*1024^k := by linarith
    have scaled_ : y*1024^k = m*2^(e+10*k) := by
      have kilo : (1024 : ℚ)^k = 2^(10*(k : Int)) := by
        rw [zpow_mul,zpow_natCast]
        norm_num
      rw [shape,power_add,kilo]
      ring
    have fits : y*1024^k < 2^64 := by linarith
    have product : Binary64.round (y*1024^k) = .fin (y*1024^k) :=
      round_exact scaled_ places (by omega) (fits.trans (pow_lt_pow_right₀ (by norm_num) (by norm_num)))
    have read : rounded .binary64 (.fin q) = .fin y := value
    have accepted : scaled .binary64 sizeUnits (word ++ [byteUnits.getD k 'B']) = some (.fin (y*1024^k)) := by
      refine (scaled_iff .binary64 sizeUnits_ordered).mpr ⟨_,_,written,?_,?_⟩
      · rw [read,fin_lt_fin]
        linarith
      · rw [read,scale,Rounding.mul,Nat.cast_pow,Nat.cast_ofNat]
        exact product
    obtain ⟨under,beyond⟩ := toU64_bounds nonneg fits
    refine ⟨_,by rw [accepted,Option.map_some],abs_le.mpr ⟨?_,?_⟩⟩ <;> linarith

private theorem refused (large : 2^40 ≤ n) : parseSize .binary64 (word ++ [byteUnits.getD k 'B']) = none := by
  rw [parseSize_eq]
  cases accepted : scaled .binary64 sizeUnits (word ++ [byteUnits.getD k 'B']) with
  | none => rfl
  | some v =>
    obtain ⟨x,scale,written,_⟩ := (scaled_iff .binary64 sizeUnits_ordered).mp accepted
    exact absurd written (not_written shows large x scale)

end

/-- Every number of bytes is shown in six characters, to a twentieth of it, and below a
terabyte the rule file reads the text as the same size; above it refuses the unit. -/
theorem human_bytes_legible (n : UInt64) : Legible n.toNat (humanBytes .binary64 n) := by
  obtain ⟨word,k,q,text,shows⟩ := humanBytes_shows n
  rw [text]
  refine ⟨?_,⟨word,k,q,rfl,shows.unit,shows.reads,?_⟩,?_,reread shows,refused shows⟩
  · rw [List.length_append,List.length_singleton]
    exact Nat.succ_le_succ shows.short
  · refine shows.close.trans ?_
    exact div_le_div_of_nonneg_left (Nat.cast_nonneg _) (by norm_num) (by norm_num)
  · intro small
    rw [← text,humanBytes,if_pos (UInt64.lt_iff_toNat_lt.mpr small)]

end Vitals.HumanBytes
