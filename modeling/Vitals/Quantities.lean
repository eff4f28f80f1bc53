import Vitals.Semantics.Quantity
import Vitals.Library.Suffixes

/-! Sizes and durations against their grammar. The cut at a unit is unambiguous, since no
word that the float parser accepts ends in a letter of a unit; the check on the sign then
lets through whatever does not compare below zero. -/
namespace Vitals.Quantities
open Kernel Semantics Text Json F64 Suffixes

def unitLetter (c : Char) : Bool := "GMKBmsh".toList.contains c

theorem sizeUnits_ordered : Ordered unitLetter sizeUnits where
  letters := by decide +kernel
  apart := by decide +kernel

private theorem durationUnits_ordered : Ordered unitLetter durationUnits where
  letters := by decide +kernel
  apart := by decide +kernel

section
variable (R : Rounding)

/-- What both parsers do with a table of units: cut, parse, refuse what is below zero, scale. -/
def scaled (units : List (Str × Nat)) (s : Str) : Option F64 :=
  (cutFirst units (trim s)).bind (fun e => (parse R (trim e.1)).bind (fun v =>
    if v < .fin 0 then none else some (R.mul v (R.ofNat e.2))))

private theorem scaled_map {α : Type} (g : F64 → α) (units : List (Str × Nat)) (s : Str) : (scaled R units s).map g =
    (cutFirst units (trim s)).bind (fun e => (parse R (trim e.1)).bind (fun v =>
      if v < .fin 0 then none else some (g (R.mul v (R.ofNat e.2))))) := by
  unfold scaled
  cases cutFirst units (trim s) with
  | none => rfl
  | some e =>
    simp only [Option.bind_some]
    cases parse R (trim e.1) with
    | none => rfl
    | some v =>
      simp only [Option.bind_some]
      split_ifs <;> rfl

private theorem stripSuffix_empty (s : Str) : stripSuffix "".toList s = some s :=
  (stripSuffix_eq_some _ _ _).mpr (List.append_nil s).symm

/-- The cascade of the source is a table in its order. -/
theorem parseSize_eq (s : Str) : parseSize R s = (scaled R sizeUnits s).map F64.toU64 := by
  rw [scaled_map]
  unfold parseSize cutFirst sizeUnits
  simp only [List.findSome?_cons,stripSuffix_empty]
  cases stripSuffix "GB".toList (trim s) with
  | some p => rfl
  | none =>
  cases stripSuffix "G".toList (trim s) with
  | some p => rfl
  | none =>
  cases stripSuffix "MB".toList (trim s) with
  | some p => rfl
  | none =>
  cases stripSuffix "M".toList (trim s) with
  | some p => rfl
  | none =>
  cases stripSuffix "KB".toList (trim s) with
  | some p => rfl
  | none =>
  cases stripSuffix "K".toList (trim s) with
  | some p => rfl
  | none => cases stripSuffix "B".toList (trim s) <;> rfl

private theorem parseDuration_eq (s : Str) :
    parseDuration R s = (scaled R durationUnits s).map (fun v => v.toU64.toNat*10^6) := by
  rw [scaled_map]
  unfold parseDuration cutFirst durationUnits
  simp only [List.findSome?_cons,stripSuffix_empty]
  cases stripSuffix "ms".toList (trim s) with
  | some p => rfl
  | none =>
  cases stripSuffix "s".toList (trim s) with
  | some p => rfl
  | none =>
  cases stripSuffix "m".toList (trim s) with
  | some p => rfl
  | none => cases stripSuffix "h".toList (trim s) <;> rfl

section
variable {units : List (Str × Nat)} (ordered : Ordered unitLetter units) {s : Str} {x y v : F64} {scale other : Nat}

private theorem unitLetter_cases {c : Char} (letter : unitLetter c = true) :
    c = 'G' ∨ c = 'M' ∨ c = 'K' ∨ c = 'B' ∨ c = 'm' ∨ c = 's' ∨ c = 'h' := by
  have listed : c ∈ ['G','M','K','B','m','s','h'] := List.contains_iff_mem.mp letter
  simpa using listed

/-- Neither blank space nor the end of a word of the float parser is part of a unit. -/
theorem unitLetter_apart {c : Char} (other : isWhitespace c = true ∨ ends c = true) : unitLetter c = false := by
  by_contra letter
  rcases unitLetter_cases (eq_true_of_ne_false letter) with rfl | rfl | rfl | rfl | rfl | rfl | rfl <;>
    exact absurd other (by decide)

include ordered

private theorem written_iff : Written units s x scale ↔
    ∃ front, cutFirst units (trim s) = some (front,scale) ∧ Reads (trim front) x := by
  refine ⟨?_,?_⟩
  · rintro ⟨word,gap,unit,whole,blank,member,reads⟩
    have stop : ∀ c, (word ++ gap).getLast? = some c → unitLetter c = false := by
      intro c last
      rw [List.getLast?_append] at last
      rcases Option.or_eq_some_iff.mp last with last | ⟨_,last⟩
      · exact unitLetter_apart (.inl (blank c (List.mem_of_getLast? last)))
      · exact unitLetter_apart (.inr (concluded_reads reads c last))
    refine ⟨word ++ gap,?_,?_⟩
    · rw [whole,← List.append_assoc]
      exact cutFirst_append ordered member stop
    · rw [reads_trim reads blank]
      exact reads
  · rintro ⟨front,cut,reads⟩
    obtain ⟨unit,member,whole⟩ := of_cutFirst cut
    obtain ⟨gap,split,blank⟩ := trim_front whole
    refine ⟨trim front,gap,unit,?_,blank,member,reads⟩
    rw [← List.append_assoc,← split]
    exact whole

private theorem written_unique (first : Written units s x scale) (second : Written units s y other) :
    x = y ∧ scale = other := by
  obtain ⟨front,cut,reads⟩ := (written_iff ordered).mp first
  obtain ⟨front',cut',reads'⟩ := (written_iff ordered).mp second
  obtain ⟨rfl,rfl⟩ := Prod.mk.inj (Option.some.inj (cut.symm.trans cut'))
  exact ⟨reads_unique reads reads',rfl⟩

theorem scaled_iff : scaled R units s = some v ↔ ∃ x scale, Written units s x scale ∧
    ¬ rounded R x < .fin 0 ∧ R.mul (rounded R x) (R.ofNat scale) = v := by
  refine ⟨?_,?_⟩
  · intro accepted
    obtain ⟨⟨front,scale⟩,cut,rest⟩ := Option.bind_eq_some_iff.mp accepted
    obtain ⟨w,read,rest⟩ := Option.bind_eq_some_iff.mp rest
    obtain ⟨x,reads,rfl⟩ := (parse_iff R _ w).mp read
    split_ifs at rest with below
    exact ⟨x,scale,(written_iff ordered).mpr ⟨front,cut,reads⟩,below,Option.some.inj rest⟩
  · rintro ⟨x,scale,written,below,rfl⟩
    obtain ⟨front,cut,reads⟩ := (written_iff ordered).mp written
    rw [scaled,cut,Option.bind_some,(parse_iff R _ _).mpr ⟨x,reads,rfl⟩,Option.bind_some,if_neg below]

end

/-- What the check on the sign lets through. -/
theorem not_below_iff (x : F64) : ¬ rounded R x < .fin 0 ↔
    x = .nan ∨ x = .posInf ∨ ∃ q, x = .fin q ∧ (0 ≤ q ∨ q < 0 ∧ R.round q = .fin 0) := by
  cases x with
  | nan => exact iff_of_true Bool.false_ne_true (.inl rfl)
  | posInf => exact iff_of_true Bool.false_ne_true (.inr (.inl rfl))
  | negInf =>
    refine iff_of_false (not_not.mpr rfl) ?_
    rintro (same | same | ⟨q,same,_⟩) <;> cases same
  | fin q =>
    simp only [rounded,reduceCtorEq,F64.fin.injEq,exists_eq_left',false_or]
    rcases le_or_gt 0 q with nonneg | negative
    · exact iff_of_true (fun below => F64.not_le_of_lt below (R.round_nonneg nonneg)) (.inl nonneg)
    · have below := R.monotone q 0 negative.le
      rw [R.round_zero] at below
      rw [F64.not_lt_iff_of_le below]
      simp [negative,not_le.mpr negative]

section
variable {units : List (Str × Nat)} (ordered : Ordered unitLetter units) {s : Str}
include ordered

private theorem accepted_cases {v : F64} (accepted : scaled R units s = some v) :
    Quantity units s ∨ Misread R units s := by
  obtain ⟨x,scale,written,above,_⟩ := (scaled_iff R ordered).mp accepted
  rcases (not_below_iff R x).mp above with rfl | rfl | ⟨q,rfl,nonneg | ⟨negative,lost⟩⟩
  · exact .inr (.inl ⟨scale,written⟩)
  · exact .inr (.inr (.inl ⟨scale,written⟩))
  · exact .inl ⟨q,scale,nonneg,written⟩
  · exact .inr (.inr (.inr ⟨q,scale,negative,lost,written⟩))

private theorem misread_accepted (misread : Misread R units s) : ∃ v, scaled R units s = some v := by
  rcases misread with ⟨scale,written⟩ | ⟨scale,written⟩ | ⟨q,scale,negative,lost,written⟩
  · exact ⟨_,(scaled_iff R ordered).mpr ⟨_,scale,written,(not_below_iff R _).mpr (.inl rfl),rfl⟩⟩
  · exact ⟨_,(scaled_iff R ordered).mpr ⟨_,scale,written,(not_below_iff R _).mpr (.inr (.inl rfl)),rfl⟩⟩
  · exact ⟨_,(scaled_iff R ordered).mpr ⟨_,scale,written,
      (not_below_iff R _).mpr (.inr (.inr ⟨q,rfl,.inr ⟨negative,lost⟩⟩)),rfl⟩⟩

private theorem not_quantity_of_misread (misread : Misread R units s) : ¬ Quantity units s := by
  rintro ⟨p,scale,nonneg,own⟩
  rcases misread with ⟨_,written⟩ | ⟨_,written⟩ | ⟨q,_,negative,_,written⟩
  · cases (written_unique ordered own written).1
  · cases (written_unique ordered own written).1
  · obtain rfl := F64.fin.inj (written_unique ordered own written).1
    exact absurd nonneg (not_le.mpr negative)

/-- Only quantities are accepted, but for the words that are misread. -/
theorem accepts_quantities_iff :
    ((scaled R units s).isSome → Quantity units s) ↔ ¬ Misread R units s := by
  refine ⟨?_,?_⟩
  · intro only misread
    obtain ⟨v,accepted⟩ := misread_accepted R ordered misread
    exact not_quantity_of_misread R ordered misread (only (by rw [accepted]; rfl))
  · intro clean some_
    obtain ⟨v,accepted⟩ := Option.isSome_iff_exists.mp some_
    exact (accepted_cases R ordered accepted).resolve_right clean

/-- A natural number is scaled without rounding. -/
theorem scaled_digits (scales : ∀ e ∈ units, 0 < e.2 ∧ e.2 ≤ 2^53) {digits unit : Str} {scale : Nat}
    (member : (unit,scale) ∈ units) (some_ : IsDigits digits) (text : trim s = digits ++ unit)
    (fits : Nat.ofDigitChars 10 digits 0 * scale ≤ 2^53) :
    scaled R units s = some (.fin (Nat.ofDigitChars 10 digits 0 * scale : Nat)) := by
  obtain ⟨positive,small⟩ := scales _ member
  have written : Written units s (.fin (Nat.ofDigitChars 10 digits 0 : Nat)) scale :=
    ⟨digits,[],unit,text,by simp,member,reads_digits some_⟩
  have number : Nat.ofDigitChars 10 digits 0 ≤ 2^53 := (Nat.le_mul_of_pos_right _ positive).trans fits
  have value : rounded R (.fin (Nat.ofDigitChars 10 digits 0 : Nat)) = .fin (Nat.ofDigitChars 10 digits 0 : Nat) :=
    R.integers _ number
  refine (scaled_iff R ordered).mpr ⟨_,scale,written,?_,?_⟩
  · exact (not_below_iff R _).mpr (.inr (.inr ⟨_,rfl,.inl (Nat.cast_nonneg _)⟩))
  · rw [value,Rounding.ofNat,R.integers _ small,Rounding.mul,← Nat.cast_mul,R.integers _ fits]

end

private theorem sizeUnits_scales : ∀ e ∈ sizeUnits, 0 < e.2 ∧ e.2 ≤ 2^53 := by decide +kernel

private theorem durationUnits_scales : ∀ e ∈ durationUnits, 0 < e.2 ∧ e.2 ≤ 2^53 := by decide +kernel

private theorem parseSize_isSome (s : Str) : (parseSize R s).isSome = (scaled R sizeUnits s).isSome := by
  rw [parseSize_eq,Option.isSome_map]

private theorem parseDuration_isSome (s : Str) : (parseDuration R s).isSome = (scaled R durationUnits s).isSome := by
  rw [parseDuration_eq,Option.isSome_map]

/-- A token means what it says exactly when it is none of the words that the check on the
sign lets through. -/
theorem quantities_exact (s : Str) : Meant R s ↔ ¬ Misread R sizeUnits s ∧ ¬ Misread R durationUnits s := by
  refine ⟨?_,?_⟩
  · intro meant
    refine ⟨(accepts_quantities_iff R sizeUnits_ordered).mp ?_,(accepts_quantities_iff R durationUnits_ordered).mp ?_⟩
    · rw [← parseSize_isSome]
      exact meant.size
    · rw [← parseDuration_isSome]
      exact meant.duration
  · rintro ⟨cleanSize,cleanDuration⟩
    refine ⟨?_,?_,?_,?_⟩
    · rw [parseSize_isSome]
      exact (accepts_quantities_iff R sizeUnits_ordered).mpr cleanSize
    · rw [parseDuration_isSome]
      exact (accepts_quantities_iff R durationUnits_ordered).mpr cleanDuration
    · intro digits unit scale member some_ text fits
      have value := toU64_natCast (fits.trans_lt (by norm_num))
      rw [parseSize_eq,scaled_digits R sizeUnits_ordered sizeUnits_scales member some_ text fits,
        Option.map_some,Option.map_some,value]
    · intro digits unit scale member some_ text fits
      have value := toU64_natCast (fits.trans_lt (by norm_num))
      rw [parseDuration_eq,scaled_digits R durationUnits_ordered durationUnits_scales member some_ text fits,
        Option.map_some,value]

/-- A threshold and a time of "nan" are both taken for zero. -/
theorem nan_accepted : parseSize .exact "nan".toList = some 0 ∧ parseDuration .exact "nan".toList = some 0 ∧
    ¬ ∀ s, Meant .exact s := by
  have written : Misread .exact sizeUnits "nan".toList :=
    .inl ⟨1,"nan".toList,[],[],by decide +kernel,by simp,by decide +kernel,.plain (.nan (by decide +kernel))⟩
  have accepted : parseSize .exact "nan".toList = some 0 := by decide +kernel
  refine ⟨accepted,by decide +kernel,?_⟩
  intro meant
  have some_ : (parseSize .exact "nan".toList).isSome := by rw [accepted]; rfl
  exact not_quantity_of_misread .exact sizeUnits_ordered written ((meant "nan".toList).size some_)

end
end Vitals.Quantities
