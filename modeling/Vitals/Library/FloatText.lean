import Vitals.Library.Json

/-! The texts a float is parsed from: the grammar of `f64::from_str` with the number a text
stands for, apart from the scanner, and the two shown to agree. -/
namespace Vitals
open Text Json

namespace F64

/-- An unsigned literal: digits on at least one side of an optional point, then an
optional exponent. -/
inductive Literal : Str → ℚ → Prop
  | integer {whole exp : Str} {e : Int} (some : IsDigits whole) (exponent : ExpText exp e) :
      Literal (whole ++ exp) (scale (Nat.ofDigitChars 10 whole 0) e)
  | decimal {whole digits exp : Str} {e : Int} (some : IsDigits (whole ++ digits)) (exponent : ExpText exp e) :
      Literal (whole ++ '.' :: (digits ++ exp)) (scale (Nat.ofDigitChars 10 (whole ++ digits) 0) (e-digits.length))

theorem eq_of_toLower {c d : Char} (same : c.toLower = d) : c = d ∨ c = Char.ofNat (d.toNat-32) := by
  unfold Char.toLower at same
  split at same
  · rename_i upper
    right
    have code : d.toNat = c.toNat+32 := by
      subst same
      have small : c.val.toNat ≤ 90 := UInt32.le_iff_toNat_le.mp upper.2
      change (c.val + ('a'.val - 'A'.val)).toNat = c.val.toNat+32
      rw [UInt32.toNat_add]
      have gap : ('a'.val - 'A'.val).toNat = 32 := by decide
      rw [gap]
      omega
    rw [code,Nat.add_sub_cancel,Char.ofNat_toNat]
  · exact .inl same

theorem toLower_eq_e (c : Char) : c.toLower = 'e' ↔ c = 'e' ∨ c = 'E' := by
  refine ⟨eq_of_toLower,?_⟩
  rintro (rfl | rfl) <;> decide

theorem digits_iff (s : Str) (n : Nat) :
    Decimal.digits s = some n ↔ IsDigits s ∧ Nat.ofDigitChars 10 s 0 = n := by
  have refused : (s.isEmpty || !s.all Char.isDigit) = false ↔ IsDigits s := by
    simp [IsDigits]
  unfold Decimal.digits
  rw [← refused]
  split_ifs with other
  · simp [other]
  · simp [other]

theorem digits_value {s : Str} (some_ : IsDigits s) : Decimal.digits s = some (Nat.ofDigitChars 10 s 0) :=
  (digits_iff s _).mpr ⟨some_,rfl⟩

theorem digit_apart {c d : Char} (digit : c.isDigit = true) (other : d.isDigit = false) : c ≠ d := by
  intro same
  rw [same,other] at digit
  cases digit

inductive SignedDigits : Str → Int → Prop
  | bare {digits : Str} (some : IsDigits digits) : SignedDigits digits (Nat.ofDigitChars 10 digits 0)
  | plus {digits : Str} (some : IsDigits digits) : SignedDigits ('+' :: digits) (Nat.ofDigitChars 10 digits 0)
  | minus {digits : Str} (some : IsDigits digits) : SignedDigits ('-' :: digits) (-(Nat.ofDigitChars 10 digits 0 : Nat))

theorem integer_iff (s : Str) (z : Int) : Decimal.integer s = some z ↔ SignedDigits s z := by
  refine ⟨?_,?_⟩
  · intro read
    unfold Decimal.integer at read
    split at read
    · obtain ⟨n,value,rfl⟩ := Option.map_eq_some_iff.mp read
      obtain ⟨some_,rfl⟩ := (digits_iff _ n).mp value
      exact .minus some_
    · obtain ⟨n,value,rfl⟩ := Option.map_eq_some_iff.mp read
      obtain ⟨some_,rfl⟩ := (digits_iff _ n).mp value
      exact .plus some_
    · obtain ⟨n,value,rfl⟩ := Option.map_eq_some_iff.mp read
      obtain ⟨some_,rfl⟩ := (digits_iff _ n).mp value
      exact .bare some_
  · intro signed
    cases signed with
    | bare some_ =>
      obtain ⟨first,rest,rfl⟩ := List.exists_cons_of_ne_nil some_.1
      have digit := some_.2 first (by simp)
      have minus : first ≠ '-' := digit_apart digit rfl
      have plus : first ≠ '+' := digit_apart digit rfl
      simp [Decimal.integer,minus,plus,digits_value some_]
    | plus some_ =>
      rw [Decimal.integer,digits_value some_]
      rfl
    | minus some_ =>
      rw [Decimal.integer,digits_value some_]
      rfl

theorem exponent_iff (exp : Str) (e : Int) : exponent exp = some e ↔ ExpText exp e := by
  refine ⟨?_,?_⟩
  · intro read
    cases exp with
    | nil =>
      obtain rfl := Option.some.inj read
      exact .none
    | cons mark rest =>
      rw [exponent] at read
      split_ifs at read with letter
      have marked := (toLower_eq_e mark).mp letter
      cases (integer_iff rest e).mp read with
      | bare some_ => exact .bare marked some_
      | plus some_ => exact .plus marked some_
      | minus some_ => exact .minus marked some_
  · intro text
    cases text with
    | none => rfl
    | bare marked some_ => rw [exponent,if_pos ((toLower_eq_e _).mpr marked),(integer_iff _ _).mpr (.bare some_)]
    | plus marked some_ => rw [exponent,if_pos ((toLower_eq_e _).mpr marked),(integer_iff _ _).mpr (.plus some_)]
    | minus marked some_ => rw [exponent,if_pos ((toLower_eq_e _).mpr marked),(integer_iff _ _).mpr (.minus some_)]

/-- Neither a digit nor a point begins an exponent. -/
theorem exponent_head {exp : Str} {e : Int} (exponent : ExpText exp e) {c : Char} (head : exp.head? = some c) :
    c = 'e' ∨ c = 'E' := by
  cases exponent with
  | none => cases head
  | bare marked _ => exact Option.some.inj head ▸ marked
  | plus marked _ => exact Option.some.inj head ▸ marked
  | minus marked _ => exact Option.some.inj head ▸ marked

theorem exponent_stops {exp : Str} {e : Int} (exponent : ExpText exp e) (c : Char) (head : exp.head? = some c) :
    c.isDigit = false := by
  rcases exponent_head exponent head with rfl | rfl <;> decide

theorem exponent_pointless {exp : Str} {e : Int} (exponent : ExpText exp e) : exp.head? ≠ some '.' := by
  intro head
  rcases exponent_head exponent head with other | other <;> exact absurd other (by decide)

section
variable {whole : Str} (front : ∀ c ∈ whole, c.isDigit = true)
include front

theorem number_plain {rest : Str} (stops : ∀ c, rest.head? = some c → c.isDigit = false)
    (pointless : rest.head? ≠ some '.') : number (whole ++ rest) =
      if whole = [] then none else (exponent rest).map (scale (Nat.ofDigitChars 10 whole 0)) := by
  obtain ⟨taken,left⟩ := span_append front stops
  unfold number
  rw [taken,left]
  cases rest with
  | nil => simp
  | cons c rest =>
    have other : c ≠ '.' := fun same => pointless (same ▸ rfl)
    simp [other]

theorem number_point {digits rest : Str} (back : ∀ c ∈ digits, c.isDigit = true)
    (stops : ∀ c, rest.head? = some c → c.isDigit = false) : number (whole ++ '.' :: (digits ++ rest)) =
      if whole ++ digits = [] then none
      else (exponent rest).map (fun e => scale (Nat.ofDigitChars 10 (whole ++ digits) 0) (e-digits.length)) := by
  have dot : ∀ c, ('.' :: (digits ++ rest)).head? = some c → c.isDigit = false := by
    intro c head
    obtain rfl := Option.some.inj head
    rfl
  obtain ⟨taken,left⟩ := span_append front dot
  obtain ⟨taken',left'⟩ := span_append back stops
  unfold number
  rw [taken,left]
  simp only [taken',left',List.append_eq_nil_iff,Bool.and_eq_true,List.isEmpty_iff]

end

theorem takeWhile_digits (s : Str) : ∀ c ∈ s.takeWhile Char.isDigit, c.isDigit = true :=
  fun _ member => List.mem_takeWhile_imp member

theorem dropWhile_stops (s : Str) (c : Char) (head : (s.dropWhile Char.isDigit).head? = some c) :
    c.isDigit = false := by
  have first := List.head?_dropWhile_not Char.isDigit s
  rw [head] at first
  exact first

/-- The scanner accepts the texts of the grammar and no others. -/
theorem number_iff (s : Str) (q : ℚ) : number s = some q ↔ Literal s q := by
  refine ⟨?_,?_⟩
  · intro read
    -- the leading digits, then a point with more of them, then what must be an exponent
    rw [← List.takeWhile_append_dropWhile (p := Char.isDigit) (l := s)] at read ⊢
    have front := takeWhile_digits s
    have stops := dropWhile_stops s
    generalize s.takeWhile Char.isDigit = whole at *
    generalize s.dropWhile Char.isDigit = rest at *
    by_cases point : rest.head? = some '.'
    · obtain ⟨tail,rfl⟩ := List.head?_eq_some_iff.mp point
      rw [← List.takeWhile_append_dropWhile (p := Char.isDigit) (l := tail)] at read ⊢
      have back := takeWhile_digits tail
      have stops' := dropWhile_stops tail
      generalize tail.takeWhile Char.isDigit = digits at *
      generalize tail.dropWhile Char.isDigit = exp at *
      rw [number_point front back stops'] at read
      split_ifs at read with none
      obtain ⟨e,exponent,rfl⟩ := Option.map_eq_some_iff.mp read
      exact .decimal ⟨none,List.forall_mem_append.mpr ⟨front,back⟩⟩ ((exponent_iff exp e).mp exponent)
    · rw [number_plain front stops point] at read
      split_ifs at read with none
      obtain ⟨e,exponent,rfl⟩ := Option.map_eq_some_iff.mp read
      exact .integer ⟨none,front⟩ ((exponent_iff rest e).mp exponent)
  · intro literal
    cases literal with
    | integer some_ exponent =>
      rw [number_plain some_.2 (exponent_stops exponent) (exponent_pointless exponent),if_neg some_.1,
        (exponent_iff _ _).mpr exponent,Option.map_some]
    | decimal some_ exponent =>
      obtain ⟨front,back⟩ := List.forall_mem_append.mp some_.2
      rw [number_point front back (exponent_stops exponent),if_neg some_.1,(exponent_iff _ _).mpr exponent,
        Option.map_some]

/-- What an unsigned word stands for, in either case of its letters. -/
inductive Stands : Str → F64 → Prop
  | literal {body : Str} {q : ℚ} (literal : Literal body q) : Stands body (.fin q)
  | nan {body : Str} (spelled : body.map Char.toLower = "nan".toList) : Stands body .nan
  | infinity {body : Str} (spelled : body.map Char.toLower = "inf".toList ∨
      body.map Char.toLower = "infinity".toList) : Stands body .posInf

/-- What a word with an optional sign stands for, not rounded. -/
inductive Reads : Str → F64 → Prop
  | plain {body : Str} {x : F64} (stands : Stands body x) : Reads body x
  | plus {body : Str} {x : F64} (stands : Stands body x) : Reads ('+' :: body) x
  | minus {body : Str} {x : F64} (stands : Stands body x) : Reads ('-' :: body) x.neg

def rounded (R : Rounding) : F64 → F64
  | .fin q => R.round q
  | x => x

theorem rounded_exact (x : F64) : rounded .exact x = x := by
  cases x <;> rfl

def begins (c : Char) : Bool := c.isDigit || ['.','n','N','i','I'].contains c

def ends (c : Char) : Bool := c.isDigit || ['.','n','N','f','F','y','Y'].contains c

theorem begins_cases {c : Char} (first : begins c = true) :
    c.isDigit = true ∨ c = '.' ∨ c = 'n' ∨ c = 'N' ∨ c = 'i' ∨ c = 'I' := by
  simpa [begins] using first

theorem literal_head {body : Str} {q : ℚ} (literal : Literal body q) :
    ∃ c rest, body = c :: rest ∧ (c.isDigit = true ∨ c = '.') := by
  cases literal with
  | @integer whole exp e some_ exponent =>
    obtain ⟨first,rest,rfl⟩ := List.exists_cons_of_ne_nil some_.1
    exact ⟨first,_,rfl,.inl (some_.2 first (by simp))⟩
  | @decimal whole digits exp e some_ exponent =>
    cases whole with
    | nil => exact ⟨'.',_,rfl,.inr rfl⟩
    | cons first rest => exact ⟨first,_,rfl,.inl (some_.2 first (by simp))⟩

/-- A word is told by its first letter, in either case. -/
theorem spelled_head {body rest : Str} {d : Char} (spelled : body.map Char.toLower = d :: rest) :
    ∃ c tail, body = c :: tail ∧ (c = d ∨ c = Char.ofNat (d.toNat-32)) := by
  cases body with
  | nil => cases spelled
  | cons c tail => exact ⟨c,tail,rfl,eq_of_toLower (List.cons.inj spelled).1⟩

theorem stands_head {body : Str} {x : F64} (stands : Stands body x) :
    ∃ c rest, body = c :: rest ∧ begins c = true := by
  cases stands with
  | literal literal =>
    obtain ⟨c,rest,rfl,digit | point⟩ := literal_head literal
    · exact ⟨c,rest,rfl,by simp [begins,digit]⟩
    · exact ⟨c,rest,rfl,by simp [begins,point]⟩
  | nan spelled =>
    obtain ⟨c,rest,rfl,rfl | rfl⟩ := spelled_head spelled
    · exact ⟨_,rest,rfl,rfl⟩
    · exact ⟨_,rest,rfl,rfl⟩
  | infinity spelled =>
    obtain ⟨c,rest,rfl,letter⟩ : ∃ c tail, body = c :: tail ∧ (c = 'i' ∨ c = Char.ofNat ('i'.toNat-32)) :=
      spelled.elim spelled_head spelled_head
    rcases letter with rfl | rfl
    · exact ⟨_,rest,rfl,rfl⟩
    · exact ⟨_,rest,rfl,rfl⟩

theorem number_of_spelled {body rest : Str} {d : Char} (spelled : body.map Char.toLower = d :: rest)
    (letter : d = 'n' ∨ d = 'i') : number body = none := by
  cases read : number body with
  | none => rfl
  | some q =>
    obtain ⟨c,tail,rfl,first⟩ := literal_head ((number_iff body q).mp read)
    obtain ⟨_,_,same,second⟩ := spelled_head spelled
    obtain ⟨rfl,_⟩ := List.cons.inj same
    rcases letter with rfl | rfl <;> rcases second with rfl | rfl <;> rcases first with first | first <;>
      exact absurd first (by decide)

theorem special_cases {body : Str} {x : F64} (read : special body = some x) :
    x = .posInf ∧ (body.map Char.toLower = "inf".toList ∨ body.map Char.toLower = "infinity".toList) ∨
      x = .nan ∧ body.map Char.toLower = "nan".toList := by
  unfold special at read
  dsimp only at read
  split_ifs at read with infinity nan
  · exact .inl ⟨(Option.some.inj read).symm,infinity⟩
  · exact .inr ⟨(Option.some.inj read).symm,nan⟩

def unsigned (body : Str) : Option F64 :=
  match number body with
  | some q => some (.fin q)
  | none => special body

theorem unsigned_iff (body : Str) (x : F64) : unsigned body = some x ↔ Stands body x := by
  unfold unsigned
  refine ⟨?_,?_⟩
  · intro read
    cases value : number body with
    | some q =>
      rw [value] at read
      obtain rfl := Option.some.inj read
      exact .literal ((number_iff body q).mp value)
    | none =>
      rw [value] at read
      rcases special_cases read with ⟨rfl,spelled⟩ | ⟨rfl,spelled⟩
      · exact .infinity spelled
      · exact .nan spelled
  · intro stands
    cases stands with
    | literal literal => rw [(number_iff _ _).mpr literal]
    | nan spelled =>
      rw [number_of_spelled spelled (.inl rfl)]
      simp only [special,spelled]
      decide
    | infinity spelled =>
      rcases spelled with spelled | spelled
      · rw [number_of_spelled spelled (.inr rfl)]
        simp only [special,spelled]
        decide
      · rw [number_of_spelled spelled (.inr rfl)]
        simp only [special,spelled]
        decide

theorem parse_eq (R : Rounding) (s : Str) : parse R s =
    (unsigned (if s.head? = some '-' ∨ s.head? = some '+' then s.tail else s)).map
      (fun x => rounded R (if s.head? = some '-' then x.neg else x)) := by
  unfold parse unsigned
  dsimp only
  generalize (if s.head? = some '-' ∨ s.head? = some '+' then s.tail else s) = body
  cases number body with
  | some q => split_ifs <;> rfl
  | none =>
    dsimp only
    cases read : special body with
    | none => rfl
    | some x => rcases special_cases read with ⟨rfl,_⟩ | ⟨rfl,_⟩ <;> split_ifs <;> rfl

theorem unsigned_head {body : Str} {x : F64} (stands : Stands body x) :
    body.head? ≠ some '-' ∧ body.head? ≠ some '+' := by
  obtain ⟨c,rest,rfl,first⟩ := stands_head stands
  refine ⟨?_,?_⟩
  · intro head
    obtain rfl := Option.some.inj head
    exact absurd first (by decide)
  · intro head
    obtain rfl := Option.some.inj head
    exact absurd first (by decide)

/-- Parsing is rounding what the word stands for. -/
theorem parse_iff (R : Rounding) (s : Str) (v : F64) : parse R s = some v ↔ ∃ x, Reads s x ∧ rounded R x = v := by
  rw [parse_eq]
  refine ⟨?_,?_⟩
  · intro read
    obtain ⟨x,value,rfl⟩ := Option.map_eq_some_iff.mp read
    have stands := (unsigned_iff _ x).mp value
    refine ⟨_,?_,rfl⟩
    cases s with
    | nil => exact .plain stands
    | cons c rest =>
      by_cases minus : c = '-'
      · subst minus
        exact .minus stands
      · by_cases plus : c = '+'
        · subst plus
          exact .plus stands
        · simp only [List.head?_cons,Option.some.injEq,minus,plus,or_self,if_false] at stands ⊢
          exact .plain stands
  · rintro ⟨x,reads,rfl⟩
    cases reads with
    | plain stands =>
      obtain ⟨minus,plus⟩ := unsigned_head stands
      rw [if_neg (not_or.mpr ⟨minus,plus⟩),(unsigned_iff _ _).mpr stands,Option.map_some,if_neg minus]
    | plus stands =>
      have value := (unsigned_iff _ _).mpr stands
      simp [value]
    | minus stands =>
      have value := (unsigned_iff _ _).mpr stands
      simp [value]

theorem reads_unique {s : Str} {x y : F64} (first : Reads s x) (second : Reads s y) : x = y := by
  have left := (parse_iff .exact s x).mpr ⟨x,first,rounded_exact x⟩
  have right := (parse_iff .exact s y).mpr ⟨y,second,rounded_exact y⟩
  exact Option.some.inj (left.symm.trans right)

theorem reads_digits {digits : Str} (some_ : IsDigits digits) :
    Reads digits (.fin (Nat.ofDigitChars 10 digits 0 : Nat)) := by
  have literal : Literal (digits ++ []) (scale (Nat.ofDigitChars 10 digits 0) 0) := .integer some_ .none
  rw [List.append_nil] at literal
  have value : scale (Nat.ofDigitChars 10 digits 0) 0 = (Nat.ofDigitChars 10 digits 0 : Nat) := by simp [scale]
  rw [value] at literal
  exact .plain (.literal literal)

section Ends

/-- Ending in a digit, a point or the last letter of a special word. -/
def Concluded (s : Str) : Prop := ∀ c, s.getLast? = some c → ends c = true

theorem concluded_append {s t : Str} (left : Concluded s) (right : Concluded t) : Concluded (s ++ t) := by
  intro c last
  rw [List.getLast?_append] at last
  rcases Option.or_eq_some_iff.mp last with last | ⟨_,last⟩
  · exact right c last
  · exact left c last

theorem concluded_cons {c : Char} {s : Str} (nonempty : s ≠ []) (rest : Concluded s) : Concluded (c :: s) := by
  intro d last
  rw [List.getLast?_cons_of_ne_nil nonempty] at last
  exact rest d last

theorem concluded_digits {digits : Str} (all : ∀ c ∈ digits, c.isDigit = true) : Concluded digits := by
  intro c last
  simp [ends,all c (List.mem_of_getLast? last)]

theorem concluded_exponent {exp : Str} {e : Int} (exponent : ExpText exp e) : Concluded exp := by
  cases exponent with
  | none => intro c last; cases last
  | bare _ some_ => exact concluded_cons some_.1 (concluded_digits some_.2)
  | plus _ some_ => exact concluded_cons (List.cons_ne_nil _ _) (concluded_cons some_.1 (concluded_digits some_.2))
  | minus _ some_ => exact concluded_cons (List.cons_ne_nil _ _) (concluded_cons some_.1 (concluded_digits some_.2))

theorem concluded_literal {body : Str} {q : ℚ} (literal : Literal body q) : Concluded body := by
  cases literal with
  | integer some_ exponent => exact concluded_append (concluded_digits some_.2) (concluded_exponent exponent)
  | decimal some_ exponent =>
    obtain ⟨front,back⟩ := List.forall_mem_append.mp some_.2
    have point : Concluded ['.'] := by
      intro c last
      obtain rfl := Option.some.inj last
      rfl
    have tail := concluded_append (concluded_digits back) (concluded_exponent exponent)
    exact concluded_append (concluded_digits front) (concluded_append point tail)

theorem concluded_spelled {body name : Str} {d : Char} (spelled : body.map Char.toLower = name)
    (last : name.getLast? = some d) (letter : d = 'n' ∨ d = 'f' ∨ d = 'y') : Concluded body := by
  intro c found
  rw [← spelled,List.getLast?_map,found] at last
  have lower := Option.some.inj last
  rcases letter with rfl | rfl | rfl <;> rcases eq_of_toLower lower with rfl | rfl <;> rfl

theorem concluded_stands {body : Str} {x : F64} (stands : Stands body x) : Concluded body := by
  cases stands with
  | literal literal => exact concluded_literal literal
  | nan spelled => exact concluded_spelled spelled rfl (.inl rfl)
  | infinity spelled =>
    rcases spelled with spelled | spelled
    · exact concluded_spelled spelled rfl (.inr (.inl rfl))
    · exact concluded_spelled spelled rfl (.inr (.inr rfl))

theorem concluded_reads {s : Str} {x : F64} (reads : Reads s x) : Concluded s := by
  have nonempty {body : Str} {x : F64} (stands : Stands body x) : body ≠ [] := by
    obtain ⟨c,rest,rfl,_⟩ := stands_head stands
    exact List.cons_ne_nil c rest
  cases reads with
  | plain stands => exact concluded_stands stands
  | plus stands => exact concluded_cons (nonempty stands) (concluded_stands stands)
  | minus stands => exact concluded_cons (nonempty stands) (concluded_stands stands)

end Ends

theorem begins_solid {c : Char} (first : begins c = true) : isWhitespace c = false := by
  rcases begins_cases first with digit | rfl | rfl | rfl | rfl | rfl
  · exact Decimal.numeral_not_whitespace (.inl digit)
  all_goals decide

theorem ends_solid {c : Char} (last : ends c = true) : isWhitespace c = false := by
  simp only [ends,List.contains_cons,List.contains_nil,Bool.or_eq_true,beq_iff_eq,Bool.or_false] at last
  rcases last with digit | rfl | rfl | rfl | rfl | rfl | rfl | rfl
  · exact Decimal.numeral_not_whitespace (.inl digit)
  all_goals decide

theorem reads_head {s : Str} {x : F64} (reads : Reads s x) : ∃ c, s.head? = some c ∧ isWhitespace c = false := by
  cases reads with
  | plain stands =>
    obtain ⟨c,rest,rfl,first⟩ := stands_head stands
    exact ⟨c,rfl,begins_solid first⟩
  | plus _ => exact ⟨'+',rfl,by decide⟩
  | minus _ => exact ⟨'-',rfl,by decide⟩

theorem reads_trim {s gap : Str} {x : F64} (reads : Reads s x) (blank : ∀ b ∈ gap, isWhitespace b = true) :
    trim (s ++ gap) = s := by
  obtain ⟨c,head,solid⟩ := reads_head reads
  exact trim_gap head solid (fun d last => ends_solid (concluded_reads reads d last)) blank

end F64
end Vitals
