import Vitals.Library.FloatText

/-! The decoder reads every text of the grammar as the value the text stands for, so no
text stands for two values. -/
namespace Vitals.Json
open Text

theorem skip_blank {gap : Str} (blank : Blank gap) {c : Char} (solid : isSpace c = false) (rest : Str) :
    skip (gap ++ c :: rest) = c :: rest := by
  rw [skip,List.dropWhile_append_of_pos blank,List.dropWhile_cons_of_neg (by simp [solid])]

theorem skip_all {gap : Str} (blank : Blank gap) : skip gap = [] :=
  List.dropWhile_eq_nil_iff.mpr blank

theorem readHex4_text {hex : Str} {n : Nat} (digits : Hex4 hex n) (rest : Str) :
    readHex4 (hex ++ rest) = some (n,rest) := by
  obtain ⟨first,second,third,fourth⟩ := digits
  simp only [List.cons_append,List.nil_append,readHex4,first,second,third,fourth,Option.bind_eq_bind,Option.bind_some,
    Option.pure_def]

theorem readUnicode_text {hex : Str} {n : Nat} (digits : Hex4 hex n) (high : isHigh n = false)
    (low : isLow n = false) (rest : Str) : readUnicode (hex ++ rest) = some (Char.ofNat n,rest) := by
  simp only [readUnicode,readHex4_text digits rest,Option.bind_some,high,low,Bool.false_eq_true,if_false]

theorem readUnicode_pair {hex hex' : Str} {n m : Nat} (digits : Hex4 hex n) (high : isHigh n = true)
    (digits' : Hex4 hex' m) (low : isLow m = true) (rest : Str) :
    readUnicode (hex ++ '\\' :: 'u' :: (hex' ++ rest)) = some (paired n m,rest) := by
  have cut : stripPrefix ['\\','u'] ('\\' :: 'u' :: (hex' ++ rest)) = some (hex' ++ rest) :=
    stripPrefix_append ['\\','u'] (hex' ++ rest)
  simp only [readUnicode,readHex4_text digits,Option.bind_some,high,if_true,cut,readHex4_text digits',low]

theorem escaped_letter {e c : Char} (known : escaped e = some c) : e ≠ 'u' := by
  intro same
  subst same
  simp [escaped] at known

theorem readChar_text {text : Str} {c : Char} (part : CharText text c) (rest : Str) :
    readChar (text ++ rest) = some (c,rest) := by
  cases part with
  | plain printable quote escape =>
    simp only [List.cons_append,List.nil_append,readChar,if_neg escape,if_neg (Nat.not_lt.mpr printable)]
  | @short e _ known =>
    simp only [List.cons_append,List.nil_append,readChar,if_true,if_neg (escaped_letter known),known,Option.map_some]
  | unicode digits high low =>
    simp only [List.cons_append,readChar,if_true,readUnicode_text digits high low]
  | pair digits high digits' low =>
    simp only [List.cons_append,List.append_assoc,readChar,if_true,readUnicode_pair digits high digits' low]

theorem charText_head {text : Str} {c : Char} (part : CharText text c) :
    ∃ first rest, text = first :: rest ∧ first ≠ '"' := by
  cases part with
  | plain printable quote escape => exact ⟨_,_,rfl,quote⟩
  | short known => exact ⟨_,_,rfl,by decide⟩
  | unicode digits high low => exact ⟨_,_,rfl,by decide⟩
  | pair digits high digits' low => exact ⟨_,_,rfl,by decide⟩

theorem readChars_text (parts : List (Str × Char)) (each : ∀ part ∈ parts, CharText part.1 part.2) (rest : Str)
    (fuel : Nat) (enough : (parts.flatMap Prod.fst).length < fuel) :
    readChars fuel (parts.flatMap Prod.fst ++ '"' :: rest) = some (parts.map Prod.snd,rest) := by
  induction parts generalizing fuel with
  | nil =>
    cases fuel with
    | zero => omega
    | succ fuel => rfl
  | cons part parts ih =>
    cases fuel with
    | zero => omega
    | succ fuel =>
      have here := each part (by simp)
      obtain ⟨first,tail,shape,other⟩ := charText_head here
      have long : 0 < part.1.length := by simp [shape]
      rw [List.flatMap_cons,List.length_append] at enough
      have later := ih (fun other member => each other (by simp [member])) fuel (by omega)
      have head : (part.1 ++ (parts.flatMap Prod.fst ++ '"' :: rest)).head? ≠ some '"' := by
        simpa [shape] using other
      rw [List.flatMap_cons,List.append_assoc,readChars,if_neg head,readChar_text here,Option.bind_some]
      simp only [later,Option.map_some,List.map_cons]

section Numbers

theorem number_text {whole frac exp digits : Str} {e : Int} (int : IsDigits whole) (fraction : FracText frac digits)
    (exponent : ExpText exp e) : F64.number (whole ++ (frac ++ exp)) =
      some (F64.scale (Nat.ofDigitChars 10 (whole ++ digits) 0) (e-digits.length)) := by
  rw [F64.number_iff]
  cases fraction with
  | none => simpa using F64.Literal.integer int exponent
  | point some_ =>
    have both : IsDigits (whole ++ digits) :=
      ⟨List.append_ne_nil_of_left_ne_nil int.1 _,List.forall_mem_append.mpr ⟨int.2,some_.2⟩⟩
    exact .decimal both exponent

theorem digit_solid {c : Char} (digit : c.isDigit = true) : isNumberChar c = true := by
  simp [isNumberChar,digit]

theorem numberText_value {s : Str} {q : ℚ} (number : NumberText s q) : numberValue s = some q := by
  cases number with
  | @positive whole frac exp digits e int fraction exponent =>
    obtain ⟨first,rest,rfl⟩ := List.exists_cons_of_ne_nil int.1.1
    have plain : (first :: rest ++ (frac ++ exp)).head? ≠ some '-' := by
      intro head
      have digit := int.1.2 first (by simp)
      obtain rfl := Option.some.inj head
      exact absurd digit (by decide)
    rw [numberValue,if_neg plain]
    exact number_text int.1 fraction exponent
  | @negative whole frac exp digits e int fraction exponent =>
    rw [numberValue,List.head?_cons,if_pos rfl,List.tail_cons,number_text int.1 fraction exponent,Option.map_some]

theorem numberText_chars {s : Str} {q : ℚ} (number : NumberText s q) : ∀ c ∈ s, isNumberChar c = true := by
  have ofDigits {digits : Str} (some_ : IsDigits digits) : ∀ c ∈ digits, isNumberChar c = true :=
    fun c member => digit_solid (some_.2 c member)
  have ofFrac {frac digits : Str} (fraction : FracText frac digits) : ∀ c ∈ frac, isNumberChar c = true := by
    cases fraction with
    | none => intro c member; cases member
    | point some_ => exact List.forall_mem_cons.mpr ⟨rfl,ofDigits some_⟩
  have ofMark {mark : Char} (marked : mark = 'e' ∨ mark = 'E') : isNumberChar mark = true := by
    rcases marked with rfl | rfl <;> rfl
  have ofExp {exp : Str} {e : Int} (exponent : ExpText exp e) : ∀ c ∈ exp, isNumberChar c = true := by
    cases exponent with
    | none => intro c member; cases member
    | bare marked some_ => exact List.forall_mem_cons.mpr ⟨ofMark marked,ofDigits some_⟩
    | plus marked some_ =>
      exact List.forall_mem_cons.mpr ⟨ofMark marked,List.forall_mem_cons.mpr ⟨rfl,ofDigits some_⟩⟩
    | minus marked some_ =>
      exact List.forall_mem_cons.mpr ⟨ofMark marked,List.forall_mem_cons.mpr ⟨rfl,ofDigits some_⟩⟩
  have together {whole frac exp digits : Str} {e : Int} (int : IsInt whole) (fraction : FracText frac digits)
      (exponent : ExpText exp e) : ∀ c ∈ whole ++ (frac ++ exp), isNumberChar c = true := by
    simp only [List.forall_mem_append]
    exact ⟨ofDigits int.1,ofFrac fraction,ofExp exponent⟩
  cases number with
  | positive int fraction exponent => exact together int fraction exponent
  | negative int fraction exponent => exact List.forall_mem_cons.mpr ⟨rfl,together int fraction exponent⟩

/-- A number begins with a digit or a minus sign. -/
theorem numberText_head {s : Str} {q : ℚ} (number : NumberText s q) :
    ∃ c rest, s = c :: rest ∧ (c.isDigit = true ∨ c = '-') := by
  cases number with
  | @positive whole frac exp digits e int fraction exponent =>
    obtain ⟨first,rest,rfl⟩ := List.exists_cons_of_ne_nil int.1.1
    exact ⟨first,_,rfl,.inl (int.1.2 first (by simp))⟩
  | negative int fraction exponent => exact ⟨_,_,rfl,.inr rfl⟩

end Numbers

/-- What must follow a number so that it ends there. -/
def Stops (rest : Str) : Prop := ∀ c, rest.head? = some c → isNumberChar c = false

theorem stops_blank {gap rest : Str} (blank : Blank gap) (stops : Stops rest) : Stops (gap ++ rest) := by
  cases gap with
  | nil => exact stops
  | cons first gap =>
    intro c head
    obtain rfl := Option.some.inj head
    have space := blank first (by simp)
    simp only [isSpace,Bool.or_eq_true,beq_iff_eq] at space
    rcases space with ((rfl | rfl) | rfl) | rfl <;> rfl

theorem stops_cons {c : Char} (other : isNumberChar c = false) (rest : Str) : Stops (c :: rest) := by
  intro d head
  exact Option.some.inj head ▸ other

/-- A value begins with a character that is neither blank nor closes a list. -/
theorem value_head {s : Str} {v : Json} (value : Value s v) :
    ∃ c rest, s = c :: rest ∧ isSpace c = false ∧ c ≠ ']' ∧ c ≠ '}' := by
  cases value with
  | null => exact ⟨'n',"ull".toList,rfl,by decide,by decide,by decide⟩
  | true => exact ⟨'t',"rue".toList,rfl,by decide,by decide,by decide⟩
  | false => exact ⟨'f',"alse".toList,rfl,by decide,by decide,by decide⟩
  | number text =>
    obtain ⟨c,rest,rfl,numeral⟩ := numberText_head text
    have apart {d : Char} (other : d.isDigit = false) (sign : d ≠ '-') : c ≠ d :=
      Decimal.numeral_ne numeral other sign
    have solid : isSpace c = false := by
      simp [isSpace,apart (d := ' ') rfl (by decide),apart (d := '\t') rfl (by decide),
        apart (d := '\n') rfl (by decide),apart (d := '\r') rfl (by decide)]
    exact ⟨c,rest,rfl,solid,apart rfl (by decide),apart rfl (by decide)⟩
  | string text =>
    obtain ⟨parts,each⟩ := text
    exact ⟨'"',_,rfl,by decide,by decide,by decide⟩
  | emptyArray blank => exact ⟨'[',_,rfl,by decide,by decide,by decide⟩
  | array items some_ each => exact ⟨'[',_,rfl,by decide,by decide,by decide⟩
  | emptyObject blank => exact ⟨'{',_,rfl,by decide,by decide,by decide⟩
  | object members some_ each => exact ⟨'{',_,rfl,by decide,by decide,by decide⟩

/-- What the decoder has to do with a text, whatever follows it. -/
def Reads (s : Str) (v : Json) : Prop :=
  ∀ rest fuel, Stops rest → s.length ≤ fuel → readValue fuel (s ++ rest) = some (v,rest)

theorem reads_number {s : Str} {q : ℚ} (text : NumberText s q) : Reads s (.number q) := by
  intro rest fuel stops enough
  obtain ⟨front,back⟩ := span_append (numberText_chars text) stops
  obtain ⟨c,tail,rfl,numeral⟩ := numberText_head text
  cases fuel with
  | zero => simp at enough
  | succ fuel =>
    have apart {d : Char} (other : d.isDigit = false) (sign : d ≠ '-') : c ≠ d :=
      Decimal.numeral_ne numeral other sign
    have quote : c ≠ '"' := apart rfl (by decide)
    have bracket : c ≠ '[' := apart rfl (by decide)
    have brace : c ≠ '{' := apart rfl (by decide)
    have n : c ≠ 'n' := apart rfl (by decide)
    have t : c ≠ 't' := apart rfl (by decide)
    have f : c ≠ 'f' := apart rfl (by decide)
    rw [readValue_succ,front,back,numberText_value text]
    simp [quote,bracket,brace,n,t,f]

theorem reads_string {s t : Str} (text : StringText s t) : Reads s (.string t) := by
  intro rest fuel _ enough
  obtain ⟨parts,each⟩ := text
  cases fuel with
  | zero => simp at enough
  | succ fuel =>
    rw [List.length_cons,List.length_append,List.length_singleton] at enough
    have read := readChars_text parts each rest fuel (by omega)
    rw [List.cons_append,List.append_assoc]
    change (readChars fuel (parts.flatMap Prod.fst ++ '"' :: rest)).map _ = _
    rw [read]
    rfl

theorem reads_null : Reads "null".toList .null := by
  intro rest fuel _ enough
  have head : ("null".toList ++ rest).head? = some 'n' := rfl
  cases fuel with
  | zero => simp at enough
  | succ fuel =>
    rw [readValue_succ,head]
    simp only [stripPrefix_append,Option.map_some]

theorem reads_true : Reads "true".toList (.bool .true) := by
  intro rest fuel _ enough
  have head : ("true".toList ++ rest).head? = some 't' := rfl
  cases fuel with
  | zero => simp at enough
  | succ fuel =>
    rw [readValue_succ,head]
    simp only [stripPrefix_append,Option.map_some]

theorem reads_false : Reads "false".toList (.bool .false) := by
  intro rest fuel _ enough
  have head : ("false".toList ++ rest).head? = some 'f' := rfl
  cases fuel with
  | zero => simp at enough
  | succ fuel =>
    rw [readValue_succ,head]
    simp only [stripPrefix_append,Option.map_some]

theorem reads_emptyArray {gap : Str} (blank : Blank gap) : Reads ('[' :: (gap ++ [']'])) (.array []) := by
  intro rest fuel _ enough
  have after : skip (gap ++ ']' :: rest) = ']' :: rest := skip_blank blank rfl rest
  cases fuel with
  | zero => simp at enough
  | succ fuel =>
    rw [List.cons_append,List.append_assoc,readValue_succ]
    simp only [List.head?_cons,List.tail_cons,List.cons_append,List.nil_append,after,if_true]

theorem reads_emptyObject {gap : Str} (blank : Blank gap) : Reads ('{' :: (gap ++ ['}'])) (.object []) := by
  intro rest fuel _ enough
  have after : skip (gap ++ '}' :: rest) = '}' :: rest := skip_blank blank rfl rest
  cases fuel with
  | zero => simp at enough
  | succ fuel =>
    rw [List.cons_append,List.append_assoc,readValue_succ]
    simp only [List.head?_cons,List.tail_cons,List.cons_append,List.nil_append,after,if_true]

/-- An element is read up to what closes or separates it. -/
theorem reads_item {item : Item} (value : Value item.text item.value) (reads : Reads item.text item.value)
    {c : Char} (solid : isSpace c = false) (other : isNumberChar c = false) (rest : Str) (fuel : Nat)
    (enough : item.text.length ≤ fuel) :
    ∃ left, readValue fuel (skip (item.shown ++ c :: rest)) = some (item.value,left) ∧ skip left = c :: rest := by
  obtain ⟨first,tail,shape,begins,_,_⟩ := value_head value
  have start : skip (item.shown ++ c :: rest) = item.text ++ (item.after ++ c :: rest) := by
    rw [Item.shown,List.append_assoc,List.append_assoc,shape]
    exact skip_blank item.blankBefore begins _
  refine ⟨item.after ++ c :: rest,?_,skip_blank item.blankAfter solid rest⟩
  rw [start]
  exact reads _ fuel (stops_blank item.blankAfter (stops_cons other rest)) enough

theorem item_length (item : Item) : item.text.length ≤ item.shown.length := by
  rw [Item.shown,List.length_append,List.length_append]
  omega

theorem readItems_shown (items : List Item) (some_ : items ≠ [])
    (value : ∀ item ∈ items, Value item.text item.value) (reads : ∀ item ∈ items, Reads item.text item.value)
    (rest : Str) (fuel : Nat) (enough : ([','].intercalate (items.map Item.shown)).length < fuel) :
    readItems fuel ([','].intercalate (items.map Item.shown) ++ ']' :: rest) =
      some (items.map Item.value,rest) := by
  induction items generalizing fuel with
  | nil => exact absurd rfl some_
  | cons item items ih =>
    cases fuel with
    | zero => omega
    | succ fuel =>
      have short := item_length item
      cases items with
      | nil =>
        rw [List.map_singleton,List.intercalate_singleton] at enough ⊢
        obtain ⟨left,read,after⟩ := reads_item (value item (by simp)) (reads item (by simp)) (c := ']') rfl rfl rest
          fuel (by omega)
        rw [readItems,read,Option.bind_some,after]
        rfl
      | cons next items =>
        rw [List.map_cons,List.intercalate_cons_of_ne_nil (by simp)] at enough ⊢
        rw [List.length_append,List.length_append,List.length_singleton] at enough
        have later := ih (by simp) (fun other member => value other (by simp [member]))
          (fun other member => reads other (by simp [member])) fuel (by omega)
        obtain ⟨left,read,after⟩ := reads_item (value item (by simp)) (reads item (by simp)) (c := ',') rfl rfl
          ([','].intercalate ((next :: items).map Item.shown) ++ ']' :: rest) fuel (by omega)
        rw [List.append_assoc,List.append_assoc,List.singleton_append,readItems,read,Option.bind_some,after]
        simp only [List.head?_cons,List.tail_cons,later,Option.map_some]
        rfl

theorem joined_cons (first : Str) (later : List Str) : ∃ more, [','].intercalate (first :: later) = first ++ more := by
  cases later with
  | nil => exact ⟨[],by simp⟩
  | cons next later =>
    have several : next :: later ≠ [] := by simp
    exact ⟨_,(List.intercalate_cons_of_ne_nil several).trans (List.append_assoc _ _ _)⟩

theorem reads_array (items : List Item) (some_ : items ≠ []) (value : ∀ item ∈ items, Value item.text item.value)
    (reads : ∀ item ∈ items, Reads item.text item.value) :
    Reads ('[' :: ([','].intercalate (items.map Item.shown) ++ [']'])) (.array (items.map Item.value)) := by
  intro rest fuel _ enough
  cases fuel with
  | zero => simp at enough
  | succ fuel =>
    rw [List.length_cons,List.length_append,List.length_singleton] at enough
    have read := readItems_shown items some_ value reads rest fuel (by omega)
    -- an element stands where the bracket of an empty array would close
    have filled : (skip ([','].intercalate (items.map Item.shown) ++ ']' :: rest)).head? ≠ some ']' := by
      obtain ⟨item,later,rfl⟩ := List.exists_cons_of_ne_nil some_
      obtain ⟨more,joined⟩ := joined_cons item.shown (later.map Item.shown)
      obtain ⟨first,tail,shape,begins,open_,_⟩ := value_head (value item (by simp))
      rw [List.map_cons,joined,Item.shown,List.append_assoc,List.append_assoc,shape,List.cons_append,List.cons_append,
        skip_blank item.blankBefore begins]
      simpa using open_
    rw [List.cons_append,List.append_assoc,readValue_succ]
    simp only [List.head?_cons,List.tail_cons,List.singleton_append,if_neg filled,read,Option.map_some]

theorem stringText_head {s t : Str} (text : StringText s t) : ∃ body, s = '"' :: body ∧
    ∀ rest fuel, s.length ≤ fuel → readChars fuel (body ++ rest) = some (t,rest) := by
  obtain ⟨parts,each⟩ := text
  refine ⟨_,rfl,?_⟩
  intro rest fuel enough
  rw [List.length_cons,List.length_append,List.length_singleton] at enough
  rw [List.append_assoc,List.singleton_append]
  exact readChars_text parts each rest fuel (by omega)

theorem member_length (m : Member) :
    m.keyText.length ≤ m.shown.length ∧ m.item.text.length ≤ m.shown.length := by
  have short := item_length m.item
  rw [Member.shown,List.length_append,List.length_append,List.length_append,List.length_cons]
  omega

theorem readMembers_shown (members : List Member) (some_ : members ≠ [])
    (value : ∀ m ∈ members, Value m.item.text m.item.value) (reads : ∀ m ∈ members, Reads m.item.text m.item.value)
    (rest : Str) (fuel : Nat) (enough : ([','].intercalate (members.map Member.shown)).length < fuel) :
    readMembers fuel ([','].intercalate (members.map Member.shown) ++ '}' :: rest) =
      some (members.map (fun m => (m.key,m.item.value)),rest) := by
  induction members generalizing fuel with
  | nil => exact absurd rfl some_
  | cons m members ih =>
    cases fuel with
    | zero => omega
    | succ fuel =>
      obtain ⟨keyShort,short⟩ := member_length m
      obtain ⟨body,quoted,readKey⟩ := stringText_head m.keyed
      -- the key, its colon and the blank space around them
      have front (later : Str) : stripPrefix ['"'] (skip (m.shown ++ later)) =
          some (body ++ (m.gap ++ ':' :: (m.item.shown ++ later))) := by
        have shape : m.shown ++ later = m.before ++ '"' :: (body ++ (m.gap ++ ':' :: (m.item.shown ++ later))) := by
          simp [Member.shown,quoted]
        rw [shape,skip_blank m.blankBefore rfl]
        exact stripPrefix_append ['"'] _
      have colon (later : Str) : stripPrefix [':'] (skip (m.gap ++ ':' :: (m.item.shown ++ later))) =
          some (m.item.shown ++ later) := by
        rw [skip_blank m.blankGap rfl]
        exact stripPrefix_append [':'] _
      cases members with
      | nil =>
        rw [List.map_singleton,List.intercalate_singleton] at enough ⊢
        obtain ⟨left,read,after⟩ := reads_item (value m (by simp)) (reads m (by simp)) (c := '}') rfl rfl rest
          fuel (by omega)
        rw [readMembers,front,Option.bind_some,readKey _ fuel (by omega),Option.bind_some,colon,Option.bind_some,read,
          Option.bind_some,after]
        rfl
      | cons next members =>
        rw [List.map_cons,List.intercalate_cons_of_ne_nil (by simp)] at enough ⊢
        rw [List.length_append,List.length_append,List.length_singleton] at enough
        have later := ih (by simp) (fun other member => value other (by simp [member]))
          (fun other member => reads other (by simp [member])) fuel (by omega)
        obtain ⟨left,read,after⟩ := reads_item (value m (by simp)) (reads m (by simp)) (c := ',') rfl rfl
          ([','].intercalate ((next :: members).map Member.shown) ++ '}' :: rest) fuel (by omega)
        rw [List.append_assoc,List.append_assoc,List.singleton_append,readMembers,front,Option.bind_some,
          readKey _ fuel (by omega),Option.bind_some,colon,Option.bind_some,read,Option.bind_some,after]
        simp only [List.head?_cons,List.tail_cons,later,Option.map_some]
        rfl

theorem reads_object (members : List Member) (some_ : members ≠ [])
    (value : ∀ m ∈ members, Value m.item.text m.item.value) (reads : ∀ m ∈ members, Reads m.item.text m.item.value) :
    Reads ('{' :: ([','].intercalate (members.map Member.shown) ++ ['}']))
      (.object (members.map (fun m => (m.key,m.item.value)))) := by
  intro rest fuel _ enough
  cases fuel with
  | zero => simp at enough
  | succ fuel =>
    rw [List.length_cons,List.length_append,List.length_singleton] at enough
    have read := readMembers_shown members some_ value reads rest fuel (by omega)
    have filled : (skip ([','].intercalate (members.map Member.shown) ++ '}' :: rest)).head? ≠ some '}' := by
      obtain ⟨m,later,rfl⟩ := List.exists_cons_of_ne_nil some_
      obtain ⟨more,joined⟩ := joined_cons m.shown (later.map Member.shown)
      obtain ⟨body,quoted,_⟩ := stringText_head m.keyed
      rw [List.map_cons,joined,Member.shown,List.append_assoc,List.append_assoc,quoted,List.cons_append,
        List.cons_append,skip_blank m.blankBefore (c := '"') rfl]
      simp
    rw [List.cons_append,List.append_assoc,readValue_succ]
    simp only [List.head?_cons,List.tail_cons,List.singleton_append,if_neg filled,read,Option.map_some]

theorem reads_value {s : Str} {v : Json} (value : Value s v) : Reads s v := by
  induction value with
  | null => exact reads_null
  | true => exact reads_true
  | false => exact reads_false
  | number text => exact reads_number text
  | string text => exact reads_string text
  | emptyArray blank => exact reads_emptyArray blank
  | array items some_ each ih => exact reads_array items some_ each ih
  | emptyObject blank => exact reads_emptyObject blank
  | object members some_ each ih => exact reads_object members some_ each ih

/-- Every text of the grammar is decoded to the value it stands for. -/
theorem decode_document {s : Str} {v : Json} (document : Document s v) : decode s = some v := by
  cases document with
  | @text before s after v blankBefore value blankAfter =>
  obtain ⟨c,tail,shape,solid,_,_⟩ := value_head value
  have start : skip (before ++ (s ++ after)) = s ++ after := by
    rw [shape]
    exact skip_blank blankBefore solid _
  have stops : Stops after := by
    rw [← List.append_nil after]
    exact stops_blank blankAfter (by intro c head; cases head)
  have enough : s.length ≤ (before ++ (s ++ after)).length := by
    rw [List.length_append,List.length_append]
    omega
  rw [decode,start,reads_value value after _ stops enough,Option.bind_some]
  simp only [skip_all blankAfter,if_true]

theorem document_unique {s : Str} {v w : Json} (first : Document s v) (second : Document s w) : v = w :=
  Option.some.inj ((decode_document first).symm.trans (decode_document second))

end Vitals.Json
