import Vitals.Library.JsonDecode

/-! Writing JSON: a text carries the value it stands for and the proof that it does, and
arrays and objects of such texts are again such texts. -/
namespace Vitals.Json
open Text Decimal

/-- No control character, so no line feed. -/
def Printable (s : Str) : Prop := ∀ c ∈ s, 0x20 ≤ c.toNat

theorem printable_nil : Printable [] := by
  intro c member
  cases member

theorem printable_of_all {s : Str} (all : s.all (fun c => 0x20 ≤ c.toNat) = true) : Printable s :=
  fun c member => of_decide_eq_true (List.all_eq_true.mp all c member)

theorem printable_cons {c : Char} {s : Str} (first : 0x20 ≤ c.toNat) (rest : Printable s) : Printable (c :: s) :=
  List.forall_mem_cons.mpr ⟨first,rest⟩

theorem printable_append {s t : Str} (left : Printable s) (right : Printable t) : Printable (s ++ t) :=
  List.forall_mem_append.mpr ⟨left,right⟩

/-- A text between two marks. -/
theorem printable_between {first last : Char} {s : Str} (opens : 0x20 ≤ first.toNat) (closes : 0x20 ≤ last.toNat)
    (inner : Printable s) : Printable (first :: (s ++ [last])) :=
  printable_cons opens (printable_append inner (printable_cons closes printable_nil))

theorem printable_joined {texts : List Str} (each : ∀ text ∈ texts, Printable text) :
    Printable ([','].intercalate texts) := by
  induction texts with
  | nil => exact printable_nil
  | cons first rest ih =>
    have front := each first (by simp)
    cases rest with
    | nil => rwa [List.intercalate_singleton]
    | cons next rest =>
      rw [List.intercalate_cons_cons]
      apply printable_append (printable_append front (printable_cons (by decide) printable_nil))
      exact ih (fun text member => each text (by simp [member]))

theorem printable_digits {s : Str} (digits : ∀ c ∈ s, c.isDigit = true) : Printable s := by
  intro c member
  have digit := digits c member
  simp only [Char.isDigit,Bool.and_eq_true,decide_eq_true_eq,ge_iff_le,UInt32.le_iff_toNat_le] at digit
  exact Nat.le_trans (by decide) digit.1

theorem isInt_renderNat (n : Nat) : IsInt (renderNat n) := by
  refine ⟨⟨renderNat_ne_nil n,fun c member => digit_of_mem_renderNat member⟩,?_⟩
  intro head
  rcases Nat.eq_zero_or_pos n with rfl | positive
  · rfl
  · exact absurd head (renderNat_head positive)

theorem numberText_nat (n : Nat) : NumberText (renderNat n) n := by
  have text := NumberText.positive (isInt_renderNat n) .none .none
  have value : Nat.ofDigitChars 10 (renderNat n) 0 = n := Nat.ofDigitChars_toDigits (by omega) (by omega)
  simpa [value,F64.scale] using text

theorem numberText_int (z : Int) : NumberText (renderInt z) z := by
  cases z with
  | ofNat n => exact numberText_nat n
  | negSucc n =>
    have text := NumberText.negative (isInt_renderNat (n+1)) .none .none
    have value : Nat.ofDigitChars 10 (renderNat (n+1)) 0 = n+1 := Nat.ofDigitChars_toDigits (by omega) (by omega)
    simpa [value,F64.scale,renderInt] using text

theorem printable_nat (n : Nat) : Printable (renderNat n) :=
  printable_digits (fun _ member => digit_of_mem_renderNat member)

theorem printable_int (z : Int) : Printable (renderInt z) := by
  cases z with
  | ofNat n => exact printable_nat n
  | negSucc n => exact printable_cons (by decide) (printable_nat (n+1))

/-- A text and the value it stands for. -/
structure Written where
  text : Str
  value : Json
  valid : Value text value
  printable : Printable text

/-- A member of an object; its name needs no escape. -/
structure Field where
  key : String
  item : Written
  plain : key.toList.all (fun c => 0x20 ≤ c.toNat ∧ c ≠ '"' ∧ c ≠ '\\') = true := by decide +kernel

namespace Field

def keyText (f : Field) : Str := '"' :: (f.key.toList ++ ['"'])

def text (f : Field) : Str := f.keyText ++ ':' :: f.item.text

theorem plain_name (f : Field) {c : Char} (inside : c ∈ f.key.toList) : 0x20 ≤ c.toNat ∧ c ≠ '"' ∧ c ≠ '\\' :=
  of_decide_eq_true (List.all_eq_true.mp f.plain c inside)

theorem keyed (f : Field) : StringText f.keyText f.key.toList := by
  have text := StringText.quoted (f.key.toList.map (fun c => ([c],c))) (by
    intro part member
    obtain ⟨c,inside,rfl⟩ := List.mem_map.mp member
    obtain ⟨printable,quote,escape⟩ := f.plain_name inside
    exact .plain printable quote escape)
  simpa [keyText,List.flatMap_map,Function.comp_def] using text

theorem printable_text (f : Field) : Printable f.text := by
  have name : Printable f.key.toList := fun c member => (f.plain_name member).1
  exact printable_append (printable_between (by decide) (by decide) name) (printable_cons (by decide) f.item.printable)

end Field

theorem blank_nil : Blank [] := by
  intro c member
  cases member

namespace Written

def null : Written := ⟨"null".toList,.null,.null,printable_of_all (by decide +kernel)⟩

def nat (n : Nat) : Written := ⟨renderNat n,.number n,.number (numberText_nat n),printable_nat n⟩

def int (z : Int) : Written := ⟨renderInt z,.number z,.number (numberText_int z),printable_int z⟩

/-- An element with no blank space around it. -/
def bare (w : Written) : Item := ⟨[],w.text,[],w.value,blank_nil,blank_nil⟩

def member (f : Field) : Member := ⟨[],f.keyText,[],f.item.bare,f.key.toList,blank_nil,blank_nil,f.keyed⟩

theorem value_array (items : List Written) :
    Value ('[' :: ([','].intercalate (items.map text) ++ [']'])) (.array (items.map value)) := by
  by_cases none : items = []
  · subst none
    exact .emptyArray blank_nil
  · have array := Value.array (items.map bare) (by simpa using none) (by
      intro item inside
      obtain ⟨w,_,rfl⟩ := List.mem_map.mp inside
      exact w.valid)
    simpa [bare,Item.shown,Function.comp_def] using array

theorem value_object (fields : List Field) :
    Value ('{' :: ([','].intercalate (fields.map Field.text) ++ ['}']))
      (.object (fields.map (fun f => (f.key.toList,f.item.value)))) := by
  by_cases none : fields = []
  · subst none
    exact .emptyObject blank_nil
  · have shown : (fields.map member).map Member.shown = fields.map Field.text := by
      rw [List.map_map]
      exact List.map_congr_left (fun f _ => by simp [member,bare,Member.shown,Item.shown,Field.text])
    have object := Value.object (fields.map member) (by simpa using none) (by
      intro m inside
      obtain ⟨f,_,rfl⟩ := List.mem_map.mp inside
      exact f.item.valid)
    rw [shown,List.map_map] at object
    exact object

def array (items : List Written) : Written where
  text := '[' :: ([','].intercalate (items.map text) ++ [']'])
  value := .array (items.map value)
  valid := value_array items
  printable := printable_between (by decide) (by decide) (printable_joined (by
    intro text inside
    obtain ⟨w,_,rfl⟩ := List.mem_map.mp inside
    exact w.printable))

def object (fields : List Field) : Written where
  text := '{' :: ([','].intercalate (fields.map Field.text) ++ ['}'])
  value := .object (fields.map (fun f => (f.key.toList,f.item.value)))
  valid := value_object fields
  printable := printable_between (by decide) (by decide) (printable_joined (by
    intro text inside
    obtain ⟨f,_,rfl⟩ := List.mem_map.mp inside
    exact f.printable_text))

theorem array_text (items : List Written) :
    (array items).text = '[' :: ([','].intercalate (items.map text) ++ [']']) := rfl

theorem object_text (fields : List Field) :
    (object fields).text = '{' :: ([','].intercalate (fields.map Field.text) ++ ['}']) := rfl

/-- The text as a document of its own. -/
theorem document (w : Written) : Document w.text w.value := by
  have text := Document.text blank_nil w.valid blank_nil
  rwa [List.nil_append,List.append_nil] at text

theorem get_member {fields : List Field} (distinct : (fields.map Field.key).Nodup) {f : Field} (inside : f ∈ fields) :
    (object fields).value.get f.key = some f.item.value := by
  change (fields.map (fun f => (f.key.toList,f.item.value))).lookup f.key.toList = some f.item.value
  induction fields with
  | nil => cases inside
  | cons first rest ih =>
    obtain ⟨fresh,distinct⟩ := List.nodup_cons.mp distinct
    rw [List.map_cons,List.lookup_cons]
    rcases List.mem_cons.mp inside with rfl | later
    · rw [beq_self_eq_true]
    · have other : (f.key.toList == first.key.toList) = false := by
        apply beq_false_of_ne
        intro same
        exact fresh (String.toList_injective same ▸ List.mem_map_of_mem later)
      rw [other]
      exact ih distinct later

/-- With distinct names, every member is found under its name. -/
theorem get_field {fields : List Field} (distinct : (fields.map Field.key).Nodup) (i : Fin fields.length) :
    (object fields).value.get (fields.get i).key = some (fields.get i).item.value :=
  get_member distinct (List.get_mem fields i)

end Written
end Vitals.Json
