import Vitals.Library.Float

/-! JSON texts: the grammar of RFC 8259 with the value a text stands for, and a decoder
for the texts it derives. Strings are sequences of Unicode scalar values, so an escape for
half a surrogate pair has no value here. -/
namespace Vitals
open Text

inductive Json where
  | null
  | bool (b : Bool)
  | number (q : ℚ)
  | string (text : Str)
  | array (items : List Json)
  | object (members : List (Str × Json))

namespace Json

def isSpace (c : Char) : Bool := c == ' ' || c == '\t' || c == '\n' || c == '\r'

def Blank (s : Str) : Prop := ∀ c ∈ s, isSpace c = true

def hexDigit (c : Char) : Option Nat :=
  if '0' ≤ c ∧ c ≤ '9' then some (c.toNat - '0'.toNat)
  else if 'a' ≤ c ∧ c ≤ 'f' then some (c.toNat - 'a'.toNat + 10)
  else if 'A' ≤ c ∧ c ≤ 'F' then some (c.toNat - 'A'.toNat + 10)
  else none

inductive Hex4 : Str → Nat → Prop
  | digits {a b c d : Char} {i j k l : Nat} (first : hexDigit a = some i) (second : hexDigit b = some j)
      (third : hexDigit c = some k) (fourth : hexDigit d = some l) : Hex4 [a,b,c,d] (((i*16+j)*16+k)*16+l)

def escaped (c : Char) : Option Char :=
  if c = '"' ∨ c = '\\' ∨ c = '/' then some c
  else if c = 'b' then some '\x08'
  else if c = 'f' then some '\x0c'
  else if c = 'n' then some '\n'
  else if c = 'r' then some '\r'
  else if c = 't' then some '\t'
  else none

def isHigh (n : Nat) : Bool := 0xd800 ≤ n && n < 0xdc00

def isLow (n : Nat) : Bool := 0xdc00 ≤ n && n < 0xe000

/-- The scalar value of a surrogate pair. -/
def paired (high low : Nat) : Char := Char.ofNat (0x10000+(high-0xd800)*0x400+(low-0xdc00))

inductive CharText : Str → Char → Prop
  | plain {c : Char} (printable : 0x20 ≤ c.toNat) (quote : c ≠ '"') (escape : c ≠ '\\') : CharText [c] c
  | short {e c : Char} (known : escaped e = some c) : CharText ['\\',e] c
  | unicode {hex : Str} {n : Nat} (digits : Hex4 hex n) (high : isHigh n = false) (low : isLow n = false) :
      CharText ('\\' :: 'u' :: hex) (Char.ofNat n)
  | pair {hex hex' : Str} {n m : Nat} (digits : Hex4 hex n) (high : isHigh n = true) (digits' : Hex4 hex' m)
      (low : isLow m = true) : CharText ('\\' :: 'u' :: (hex ++ '\\' :: 'u' :: hex')) (paired n m)

inductive StringText : Str → Str → Prop
  | quoted (parts : List (Str × Char)) (each : ∀ part ∈ parts, CharText part.1 part.2) :
      StringText ('"' :: (parts.flatMap Prod.fst ++ ['"'])) (parts.map Prod.snd)

def IsDigits (s : Str) : Prop := s ≠ [] ∧ ∀ c ∈ s, c.isDigit = true

/-- No superfluous leading zero. -/
def IsInt (s : Str) : Prop := IsDigits s ∧ (s.head? = some '0' → s = ['0'])

inductive FracText : Str → Str → Prop
  | none : FracText [] []
  | point {digits : Str} (some : IsDigits digits) : FracText ('.' :: digits) digits

inductive ExpText : Str → Int → Prop
  | none : ExpText [] 0
  | bare {mark : Char} {digits : Str} (marked : mark = 'e' ∨ mark = 'E') (some : IsDigits digits) :
      ExpText (mark :: digits) (Nat.ofDigitChars 10 digits 0)
  | plus {mark : Char} {digits : Str} (marked : mark = 'e' ∨ mark = 'E') (some : IsDigits digits) :
      ExpText (mark :: '+' :: digits) (Nat.ofDigitChars 10 digits 0)
  | minus {mark : Char} {digits : Str} (marked : mark = 'e' ∨ mark = 'E') (some : IsDigits digits) :
      ExpText (mark :: '-' :: digits) (-(Nat.ofDigitChars 10 digits 0 : Nat))

inductive NumberText : Str → ℚ → Prop
  | positive {whole frac exp digits : Str} {e : Int} (int : IsInt whole) (fraction : FracText frac digits)
      (exponent : ExpText exp e) : NumberText (whole ++ (frac ++ exp))
        (F64.scale (Nat.ofDigitChars 10 (whole ++ digits) 0) (e-digits.length))
  | negative {whole frac exp digits : Str} {e : Int} (int : IsInt whole) (fraction : FracText frac digits)
      (exponent : ExpText exp e) : NumberText ('-' :: (whole ++ (frac ++ exp)))
        (-F64.scale (Nat.ofDigitChars 10 (whole ++ digits) 0) (e-digits.length))

/-- An element of an array with the blank space around it. -/
structure Item where
  before : Str
  text : Str
  after : Str
  value : Json
  blankBefore : Blank before
  blankAfter : Blank after

def Item.shown (item : Item) : Str := item.before ++ (item.text ++ item.after)

structure Member where
  before : Str
  keyText : Str
  gap : Str
  item : Item
  key : Str
  blankBefore : Blank before
  blankGap : Blank gap
  keyed : StringText keyText key

def Member.shown (m : Member) : Str := m.before ++ (m.keyText ++ (m.gap ++ ':' :: m.item.shown))

/-- The texts of a value. -/
inductive Value : Str → Json → Prop
  | null : Value "null".toList .null
  | true : Value "true".toList (.bool .true)
  | false : Value "false".toList (.bool .false)
  | number {s : Str} {q : ℚ} (text : NumberText s q) : Value s (.number q)
  | string {s t : Str} (text : StringText s t) : Value s (.string t)
  | emptyArray {gap : Str} (blank : Blank gap) : Value ('[' :: (gap ++ [']'])) (.array [])
  | array (items : List Item) (some : items ≠ []) (each : ∀ item ∈ items, Value item.text item.value) :
      Value ('[' :: ([','].intercalate (items.map Item.shown) ++ [']'])) (.array (items.map Item.value))
  | emptyObject {gap : Str} (blank : Blank gap) : Value ('{' :: (gap ++ ['}'])) (.object [])
  | object (members : List Member) (some : members ≠ []) (each : ∀ m ∈ members, Value m.item.text m.item.value) :
      Value ('{' :: ([','].intercalate (members.map Member.shown) ++ ['}']))
        (.object (members.map (fun m => (m.key,m.item.value))))

inductive Document : Str → Json → Prop
  | text {before s after : Str} {v : Json} (blankBefore : Blank before) (value : Value s v) (blankAfter : Blank after) :
      Document (before ++ (s ++ after)) v

section Decoder

def skip (s : Str) : Str := s.dropWhile isSpace

def readHex4 : Str → Option (Nat × Str)
  | a :: b :: c :: d :: rest => do
    let i ← hexDigit a
    let j ← hexDigit b
    let k ← hexDigit c
    let l ← hexDigit d
    return (((i*16+j)*16+k)*16+l,rest)
  | _ => none

def readUnicode (s : Str) : Option (Char × Str) :=
  (readHex4 s).bind (fun first =>
    if isHigh first.1 then (stripPrefix ['\\','u'] first.2).bind (fun rest => (readHex4 rest).bind (fun second =>
      if isLow second.1 then some (paired first.1 second.1,second.2) else none))
    else if isLow first.1 then none
    else some (Char.ofNat first.1,first.2))

def readChar : Str → Option (Char × Str)
  | [] => none
  | c :: rest =>
    if c = '\\' then match rest with
      | [] => none
      | e :: rest => if e = 'u' then readUnicode rest else (escaped e).map (fun c => (c,rest))
    else if c.toNat < 0x20 then none
    else some (c,rest)

def readChars : Nat → Str → Option (Str × Str)
  | 0,_ => none
  | fuel+1,s =>
    if s.head? = some '"' then some ([],s.tail)
    else (readChar s).bind (fun first => (readChars fuel first.2).map (fun later => (first.1 :: later.1,later.2)))

def isNumberChar (c : Char) : Bool := c.isDigit || c == '+' || c == '-' || c == '.' || c == 'e' || c == 'E'

def numberValue (s : Str) : Option ℚ :=
  if s.head? = some '-' then (F64.number s.tail).map (fun q => -q) else F64.number s

mutual

def readValue : Nat → Str → Option (Json × Str)
  | 0,_ => none
  | fuel+1,s => match s.head? with
    | some '"' => (readChars fuel s.tail).map (fun r => (.string r.1,r.2))
    | some '[' =>
      if (skip s.tail).head? = some ']' then some (.array [],(skip s.tail).tail)
      else (readItems fuel s.tail).map (fun r => (.array r.1,r.2))
    | some '{' =>
      if (skip s.tail).head? = some '}' then some (.object [],(skip s.tail).tail)
      else (readMembers fuel s.tail).map (fun r => (.object r.1,r.2))
    | some 'n' => (stripPrefix "null".toList s).map (fun rest => (.null,rest))
    | some 't' => (stripPrefix "true".toList s).map (fun rest => (.bool true,rest))
    | some 'f' => (stripPrefix "false".toList s).map (fun rest => (.bool false,rest))
    | _ => (numberValue (s.takeWhile isNumberChar)).map (fun q => (.number q,s.dropWhile isNumberChar))

def readItems : Nat → Str → Option (List Json × Str)
  | 0,_ => none
  | fuel+1,s => (readValue fuel (skip s)).bind (fun first => match (skip first.2).head? with
    | some ',' => (readItems fuel (skip first.2).tail).map (fun later => (first.1 :: later.1,later.2))
    | some ']' => some ([first.1],(skip first.2).tail)
    | _ => none)

def readMembers : Nat → Str → Option (List (Str × Json) × Str)
  | 0,_ => none
  | fuel+1,s =>
    (stripPrefix ['"'] (skip s)).bind (fun rest => (readChars fuel rest).bind (fun key =>
      (stripPrefix [':'] (skip key.2)).bind (fun rest => (readValue fuel (skip rest)).bind (fun first =>
        match (skip first.2).head? with
        | some ',' => (readMembers fuel (skip first.2).tail).map (fun later => ((key.1,first.1) :: later.1,later.2))
        | some '}' => some ([(key.1,first.1)],(skip first.2).tail)
        | _ => none))))

end

theorem readValue_succ (fuel : Nat) (s : Str) : readValue (fuel+1) s = match s.head? with
    | some '"' => (readChars fuel s.tail).map (fun r => (.string r.1,r.2))
    | some '[' =>
      if (skip s.tail).head? = some ']' then some (.array [],(skip s.tail).tail)
      else (readItems fuel s.tail).map (fun r => (.array r.1,r.2))
    | some '{' =>
      if (skip s.tail).head? = some '}' then some (.object [],(skip s.tail).tail)
      else (readMembers fuel s.tail).map (fun r => (.object r.1,r.2))
    | some 'n' => (stripPrefix "null".toList s).map (fun rest => (.null,rest))
    | some 't' => (stripPrefix "true".toList s).map (fun rest => (.bool true,rest))
    | some 'f' => (stripPrefix "false".toList s).map (fun rest => (.bool false,rest))
    | _ => (numberValue (s.takeWhile isNumberChar)).map (fun q => (.number q,s.dropWhile isNumberChar)) := rfl

def decode (s : Str) : Option Json :=
  (readValue s.length (skip s)).bind (fun r => if skip r.2 = [] then some r.1 else none)

end Decoder

/-- The value of a member, where there is such an object and such a member. -/
def get (key : String) : Json → Option Json
  | .object members => members.lookup key.toList
  | _ => none

end Json
end Vitals
