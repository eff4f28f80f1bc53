import Mathlib.Data.List.DropRight
import Mathlib.Tactic.Common

/-! Borrowed text as a list of Unicode scalar values, with the string operations
of the standard library. Delimiters are single characters, so character offsets
stand for the byte offsets of the original. -/
namespace Vitals.Text

abbrev Str := List Char

/-- The five characters of `char::is_ascii_whitespace`. -/
def isAsciiWhitespace (c : Char) : Bool :=
  c == ' ' || c == '\t' || c == '\n' || c == '\x0c' || c == '\r'

/-- `char::is_whitespace`: the Unicode property White_Space. -/
def isWhitespace (c : Char) : Bool :=
  isAsciiWhitespace c || c == '\x0b' ||
    [0x85,0xa0,0x1680,0x2028,0x2029,0x202f,0x205f,0x3000].contains c.toNat ||
    (0x2000 ≤ c.toNat && c.toNat ≤ 0x200a)

def trim (s : Str) : Str := (s.dropWhile isWhitespace).rdropWhile isWhitespace

def splitAsciiWhitespace (s : Str) : List Str :=
  (s.splitOnP isAsciiWhitespace).filter (fun word => !word.isEmpty)

def stripPrefix (p s : Str) : Option Str := s.dropPrefix? p

def stripSuffix (p s : Str) : Option Str := s.dropSuffix? p

def find (c : Char) (s : Str) : Option Nat := s.findIdx? (· == c)

def rfind (c : Char) (s : Str) : Option Nat :=
  (s.reverse.findIdx? (· == c)).map (fun i => s.length - 1 - i)

/-- `split_once`, and both halves of `splitn(2, c)` where `c` occurs. -/
def splitOnce (c : Char) (s : Str) : Option (Str × Str) :=
  (find c s).map (fun i => (s.take i,s.drop (i+1)))

def stripCarriageReturn (s : Str) : Str := (stripSuffix ['\r'] s).getD s

/-- `str::lines`: a final piece without its newline keeps a carriage return, and
an empty final piece is no line. -/
def lines (s : Str) : List Str :=
  let pieces := s.splitOn '\n'
  pieces.dropLast.map stripCarriageReturn ++
    (pieces.getLast?.toList.filter (fun piece => !piece.isEmpty))

/-- A token: non-empty, and free of the separators. -/
def IsWord (w : Str) : Prop := w ≠ [] ∧ ∀ c ∈ w, isAsciiWhitespace c = false

theorem split_nil : splitAsciiWhitespace [] = [] := rfl

theorem split_append_space (left right : Str) {c : Char} (space : isAsciiWhitespace c = true) :
    splitAsciiWhitespace (left ++ c :: right) =
      splitAsciiWhitespace left ++ splitAsciiWhitespace right := by
  unfold splitAsciiWhitespace
  rw [List.splitOnP_append_cons left right space,List.filter_append]

theorem split_append_newline (s : Str) :
    splitAsciiWhitespace (s ++ ['\n']) = splitAsciiWhitespace s := by
  rw [split_append_space s [] rfl,split_nil,List.append_nil]

theorem split_word {w : Str} (word : IsWord w) : splitAsciiWhitespace w = [w] := by
  rw [splitAsciiWhitespace,List.splitOnP_eq_singleton word.2]
  simp [word.1]

theorem split_word_before {w rest : Str} (word : IsWord w)
    (apart : ∀ c, rest.head? = some c → isAsciiWhitespace c = true) :
    splitAsciiWhitespace (w ++ rest) = w :: splitAsciiWhitespace rest := by
  cases rest with
  | nil => rw [List.append_nil,split_word word,split_nil]
  | cons c rest =>
    have skipped : splitAsciiWhitespace (c :: rest) = splitAsciiWhitespace rest :=
      split_append_space [] rest (apart c rfl)
    rw [split_append_space w rest (apart c rfl),split_word word,skipped]
    rfl

theorem split_blanks (n : Nat) (rest : Str) :
    splitAsciiWhitespace (List.replicate n ' ' ++ rest) = splitAsciiWhitespace rest := by
  induction n with
  | zero => rfl
  | succ n ih =>
    rw [List.replicate_succ,List.cons_append]
    exact (split_append_space [] _ rfl).trans ih

theorem columns_apart (columns : List (Nat × Str)) (c : Char)
    (head : (columns.flatMap (fun e => List.replicate (e.1+1) ' ' ++ e.2)).head? = some c) :
    isAsciiWhitespace c = true := by
  cases columns with
  | nil => cases head
  | cons e columns =>
    obtain rfl : ' ' = c := Option.some.inj head
    rfl

/-- Words are read back however many blanks stand before each. -/
theorem split_columns (columns : List (Nat × Str)) (words : ∀ e ∈ columns, IsWord e.2) :
    splitAsciiWhitespace (columns.flatMap (fun e => List.replicate (e.1+1) ' ' ++ e.2)) = columns.map Prod.snd := by
  induction columns with
  | nil => rfl
  | cons e columns ih =>
    rw [List.flatMap_cons,List.append_assoc,split_blanks,
      split_word_before (words e (by simp)) (columns_apart columns),ih (fun f member => words f (by simp [member])),
      List.map_cons]

theorem split_spaced (ws : List Str) (words : ∀ w ∈ ws, IsWord w) :
    splitAsciiWhitespace (ws.flatMap (fun w => ' ' :: w)) = ws := by
  have single : ∀ e ∈ ws.map (fun w => ((0 : Nat),w)), IsWord e.2 := by
    intro e member
    obtain ⟨w,inside,rfl⟩ := List.mem_map.mp member
    exact words w inside
  have split := split_columns _ single
  rw [List.flatMap_map,List.map_map] at split
  exact split.trans (List.map_id' ws)

theorem find_append {c : Char} {left : Str} (right : Str) (absent : c ∉ left) :
    find c (left ++ c :: right) = some left.length := by
  have skipped : left.findIdx? (· == c) = none := by
    rw [List.findIdx?_eq_none_iff]
    intro x member
    have different : x ≠ c := fun same => absent (same ▸ member)
    simpa using different
  simp [find,List.findIdx?_append,skipped,List.findIdx?_cons]

theorem splitOnce_append {c : Char} {left : Str} (right : Str) (absent : c ∉ left) :
    splitOnce c (left ++ c :: right) = some (left,right) := by
  have after : (left ++ c :: right).drop (left.length+1) = right := by simp [List.drop_append]
  rw [splitOnce,find_append right absent,Option.map_some,List.take_left,after]

theorem of_splitOnce {c : Char} {s left right : Str} (found : splitOnce c s = some (left,right)) :
    s = left ++ c :: right ∧ c ∉ left := by
  obtain ⟨i,place,cut⟩ := Option.map_eq_some_iff.mp found
  obtain ⟨inside,here,before⟩ := List.findIdx?_eq_some_iff_getElem.mp place
  obtain ⟨rfl,rfl⟩ := Prod.mk.inj cut
  refine ⟨?_,?_⟩
  · have same : s[i] = c := by simpa using here
    rw [← same,List.getElem_cons_drop,List.take_append_drop]
  · intro member
    obtain ⟨j,short,at_⟩ := List.mem_take_iff_getElem.mp member
    exact before j (by omega) (by simp [at_])

theorem rfind_append {c : Char} (left : Str) {right : Str} (absent : c ∉ right) :
    rfind c (left ++ c :: right) = some left.length := by
  have found : find c (right.reverse ++ c :: left.reverse) = some right.reverse.length :=
    find_append left.reverse (by simpa using absent)
  have reversed : (left ++ c :: right).reverse = right.reverse ++ c :: left.reverse := by simp
  unfold find at found
  rw [rfind,reversed,found]
  simp

/-- A text is cut where a character first differs in kind. -/
theorem span_append {p : Char → Bool} {front rest : Str} (all : ∀ c ∈ front, p c = true)
    (stops : ∀ c, rest.head? = some c → p c = false) :
    (front ++ rest).takeWhile p = front ∧ (front ++ rest).dropWhile p = rest := by
  have stop : rest.takeWhile p = [] ∧ rest.dropWhile p = rest := by
    cases rest with
    | nil => exact ⟨rfl,rfl⟩
    | cons c rest =>
      have other := stops c rfl
      exact ⟨List.takeWhile_cons_of_neg (by simp [other]),List.dropWhile_cons_of_neg (by simp [other])⟩
  rw [List.takeWhile_append_of_pos all,List.dropWhile_append_of_pos all,stop.1,stop.2,List.append_nil]
  exact ⟨rfl,rfl⟩

theorem rdropWhile_ordinary {w : Str} (ordinary : ∀ c ∈ w, isWhitespace c = false) :
    w.rdropWhile isWhitespace = w := by
  apply List.rdropWhile_eq_self_iff.mpr
  intro present
  simp [ordinary _ (List.getLast_mem present)]

theorem trim_ordinary {w : Str} (ordinary : ∀ c ∈ w, isWhitespace c = false) : trim w = w := by
  have front : w.dropWhile isWhitespace = w := by
    cases w with
    | nil => rfl
    | cons first rest => exact List.dropWhile_cons_of_neg (by simp [ordinary first (by simp)])
  rw [trim,front,rdropWhile_ordinary ordinary]

/-- Leading blanks are trimmed off a text that is set apart from them. -/
theorem trim_blanks {padding w : Str} (blanks : ∀ b ∈ padding, isWhitespace b = true) {c : Char}
    (head : w.head? = some c) (first : isWhitespace c = false) (trimmed : w.rdropWhile isWhitespace = w) :
    trim (padding ++ w) = w := by
  obtain ⟨rest,rfl⟩ : ∃ rest, w = c :: rest := List.head?_eq_some_iff.mp head
  rw [trim,List.dropWhile_append_of_pos blanks,List.dropWhile_cons_of_neg (by simp [first]),trimmed]

theorem blank_of_mem_replicate {n : Nat} {b : Char} (member : b ∈ List.replicate n ' ') : isWhitespace b = true := by
  rw [(List.mem_replicate.mp member).2]
  rfl

theorem rdropWhile_append {p : Char → Bool} {gap : Str} (w : Str) (all : ∀ c ∈ gap, p c = true) :
    (w ++ gap).rdropWhile p = w.rdropWhile p := by
  have reversed : ∀ c ∈ gap.reverse, p c = true := fun c member => all c (List.mem_reverse.mp member)
  simp only [List.rdropWhile,List.reverse_append,List.dropWhile_append_of_pos reversed]

/-- Blank space behind a word is trimmed off. -/
theorem trim_gap {w gap : Str} {c : Char} (head : w.head? = some c) (first : isWhitespace c = false)
    (last : ∀ c, w.getLast? = some c → isWhitespace c = false) (blank : ∀ b ∈ gap, isWhitespace b = true) :
    trim (w ++ gap) = w := by
  obtain ⟨rest,rfl⟩ : ∃ rest, w = c :: rest := List.head?_eq_some_iff.mp head
  rw [trim,List.cons_append,List.dropWhile_cons_of_neg (by simp [first]),← List.cons_append,rdropWhile_append _ blank]
  apply List.rdropWhile_eq_self_iff.mpr
  intro present
  simp [last _ (List.getLast?_eq_some_getLast present)]

/-- A piece at the front of a trimmed text has blank space behind it only. -/
theorem trim_front {s front rest : Str} (cut : trim s = front ++ rest) :
    ∃ gap, front = trim front ++ gap ∧ ∀ b ∈ gap, isWhitespace b = true := by
  have solid : front.dropWhile isWhitespace = front := by
    cases front with
    | nil => rfl
    | cons c front =>
      have within : c :: (front ++ rest) <+: s.dropWhile isWhitespace := by
        rw [← List.cons_append,← cut]
        exact List.rdropWhile_prefix _ _
      obtain ⟨tail,whole⟩ := within
      have first := List.head?_dropWhile_not isWhitespace s
      rw [← whole] at first
      exact List.dropWhile_cons_of_neg (ne_true_of_eq_false first)
  refine ⟨front.rtakeWhile isWhitespace,?_,fun b member => List.mem_rtakeWhile_imp member⟩
  rw [trim,solid,List.rdropWhile_append_rtakeWhile]

theorem trim_word_space {w : Str} (nonempty : w ≠ []) (ordinary : ∀ c ∈ w, isWhitespace c = false) :
    trim (w ++ [' ']) = w := by
  obtain ⟨first,rest,rfl⟩ := List.exists_cons_of_ne_nil nonempty
  refine trim_gap rfl (ordinary first (by simp)) (fun c last => ordinary c (List.mem_of_getLast? last)) ?_
  intro b member
  rw [List.mem_singleton.mp member]
  rfl

theorem stripPrefix_eq_some (p s rest : Str) : stripPrefix p s = some rest ↔ s = p ++ rest := by
  rw [stripPrefix,List.dropPrefix?_eq_some_iff]
  refine ⟨?_,?_⟩
  · intro found
    obtain ⟨front,whole,same⟩ := found
    rw [whole,eq_of_beq same]
  · intro whole
    exact ⟨p,whole,beq_self_eq_true p⟩

theorem stripPrefix_append (p rest : Str) : stripPrefix p (p ++ rest) = some rest :=
  (stripPrefix_eq_some p _ rest).mpr rfl

theorem stripPrefix_none {p s : Str} (absent : ¬ p <+: s) : stripPrefix p s = none := by
  cases found : stripPrefix p s with
  | none => rfl
  | some rest => exact absurd ⟨rest,((stripPrefix_eq_some p s rest).mp found).symm⟩ absent

/-- A label is missed where it differs from what the text begins with. -/
theorem stripPrefix_apart {label head : Str} (short : label.length ≤ head.length) (apart : ¬ label <+: head)
    (rest : Str) : stripPrefix label (head ++ rest) = none :=
  stripPrefix_none (fun within => apart (List.prefix_of_prefix_length_le within (List.prefix_append head rest) short))

theorem stripSuffix_eq_some (p s front : Str) : stripSuffix p s = some front ↔ s = front ++ p := by
  rw [stripSuffix,List.dropSuffix?_eq_some_iff]
  refine ⟨?_,?_⟩
  · rintro ⟨back,whole,same⟩
    rw [whole,eq_of_beq same]
  · intro whole
    exact ⟨p,whole,beq_self_eq_true p⟩

theorem stripSuffix_append (front p : Str) : stripSuffix p (front ++ p) = some front :=
  (stripSuffix_eq_some p _ front).mpr rfl

theorem stripSuffix_none {p s : Str} (absent : ¬ p <:+ s) : stripSuffix p s = none := by
  cases found : stripSuffix p s with
  | none => rfl
  | some front => exact absurd ⟨front,((stripSuffix_eq_some p s front).mp found).symm⟩ absent

theorem stripCarriageReturn_plain {line : Str} (plain : line.getLast? ≠ some '\r') :
    stripCarriageReturn line = line := by
  unfold stripCarriageReturn
  cases stripped : stripSuffix ['\r'] line with
  | none => rfl
  | some front =>
    rw [(stripSuffix_eq_some _ _ _).mp stripped] at plain
    simp at plain

theorem mem_of_mem_stripCarriageReturn {c : Char} {s : Str} (member : c ∈ stripCarriageReturn s) : c ∈ s := by
  unfold stripCarriageReturn at member
  cases stripped : stripSuffix ['\r'] s with
  | none => rwa [stripped] at member
  | some front =>
    rw [stripped] at member
    rw [(stripSuffix_eq_some _ _ _).mp stripped]
    exact List.mem_append_left _ member

theorem not_mem_of_mem_splitOn {c : Char} {s piece : Str} (member : piece ∈ s.splitOn c) : c ∉ piece := by
  suffices all : ∀ piece ∈ s.splitOn c, c ∉ piece from all piece member
  clear member
  induction s with
  | nil => simp
  | cons x s ih =>
    rw [List.splitOn_cons_eq_if_modifyHead]
    split_ifs with here
    · exact List.forall_mem_cons.mpr ⟨List.not_mem_nil,ih⟩
    · cases pieces : s.splitOn c with
      | nil => exact absurd pieces (List.splitOn_ne_nil c s)
      | cons first rest =>
        rw [pieces] at ih
        obtain ⟨absent,others⟩ := List.forall_mem_cons.mp ih
        have apart : c ≠ x := fun same => here (beq_iff_eq.mpr same.symm)
        exact List.forall_mem_cons.mpr ⟨List.not_mem_cons_of_ne_of_not_mem apart absent,others⟩

theorem newline_not_mem {s line : Str} (member : line ∈ lines s) : '\n' ∉ line := by
  rcases List.mem_append.mp member with ended | last
  · obtain ⟨piece,inside,rfl⟩ := List.mem_map.mp ended
    exact fun newline => not_mem_of_mem_splitOn (List.dropLast_subset _ inside) (mem_of_mem_stripCarriageReturn newline)
  · obtain ⟨inside,_⟩ := List.mem_filter.mp last
    exact not_mem_of_mem_splitOn (List.mem_of_getLast? (Option.mem_toList.mp inside))

theorem lines_single {line : Str} (unbroken : '\n' ∉ line) : lines line = if line = [] then [] else [line] := by
  rw [lines,List.splitOn_eq_singleton unbroken]
  by_cases empty : line = [] <;> simp [empty]

/-- Lines joined by newlines are read back, but for an empty last one. -/
theorem lines_intercalate {init : List Str} {last : Str}
    (plain : ∀ line ∈ init ++ [last], '\n' ∉ line ∧ line.getLast? ≠ some '\r') :
    lines (['\n'].intercalate (init ++ [last])) = init ++ if last = [] then [] else [last] := by
  have pieces : (['\n'].intercalate (init ++ [last])).splitOn '\n' = init ++ [last] :=
    List.splitOn_intercalate '\n' (fun line member => (plain line member).1) (by simp)
  have whole : init.map stripCarriageReturn = init := by
    rw [List.map_congr_left (fun line member => stripCarriageReturn_plain (plain line (by simp [member])).2)]
    exact List.map_id' init
  simp only [lines,pieces,List.dropLast_concat,whole,List.getLast?_append,List.getLast?_singleton,Option.some_or,
    Option.toList_some]
  by_cases empty : last = [] <;> simp [empty]

theorem plain_of_unbroken {line : Str} (unbroken : ∀ c ∈ line, c ≠ '\n' ∧ c ≠ '\r') :
    '\n' ∉ line ∧ line.getLast? ≠ some '\r' := by
  refine ⟨?_,?_⟩
  · intro member
    exact (unbroken _ member).1 rfl
  · intro last
    exact (unbroken _ (List.mem_of_getLast? last)).2 rfl

def unlines (ls : List Str) : Str := ls.flatMap (fun line => line ++ ['\n'])

theorem lines_unlines {ls : List Str} (plain : ∀ line ∈ ls, '\n' ∉ line ∧ line.getLast? ≠ some '\r') :
    lines (unlines ls) = ls := by
  have joined : unlines ls = ['\n'].intercalate (ls ++ [[]]) := by
    induction ls with
    | nil => rfl
    | cons line ls ih =>
      have rest := ih (fun other member => plain other (by simp [member]))
      rw [List.cons_append,List.intercalate_cons_of_ne_nil (by simp),← rest]
      simp [unlines]
  have all : ∀ line ∈ ls ++ [[]], '\n' ∉ line ∧ line.getLast? ≠ some '\r' := by
    intro line member
    rcases List.mem_append.mp member with inside | last
    · exact plain line inside
    · simp [List.mem_singleton.mp last]
  rw [joined,lines_intercalate all]
  simp

end Vitals.Text
