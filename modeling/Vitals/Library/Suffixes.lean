import Vitals.Library.Text

/-! Endings cut off by a table that is tried in order. -/
namespace Vitals.Suffixes
open Text

variable {α : Type}

/-- The first ending of the table that the text has: what stands before it, and its entry. -/
def cutFirst (table : List (Str × α)) (s : Str) : Option (Str × α) :=
  table.findSome? (fun e => (stripSuffix e.1 s).map (fun front => (front,e.2)))

/-- Endings made of letters, none of which is the end of a later one. -/
structure Ordered (letter : Char → Bool) (table : List (Str × α)) : Prop where
  letters : ∀ e ∈ table, e.1.all letter = true
  apart : table.Pairwise (fun e f => ¬ e.1 <:+ f.1)

theorem of_cutFirst {table : List (Str × α)} {s front : Str} {a : α} (found : cutFirst table s = some (front,a)) :
    ∃ ending, (ending,a) ∈ table ∧ s = front ++ ending := by
  obtain ⟨e,member,cut⟩ := List.exists_of_findSome?_eq_some found
  obtain ⟨before,stripped,same⟩ := Option.map_eq_some_iff.mp cut
  obtain ⟨rfl,rfl⟩ := Prod.mk.inj same
  exact ⟨e.1,member,(stripSuffix_eq_some _ _ _).mp stripped⟩

/-- A text in front of an ending does not lend it letters. -/
theorem suffix_of_append {letter : Char → Bool} {front ending long : Str} (letters : long.all letter = true)
    (stop : ∀ c, front.getLast? = some c → letter c = false) (within : long <:+ front ++ ending) : long <:+ ending := by
  by_contra apart
  have longer : ending.length ≤ long.length := by
    by_contra shorter
    exact apart (List.suffix_of_suffix_length_le within (List.suffix_append front ending) (by omega))
  -- then the rest of the longer ending lies in the text in front
  obtain ⟨extra,rfl⟩ := List.suffix_of_suffix_length_le (List.suffix_append front ending) within longer
  obtain ⟨before,whole⟩ := within
  rw [← List.append_assoc,List.append_cancel_right_eq] at whole
  cases last : extra.getLast? with
  | none =>
    rw [List.getLast?_eq_none_iff.mp last,List.nil_append] at apart
    exact apart List.suffix_rfl
  | some c =>
    have stopped := stop c (by rw [← whole,List.getLast?_append,last,Option.some_or])
    have letter_ := List.all_eq_true.mp letters c (List.mem_append_left _ (List.mem_of_getLast? last))
    rw [stopped] at letter_
    cases letter_

/-- No ending is taken for a shorter one at its end. -/
theorem cutFirst_append {letter : Char → Bool} {table : List (Str × α)} (ordered : Ordered letter table)
    {front ending : Str} {a : α} (member : (ending,a) ∈ table)
    (stop : ∀ c, front.getLast? = some c → letter c = false) : cutFirst table (front ++ ending) = some (front,a) := by
  obtain ⟨letters,apart⟩ := ordered
  induction table with
  | nil => cases member
  | cons e table ih =>
    obtain ⟨first,later⟩ := List.pairwise_cons.mp apart
    unfold cutFirst at ih ⊢
    rw [List.findSome?_cons]
    rcases List.mem_cons.mp member with rfl | inside
    · rw [stripSuffix_append]
      rfl
    · have missed : stripSuffix e.1 (front ++ ending) = none :=
        stripSuffix_none (fun within => first _ inside (suffix_of_append (letters e (by simp)) stop within))
      rw [missed]
      exact ih inside (fun f within => letters f (by simp [within])) later

end Vitals.Suffixes
