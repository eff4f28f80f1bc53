import Mathlib.Data.List.DropRight
import Mathlib.Data.Nat.ModEq
import Mathlib.Tactic.Common

/-! The last `c` entries of a list that only grows, laid out in `c` slots: the entry with
index `j` sits in slot `j % c` until the entry with index `j + c` takes its place. -/
namespace Vitals.Window
variable {α : Type}

theorem length_rtake (l : List α) (c : Nat) : (l.rtake c).length = min c l.length := by
  rw [List.rtake,List.length_drop]
  omega

theorem getElem?_rtake (l : List α) (c i : Nat) : (l.rtake c)[i]? = l[l.length-c+i]? := by
  rw [List.rtake,List.getElem?_drop]

structure Laid (c : Nat) (l : List α) (slots : List (Option α)) : Prop where
  size : slots.length = c
  live : ∀ j v, l[j]? = some v → l.length ≤ j+c → slots[j % c]? = some (some v)
  free : ∀ i, l.length ≤ i → i < c → slots[i]? = some none

theorem Laid.nil (c : Nat) : Laid c ([] : List α) (List.replicate c none) where
  size := List.length_replicate
  live := by
    intro j v listed
    simp at listed
  free := by
    intro i _ inside
    rw [List.getElem?_replicate,if_pos inside]

private theorem slots_differ {c j n : Nat} (earlier : j < n) (recent : n < j+c) : j % c ≠ n % c := by
  intro same
  have multiple : c ∣ n-j := (Nat.modEq_iff_dvd' (Nat.le_of_lt earlier)).mp same
  have long := Nat.le_of_dvd (by omega) multiple
  omega

variable {c : Nat} {l : List α} {slots : List (Option α)}

theorem Laid.push (laid : Laid c l slots) (v : α) : Laid c (l ++ [v]) (slots.set (l.length % c) (some v)) where
  size := by rw [List.length_set,laid.size]
  live := by
    intro j w listed recent
    rw [List.length_append,List.length_singleton] at recent
    rcases Nat.lt_or_ge j l.length with old | new
    · rw [List.getElem?_append_left old] at listed
      rw [List.getElem?_set_ne (slots_differ old (by omega)).symm]
      exact laid.live j w listed (by omega)
    · rw [List.getElem?_append_right new,List.getElem?_singleton] at listed
      split at listed
      · rename_i last
        obtain rfl := Option.some.inj listed
        obtain rfl : j = l.length := by omega
        have inside : l.length % c < slots.length := by
          rw [laid.size]
          exact Nat.mod_lt _ (by omega)
        rw [List.getElem?_set_self inside]
      · cases listed
  free := by
    intro i beyond inside
    rw [List.length_append,List.length_singleton] at beyond
    have apart : l.length % c ≠ i := by
      rw [Nat.mod_eq_of_lt (by omega)]
      omega
    rw [List.getElem?_set_ne apart]
    exact laid.free i (by omega) inside

theorem Laid.clear (laid : Laid c l slots) : Laid c ([] : List α) (slots.map (fun _ => none)) := by
  rw [List.map_const',laid.size]
  exact .nil c

/-- The slot of a live entry, counted from the oldest one. -/
theorem Laid.read (laid : Laid c l slots) {i : Nat} (live : i < min c l.length) :
    slots[(l.length-c+i) % c]? = some (l.rtake c)[i]? := by
  obtain ⟨v,listed⟩ : ∃ v, l[l.length-c+i]? = some v := ⟨_,List.getElem?_eq_getElem (by omega)⟩
  rw [getElem?_rtake,listed]
  exact laid.live _ v listed (by omega)

/-- What the next entry overwrites: the oldest live one, or nothing yet. -/
theorem Laid.next (laid : Laid c l slots) (positive : 0 < c) :
    slots[l.length % c]? = some (if c ≤ l.length then (l.rtake c)[0]? else none) := by
  split
  · rename_i full
    rw [← laid.read (i := 0) (by omega),Nat.add_zero,← Nat.sub_add_cancel full,Nat.add_mod_right,
      Nat.sub_add_cancel full]
  · rename_i room
    rw [Nat.mod_eq_of_lt (by omega)]
    exact laid.free _ (Nat.le_refl _) (by omega)

end Vitals.Window
