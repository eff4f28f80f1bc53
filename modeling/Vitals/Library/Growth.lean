import Mathlib.Algebra.BigOperators.Group.List.Basic
import Mathlib.Algebra.Ring.Nat
import Mathlib.Tactic.Common

/-! Counters that are summed: how the growth of the sum compares with the sum of the
growths, where a counter that goes back counts for nothing. -/
namespace Vitals.Growth
variable {α : Type} (before after : α → Nat)

/-- Gains and losses balance. -/
theorem balance (items : List α) :
    (items.map before).sum + (items.map (fun x => after x - before x)).sum =
      (items.map after).sum + (items.map (fun x => before x - after x)).sum := by
  induction items with
  | nil => rfl
  | cons x items ih =>
    simp only [List.map_cons,List.sum_cons]
    omega

/-- The sum grows by the growths together unless some counter goes back while another advances. -/
theorem growth_of_sum_iff (items : List α) :
    (items.map after).sum - (items.map before).sum = (items.map (fun x => after x - before x)).sum ↔
      (∀ x ∈ items, before x ≤ after x) ∨ ∀ x ∈ items, after x ≤ before x := by
  have balanced := balance before after items
  have losses : (items.map (fun x => before x - after x)).sum = 0 ↔ ∀ x ∈ items, before x ≤ after x := by
    simp [List.sum_eq_zero_iff_forall_eq_nat,Nat.sub_eq_zero_iff_le]
  have gains : (items.map (fun x => after x - before x)).sum = 0 ↔ ∀ x ∈ items, after x ≤ before x := by
    simp [List.sum_eq_zero_iff_forall_eq_nat,Nat.sub_eq_zero_iff_le]
  rw [← losses,← gains]
  omega

/-- Along a series the gains and losses of the single steps make up the difference of its ends. -/
theorem telescope (f : Nat → Nat) (n : Nat) :
    f 0 + ((List.range n).map (fun k => f (k+1) - f k)).sum =
      f n + ((List.range n).map (fun k => f k - f (k+1))).sum := by
  induction n with
  | zero => rfl
  | succ n ih =>
    simp only [List.range_succ,List.map_append,List.sum_append,List.map_singleton,List.sum_singleton]
    omega

theorem no_losses {f : Nat → Nat} {n : Nat} (rising : ∀ k < n, f k ≤ f (k+1)) :
    ((List.range n).map (fun k => f k - f (k+1))).sum = 0 := by
  rw [List.sum_eq_zero_iff_forall_eq_nat]
  intro x listed
  obtain ⟨k,inside,rfl⟩ := List.mem_map.mp listed
  exact Nat.sub_eq_zero_of_le (rising k (List.mem_range.mp inside))

end Vitals.Growth
