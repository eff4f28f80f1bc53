import Mathlib.Tactic.Common

/-! Computations that stop at their first error: what a result says about the steps that
led to it, and what a loop over a list comes to. -/
namespace Vitals.Fallible
variable {ε α β : Type}

theorem bind_ok {first : Except ε α} {next : α → Except ε β} {b : β} :
    (first >>= next) = .ok b ↔ ∃ a, first = .ok a ∧ next a = .ok b := by
  cases first <;> simp [bind,Except.bind]

theorem guard_ok {refused : Prop} [Decidable refused] {reason : ε} {rest : Except ε α} {a : α} :
    (if refused then .error reason else rest) = .ok a ↔ ¬ refused ∧ rest = .ok a := by
  by_cases refused <;> simp [*]

/-- A loop whose turns all succeed is the loop over what they do. -/
theorem foldlM_ok {step : β → α → Except ε β} {next : β → α → β} (items : List α)
    (turn : ∀ item ∈ items, ∀ state, step state item = .ok (next state item)) (initial : β) :
    items.foldlM step initial = .ok (items.foldl next initial) := by
  induction items generalizing initial with
  | nil => rfl
  | cons item items ih =>
    rw [List.foldlM_cons,turn item (by simp)]
    exact ih (fun other member => turn other (by simp [member])) _

/-- One item that fails in every state is enough to end the loop. -/
theorem foldlM_error {step : β → α → Except ε β} {items : List α} {item : α} (member : item ∈ items)
    (failing : ∀ state, ∃ e, step state item = .error e) (initial : β) :
    ∃ e, items.foldlM step initial = .error e := by
  induction items generalizing initial with
  | nil => cases member
  | cons first items ih =>
    rw [List.foldlM_cons]
    cases turn : step initial first with
    | error e => exact ⟨e,rfl⟩
    | ok state =>
      rcases List.mem_cons.mp member with rfl | later
      · obtain ⟨e,failed⟩ := failing initial
        cases turn.symm.trans failed
      · exact ih later state

theorem mapM_some {f : α → Option β} {g : α → β} (items : List α) (turn : ∀ item ∈ items, f item = some (g item)) :
    items.mapM f = some (items.map g) := by
  induction items with
  | nil => rfl
  | cons item items ih =>
    rw [List.mapM_cons,turn item (by simp),ih (fun other member => turn other (by simp [member]))]
    rfl

end Vitals.Fallible
