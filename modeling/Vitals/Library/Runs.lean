import Mathlib.Algebra.Ring.Nat
import Mathlib.Data.List.Basic
import Mathlib.Tactic.Common

/-! Finite runs of a labelled step relation, the labels in the order they happened. -/
namespace Vitals.Library

/-- What an observer has noted of the labels, one label later. -/
theorem filterMap_snoc {L M : Type} (seen : L → Option M) (labels : List L) (l : L) :
    (labels ++ [l]).filterMap seen = labels.filterMap seen ++ (seen l).toList := by
  rw [List.filterMap_append]
  cases shown : seen l <;> simp [shown]

inductive Run {S L : Type} (step : S → L → S → Prop) (start : S) : List L → S → Prop
  | refl : Run step start [] start
  | snoc (labels : List L) (middle : S) (label : L) (last : S) (before : Run step start labels middle)
      (taken : step middle label last) : Run step start (labels ++ [label]) last

namespace Run
variable {S L : Type} {step : S → L → S → Prop} {s t : S} {labels : List L}

theorem next {l : L} {u : S} (run : Run step s labels t) (taken : step t l u) : Run step s (labels ++ [l]) u :=
  .snoc labels t l u run taken

theorem append {u : S} {more : List L} (first : Run step s labels t) (rest : Run step t more u) :
    Run step s (labels ++ more) u := by
  induction rest with
  | refl => rwa [List.append_nil]
  | snoc more middle label last _ taken ih =>
    rw [← List.append_assoc]
    exact .snoc _ middle label last ih taken

theorem split {whole : List L} {u : S} (run : Run step s whole u) :
    ∀ {front rear : List L}, whole = front ++ rear → ∃ m, Run step s front m ∧ Run step m rear u := by
  induction run with
  | refl =>
    intro front rear same
    obtain ⟨rfl,rfl⟩ := List.append_eq_nil_iff.mp same.symm
    exact ⟨s,.refl,.refl⟩
  | snoc labels middle label last before taken ih =>
    intro front rear same
    rcases rear.eq_nil_or_concat with rfl | ⟨shorter,final,rfl⟩
    · rw [List.append_nil] at same
      exact ⟨last,same ▸ .snoc labels middle label last before taken,.refl⟩
    · rw [List.concat_eq_append,← List.append_assoc] at same
      obtain ⟨shared,single⟩ := List.append_inj' same rfl
      obtain ⟨m,first,rest⟩ := ih shared
      rw [List.concat_eq_append,← single]
      exact ⟨m,first,.snoc shorter middle label last rest taken⟩

theorem nothing (run : Run step s labels t) (none : labels = []) : t = s := by
  cases run with
  | refl => rfl
  | snoc labels middle label last before taken => simp at none

theorem single {l : L} (run : Run step s labels t) (one : labels = [l]) : step s l t := by
  cases run with
  | refl => cases one
  | snoc labels middle label last before taken =>
    have parts : labels ++ [label] = [] ++ [l] := one
    obtain ⟨none,same⟩ := List.append_inj' parts rfl
    rwa [← before.nothing none,← List.singleton_inj.mp same]

theorem split_at {front rear : List L} {l : L} {u : S} (run : Run step s (front ++ l :: rear) u) :
    ∃ m n, Run step s front m ∧ step m l n ∧ Run step n rear u := by
  obtain ⟨m,first,rest⟩ := run.split rfl
  have apart : l :: rear = [l] ++ rear := rfl
  obtain ⟨n,taken,later⟩ := rest.split apart
  exact ⟨m,n,first,taken.single rfl,later⟩

theorem invariant {holds : S → Prop} (run : Run step s labels t) (first : holds s)
    (keeps : ∀ m l u, holds m → step m l u → holds u) : holds t := by
  induction run with
  | refl => exact first
  | snoc labels middle label last _ taken ih => exact keeps middle label last ih taken

/-- What one component of a system goes through is a run of that component. -/
theorem project {T M : Type} {inner : T → M → T → Prop} (part : S → T) (seen : L → Option M)
    (acts : ∀ m l u, step m l u → match seen l with
      | some a => inner (part m) a (part u)
      | none => part u = part m)
    (run : Run step s labels t) : Run inner (part s) (labels.filterMap seen) (part t) := by
  induction run with
  | refl => exact .refl
  | snoc labels middle label last _ taken ih =>
    have act := acts middle label last taken
    rw [filterMap_snoc]
    cases shown : seen label with
    | none =>
      simp only [shown] at act
      rw [Option.toList_none,List.append_nil,act]
      exact ih
    | some a =>
      simp only [shown] at act
      exact ih.next act

/-- Where every counted step uses up some of a budget and no other step adds to it, the counted
steps of a run are paid for. -/
theorem budget (run : Run step s labels t) (spent : L → Nat) (left : S → Nat) (within : S → Prop)
    (inside : within s) (stays : ∀ m l u, within m → step m l u → within u)
    (pays : ∀ m l u, within m → step m l u → spent l + left u ≤ left m) :
    (labels.map spent).sum + left t ≤ left s := by
  have both : within t ∧ (labels.map spent).sum + left t ≤ left s := by
    induction run with
    | refl => exact ⟨inside,by simp⟩
    | snoc labels m l u _ taken ih =>
      have cost := pays m l u ih.1 taken
      have total := ih.2
      refine ⟨stays m l u ih.1 taken,?_⟩
      rw [List.map_append,List.sum_append,List.map_singleton,List.sum_singleton]
      omega
  exact both.2

end Run
end Vitals.Library
