import Vitals.Library.Text
import Mathlib.Data.List.Induction
import Mathlib.Tactic.Common

/-! A record filled in one item at a time: what a field holds at the end, from what each
item tells of that field alone; lines that name the field they fill; and a table of records
looked up by key. -/
namespace Vitals.Records
open Text
variable {σ ι α : Type}

/-- A field that an item overwrites or leaves alone holds what was said last. -/
theorem foldl_assign {step : σ → ι → σ} {field : σ → α} {tells : ι → Option α}
    (turn : ∀ state item, field (step state item) = (tells item).getD (field state))
    (items : List ι) (state : σ) :
    field (items.foldl step state) = (items.filterMap tells).getLast?.getD (field state) := by
  induction items using List.reverseRecOn with
  | nil => rfl
  | append_singleton items item ih =>
    rw [List.foldl_append,List.foldl_cons,List.foldl_nil,turn,ih,List.filterMap_append]
    cases said : tells item <;> simp [said]

theorem foldl_single {step : σ → ι → σ} {field : σ → α} {tells : ι → Option α}
    (turn : ∀ state item, field (step state item) = (tells item).getD (field state))
    {items : List ι} {value : α} (single : items.filterMap tells = [value]) (state : σ) :
    field (items.foldl step state) = value := by
  rw [foldl_assign turn,single]
  rfl

/-- A field that an item extends or leaves alone holds all that was said, in order. -/
theorem foldl_collect {step : σ → ι → σ} {field : σ → List α} {tells : ι → Option α}
    (turn : ∀ state item, field (step state item) = field state ++ (tells item).toList)
    (items : List ι) (state : σ) :
    field (items.foldl step state) = field state ++ items.filterMap tells := by
  induction items using List.reverseRecOn with
  | nil => simp
  | append_singleton items item ih =>
    rw [List.foldl_append,List.foldl_cons,List.foldl_nil,turn,ih,List.filterMap_append,List.append_assoc]
    cases said : tells item <;> simp [said]

section
variable {κ : Type} (keys : List κ) (name : κ → Str) (assign : σ → κ → Str → σ)

/-- What a line `name: value` does to a record, the name compared with those of the keys one by
one. A line under another name, or under none, does nothing. -/
def fileLine (state : σ) (line : Str) : σ :=
  match splitOnce ':' line with
  | none => state
  | some (k,v) => keys.foldr (fun key rest => if trim k = name key then assign state key (trim v) else rest) state

theorem fileLine_named (distinct : (keys.map name).Nodup) {key : κ} (listed : key ∈ keys) (plain : ':' ∉ name key)
    (trimmed : trim (name key) = name key) (state : σ) (v : Str) :
    fileLine keys name assign state (name key ++ ':' :: v) = assign state key (trim v) := by
  simp only [fileLine,splitOnce_append v plain,trimmed]
  clear plain trimmed
  induction keys with
  | nil => cases listed
  | cons first keys ih =>
    obtain ⟨fresh,others⟩ := List.nodup_cons.mp distinct
    rw [List.foldr_cons]
    rcases List.mem_cons.mp listed with rfl | later
    · rw [if_pos rfl]
    · have apart : name key ≠ name first := fun same => fresh (same ▸ List.mem_map_of_mem later)
      rw [if_neg apart]
      exact ih others later

theorem fileLine_other {line : Str}
    (unknown : ∀ k rest, line = k ++ ':' :: rest → ':' ∉ k → ∀ key ∈ keys, trim k ≠ name key) (state : σ) :
    fileLine keys name assign state line = state := by
  unfold fileLine
  cases cut : splitOnce ':' line with
  | none => rfl
  | some halves =>
    obtain ⟨whole,unsplit⟩ := of_splitOnce cut
    have apart := unknown halves.1 halves.2 whole unsplit
    dsimp only
    clear unknown cut whole
    induction keys with
    | nil => rfl
    | cons first keys ih =>
      obtain ⟨other,others⟩ := List.forall_mem_cons.mp apart
      rw [List.foldr_cons,if_neg other]
      exact ih others

end

/-- In a table without duplicate keys a look-up finds every entry. -/
theorem lookup_iff_mem {κ : Type} [BEq κ] [LawfulBEq κ] {table : List (κ × α)} (distinct : (table.map Prod.fst).Nodup)
    (key : κ) (value : α) : table.lookup key = some value ↔ (key,value) ∈ table := by
  refine ⟨?_,?_⟩
  · intro found
    obtain ⟨before,after,rfl,_⟩ := List.lookup_eq_some_iff.mp found
    simp
  · intro member
    obtain ⟨before,after,rfl⟩ := List.append_of_mem member
    refine List.lookup_eq_some_iff.mpr ⟨before,after,rfl,?_⟩
    intro e earlier
    rw [List.map_append,List.nodup_append] at distinct
    have apart := distinct.2.2 _ (List.mem_map_of_mem earlier) key (by simp)
    simpa using apart.symm

end Vitals.Records
