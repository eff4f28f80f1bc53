import Mathlib.Data.List.AList
import Mathlib.Data.List.Induction
import Mathlib.Algebra.Order.Ring.Int
import Mathlib.Algebra.BigOperators.Group.List.Basic
import Mathlib.Tactic.Abel

/-! Hash tables as association lists with distinct keys. The order in which the
entries are stored carries no meaning: a traversal goes through them in an order of
its own, which the reader of a result must not rely on. -/
namespace Vitals

abbrev Table (K S : Type) := AList (fun _ : K => S)

/-- The order in which one traversal happens to visit the entries of a table. -/
structure Iteration (α : Type) where
  visit : List α → List α
  perm : ∀ entries, (visit entries).Perm entries

def Iteration.stored (α : Type) : Iteration α := ⟨id,List.Perm.refl⟩

namespace Table
variable {K S : Type}

/-- `HashMap::retain`. -/
def retain (keep : S → Bool) (t : Table K S) : Table K S :=
  ⟨t.entries.filter (fun e => keep e.2),t.nodupKeys.sublist List.filter_sublist⟩

def total (weight : S → Int) (t : Table K S) : Int := (t.entries.map (fun e => weight e.2)).sum

theorem total_retain (weight : S → Int) (keep : S → Bool) (t : Table K S) :
    total weight (retain keep t) =
      total weight t - ((t.entries.filter (fun e => !keep e.2)).map (fun e => weight e.2)).sum := by
  simp only [total,retain]
  induction t.entries with
  | nil => simp
  | cons e rest ih =>
    cases kept : keep e.2 <;> simp only [List.filter_cons,kept,Bool.not_true,Bool.not_false,if_true,
      if_false,Bool.false_eq_true,List.map_cons,List.sum_cons,ih] <;> abel

variable [DecidableEq K]

theorem lookup_eq_some (t : Table K S) (k : K) (s : S) : t.lookup k = some s ↔ ⟨k,s⟩ ∈ t.entries :=
  AList.mem_lookup_iff

theorem lookup_retain (keep : S → Bool) (t : Table K S) (k : K) :
    (retain keep t).lookup k = (t.lookup k).filter keep := by
  apply Option.ext
  intro s
  rw [Option.filter_eq_some_iff,lookup_eq_some,lookup_eq_some]
  exact List.mem_filter

theorem erase_insert (t : Table K S) (k : K) (s : S) : (t.insert k s).erase k = t.erase k := by
  apply AList.ext
  change List.kerase k (⟨k,s⟩ :: List.kerase k t.entries) = List.kerase k t.entries
  exact List.kerase_cons_eq rfl

theorem erase_absent {t : Table K S} {k : K} (absent : t.lookup k = none) : t.erase k = t := by
  apply AList.ext
  exact List.kerase_of_notMem_keys (AList.lookup_eq_none.mp absent)

def inserts (pairs : List (K × S)) : Table K S := pairs.foldl (fun t pair => t.insert pair.1 pair.2) ∅

theorem inserts_append (pairs : List (K × S)) (pair : K × S) :
    inserts (pairs ++ [pair]) = (inserts pairs).insert pair.1 pair.2 := by
  simp [inserts]

/-- Insertions that agree on every key are all there in the end, and nothing else is. -/
theorem lookup_inserts (pairs : List (K × S))
    (functional : ∀ a ∈ pairs, ∀ b ∈ pairs, a.1 = b.1 → a.2 = b.2) (k : K) (s : S) :
    (inserts pairs).lookup k = some s ↔ (k,s) ∈ pairs := by
  induction pairs using List.reverseRecOn with
  | nil =>
    rw [show (inserts ([] : List (K × S))).lookup k = none from AList.lookup_empty k]
    simp
  | append_singleton pairs pair ih =>
    have before := ih (fun a inA b inB => functional a (by simp [inA]) b (by simp [inB]))
    obtain ⟨j,x⟩ := pair
    rw [inserts_append]
    by_cases same : k = j
    · subst k
      rw [AList.lookup_insert,List.mem_append,List.mem_singleton]
      refine ⟨fun found => .inr (by simpa using found.symm),fun member => ?_⟩
      rcases member with earlier | last
      · exact congrArg some (functional (j,x) (by simp) (j,s) (by simp [earlier]) rfl)
      · exact congrArg some (Prod.mk.inj last).2.symm
    · rw [AList.lookup_insert_ne same,before]
      simp [same]

theorem length_inserts (pairs : List (K × S)) (distinct : (pairs.map Prod.fst).Nodup) :
    (inserts pairs).entries.length = pairs.length := by
  induction pairs using List.reverseRecOn with
  | nil => rfl
  | append_singleton pairs pair ih =>
    rw [List.map_append,List.nodup_append] at distinct
    obtain ⟨distinct,_,apart⟩ := distinct
    have functional : ∀ a ∈ pairs, ∀ b ∈ pairs, a.1 = b.1 → a.2 = b.2 := by
      intro a inA b inB same
      rw [List.inj_on_of_nodup_map distinct inA inB same]
    have fresh : pair.1 ∉ inserts pairs := by
      intro present
      obtain ⟨s,found⟩ := Option.isSome_iff_exists.mp (AList.lookup_isSome.mpr present)
      have member := (lookup_inserts pairs functional pair.1 s).mp found
      exact apart pair.1 (List.mem_map.mpr ⟨_,member,rfl⟩) pair.1 (by simp) rfl
    rw [inserts_append,AList.entries_insert_of_notMem fresh,List.length_cons,ih distinct,
      List.length_append,List.length_singleton]

def share (weight : S → Int) : Option S → Int
  | some s => weight s
  | none => 0

theorem total_erase (weight : S → Int) (t : Table K S) (k : K) :
    total weight (t.erase k) = total weight t - share weight (t.lookup k) := by
  cases found : t.lookup k with
  | none => simp [erase_absent found,share]
  | some s =>
    have member := (lookup_eq_some t k s).mp found
    obtain ⟨e,before,after,_,key,split,erased⟩ := List.exists_of_eraseP member (p := fun e => decide (k = e.1)) (by simp)
    obtain ⟨key',s'⟩ := e
    obtain rfl : k = key' := by simpa using key
    have same : s' = s := by
      have inside : (⟨k,s'⟩ : Sigma fun _ : K => S) ∈ t.entries := by rw [split]; simp
      have read := (lookup_eq_some t k s').mpr inside
      simpa [read] using found
    subst s'
    change (((t.entries.eraseP (fun e => decide (k = e.1))).map _).sum : Int) = _
    rw [erased,total,split]
    simp only [List.map_append,List.map_cons,List.sum_append,List.sum_cons,share]
    abel

theorem total_insert (weight : S → Int) (t : Table K S) (k : K) (s : S) :
    total weight (t.insert k s) = total weight t - share weight (t.lookup k) + weight s := by
  rw [← total_erase]
  change ((List.kinsert k s t.entries).map (fun e => weight e.2)).sum = _
  rw [List.kinsert_def,List.map_cons,List.sum_cons,add_comm]
  rfl

end Table
end Vitals
