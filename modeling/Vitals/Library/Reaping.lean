import Vitals.Library.Table
import Mathlib.Data.List.Perm.Basic
import Mathlib.Tactic.Linarith

/-! Many automata kept in one table, of which only those away from rest have an
entry. One round hands out observations key by key and marks what it touches, then
a sweep drops every unmarked entry. Round by round this is the product of the
stand-alone automata: what one key is told never reaches another. -/
namespace Vitals

/-- What an automaton does with an observation, and what it says when it is dropped
for want of one. -/
structure Family (K S O E : Type) where
  observe : K → O → Option S → Option S × List E
  gone : K → S → List E

namespace Family
variable {K S O E : Type}

/-- The move of one automaton on its own; without an observation it falls to rest. -/
def next (F : Family K S O E) (k : K) (cell : Option S) : Option O → Option S × List E
  | some o => F.observe k o cell
  | none => (none,(cell.map (F.gone k)).getD [])

variable [DecidableEq K]

def emitted (k : K) (events : List (K × E)) : List E :=
  (events.filter (fun e => e.1 = k)).map Prod.snd

def visit (F : Family K S O E) (state : Table K S × List (K × E)) (reading : K × O) :
    Table K S × List (K × E) :=
  let moved := F.observe reading.1 reading.2 (state.1.lookup reading.1)
  (match moved.1 with
    | some cell => state.1.insert reading.1 cell
    | none => state.1.erase reading.1,
  state.2 ++ moved.2.map (fun e => (reading.1,e)))

def sweep (F : Family K S O E) (marked : S → Bool) (order : Iteration (Σ _ : K, S))
    (state : Table K S × List (K × E)) : Table K S × List (K × E) :=
  (state.1.retain marked,
  state.2 ++ ((order.visit state.1.entries).filter (fun e => !marked e.2)).flatMap
    (fun e => (F.gone e.1 e.2).map (fun event => (e.1,event))))

def round (F : Family K S O E) (marked : S → Bool) (order : Iteration (Σ _ : K, S))
    (readings : List (K × O)) (table : Table K S) : Table K S × List (K × E) :=
  F.sweep marked order (readings.foldl F.visit (table,[]))

@[simp] theorem emitted_nil (k : K) : emitted k ([] : List (K × E)) = [] := rfl

@[simp] theorem emitted_append (k : K) (left right : List (K × E)) :
    emitted k (left++right) = emitted k left ++ emitted k right := by
  simp [emitted]

@[simp] theorem emitted_tagged (k j : K) (events : List E) :
    emitted k (events.map (fun e => (j,e))) = if j = k then events else [] := by
  by_cases same : j = k <;> simp [emitted,List.filter_map,Function.comp_def,same]

theorem perm_of_emitted {left right : List (K × E)}
    (same : ∀ k, emitted k left = emitted k right) : left.Perm right := by
  classical
  have counted (events : List (K × E)) (k : K) (e : E) :
      events.count (k,e) = (emitted k events).count e := by
    induction events with
    | nil => rfl
    | cons event rest ih =>
      obtain ⟨j,x⟩ := event
      have split : emitted k ((j,x)::rest) = emitted k [(j,x)] ++ emitted k rest := emitted_append k [_] rest
      rw [split,List.count_append,← ih,List.count_cons]
      by_cases key : j = k
      · subst j
        simp [emitted,List.count_singleton,add_comm]
      · simp [emitted,key]
  rw [List.perm_iff_count]
  intro emission
  obtain ⟨k,e⟩ := emission
  rw [counted,counted,same k]

theorem visit_lookup (F : Family K S O E) (state : Table K S × List (K × E)) (reading : K × O) (k : K) :
    (F.visit state reading).1.lookup k =
      if k = reading.1 then (F.observe reading.1 reading.2 (state.1.lookup reading.1)).1
      else state.1.lookup k := by
  unfold visit
  by_cases same : k = reading.1
  · subst k
    cases moved : (F.observe reading.1 reading.2 (state.1.lookup reading.1)).1 <;> simp [moved]
  · cases moved : (F.observe reading.1 reading.2 (state.1.lookup reading.1)).1 <;> simp [moved,same]

theorem visit_emitted (F : Family K S O E) (state : Table K S × List (K × E)) (reading : K × O) (k : K) :
    emitted k (F.visit state reading).2 = emitted k state.2 ++
      if reading.1 = k then (F.observe reading.1 reading.2 (state.1.lookup reading.1)).2 else [] := by
  simp [visit]

private theorem lookup_absent {k : K} {readings : List (K × O)}
    (absent : k ∉ readings.map Prod.fst) : readings.lookup k = none := by
  rw [List.lookup_eq_none_iff]
  intro reading member
  have other : k ≠ reading.1 := by
    intro same
    subst k
    exact absent (List.mem_map.mpr ⟨reading,member,rfl⟩)
  simpa using other

theorem lookup_eq_some {readings : List (K × O)} (distinct : (readings.map Prod.fst).Nodup)
    (k : K) (o : O) : readings.lookup k = some o ↔ (k,o) ∈ readings := by
  induction readings with
  | nil => simp
  | cons reading rest ih =>
    obtain ⟨j,x⟩ := reading
    obtain ⟨absent,distinct⟩ := List.nodup_cons.mp distinct
    rw [List.lookup_cons]
    by_cases same : k = j
    · subst k
      have elsewhere : (j,o) ∉ rest := fun member => absent (List.mem_map.mpr ⟨_,member,rfl⟩)
      simp [elsewhere,eq_comm]
    · have keys : (k == j) = false := by simpa using same
      simp [keys,same,ih distinct]

/-- A pass over distinct keys moves each key it names once, from the cell the key had
before the pass. -/
theorem visits_lookup (F : Family K S O E) (readings : List (K × O))
    (distinct : (readings.map Prod.fst).Nodup) (state : Table K S × List (K × E)) (k : K) :
    (readings.foldl F.visit state).1.lookup k =
      match readings.lookup k with
      | some o => (F.observe k o (state.1.lookup k)).1
      | none => state.1.lookup k := by
  induction readings generalizing state with
  | nil => rfl
  | cons reading rest ih =>
    obtain ⟨j,o⟩ := reading
    obtain ⟨absent,distinct⟩ := List.nodup_cons.mp distinct
    rw [List.foldl_cons,ih distinct,List.lookup_cons,visit_lookup]
    by_cases same : k = j
    · -- no later reading names the key again
      subst k
      simp [lookup_absent absent]
    · have keys : (k == j) = false := by simpa using same
      simp [keys,same]

theorem visits_emitted (F : Family K S O E) (readings : List (K × O))
    (distinct : (readings.map Prod.fst).Nodup) (state : Table K S × List (K × E)) (k : K) :
    emitted k (readings.foldl F.visit state).2 = emitted k state.2 ++
      match readings.lookup k with
      | some o => (F.observe k o (state.1.lookup k)).2
      | none => [] := by
  induction readings generalizing state with
  | nil => simp
  | cons reading rest ih =>
    obtain ⟨j,o⟩ := reading
    obtain ⟨absent,distinct⟩ := List.nodup_cons.mp distinct
    rw [List.foldl_cons,ih distinct,List.lookup_cons,visit_lookup,visit_emitted]
    by_cases same : k = j
    · subst k
      simp [lookup_absent absent]
    · have keys : (k == j) = false := by simpa using same
      have other : ¬j = k := fun equal => same equal.symm
      simp [keys,same,other]

theorem sweep_lookup (F : Family K S O E) (marked : S → Bool) (order : Iteration (Σ _ : K, S))
    (state : Table K S × List (K × E)) (k : K) :
    (F.sweep marked order state).1.lookup k = (state.1.lookup k).filter marked :=
  Table.lookup_retain marked state.1 k

private theorem dropped_emitted (F : Family K S O E) (marked : S → Bool) (entries : List (Σ _ : K, S))
    (distinct : entries.NodupKeys) (k : K) :
    emitted k ((entries.filter (fun e => !marked e.2)).flatMap
        (fun e => (F.gone e.1 e.2).map (fun event => (e.1,event)))) =
      match entries.dlookup k with
      | some s => if marked s then [] else F.gone k s
      | none => [] := by
  induction entries with
  | nil => rfl
  | cons e rest ih =>
    obtain ⟨j,s⟩ := e
    obtain ⟨absent,distinct⟩ := List.nodupKeys_cons.mp distinct
    have tail := ih distinct
    by_cases same : j = k
    · subst j
      have missing : rest.dlookup k = none := List.dlookup_eq_none.mpr absent
      rw [missing] at tail
      cases kept : marked s <;> simp [kept,tail]
    · have other : ¬k = j := fun equal => same equal.symm
      rw [List.dlookup_cons_ne _ _ other,← tail]
      cases kept : marked s <;> simp [kept,same]

theorem sweep_emitted (F : Family K S O E) (marked : S → Bool) (order : Iteration (Σ _ : K, S))
    (state : Table K S × List (K × E)) (k : K) :
    emitted k (F.sweep marked order state).2 = emitted k state.2 ++
      match state.1.lookup k with
      | some s => if marked s then [] else F.gone k s
      | none => [] := by
  have rearranged := order.perm state.1.entries
  have distinct : (order.visit state.1.entries).NodupKeys :=
    (List.perm_nodupKeys rearranged).mpr state.1.nodupKeys
  have same : (order.visit state.1.entries).dlookup k = state.1.lookup k :=
    List.perm_dlookup k distinct rearranged
  rw [sweep,emitted_append,dropped_emitted F marked _ distinct,same]

/-- One round is one move of every stand-alone automaton, provided the marks tell
this round's entries from the older ones. -/
theorem round_lookup (F : Family K S O E) (marked : S → Bool) (order : Iteration (Σ _ : K, S))
    (readings : List (K × O)) (table : Table K S)
    (distinct : (readings.map Prod.fst).Nodup)
    (stale : ∀ k s, table.lookup k = some s → marked s = false)
    (marks : ∀ k o cell s, (F.observe k o cell).1 = some s → marked s = true) (k : K) :
    (F.round marked order readings table).1.lookup k =
      (F.next k (table.lookup k) (readings.lookup k)).1 := by
  rw [round,sweep_lookup,visits_lookup F readings distinct]
  cases readings.lookup k with
  | none =>
    cases found : table.lookup k with
    | none => rfl
    | some s => simp [next,stale k s found]
  | some o =>
    simp only [next]
    cases moved : (F.observe k o (table.lookup k)).1 with
    | none => rfl
    | some s => simp [marks k o _ s moved]

theorem round_emitted (F : Family K S O E) (marked : S → Bool) (order : Iteration (Σ _ : K, S))
    (readings : List (K × O)) (table : Table K S)
    (distinct : (readings.map Prod.fst).Nodup)
    (stale : ∀ k s, table.lookup k = some s → marked s = false)
    (marks : ∀ k o cell s, (F.observe k o cell).1 = some s → marked s = true) (k : K) :
    emitted k (F.round marked order readings table).2 =
      (F.next k (table.lookup k) (readings.lookup k)).2 := by
  rw [round,sweep_emitted,visits_lookup F readings distinct,visits_emitted F readings distinct]
  cases readings.lookup k with
  | none =>
    cases found : table.lookup k with
    | none => rfl
    | some s => simp [next,stale k s found]
  | some o =>
    simp only [next,emitted_nil,List.nil_append]
    cases moved : (F.observe k o (table.lookup k)).1 with
    | none => simp
    | some s => simp [marks k o _ s moved]

section Conservation
variable (weight : S → Int) (balance : E → Int)

def ledger (events : List (K × E)) : Int := (events.map (fun e => balance e.2)).sum

/-- Every move changes the weight of its cell by the balance of its events. -/
structure Balanced (F : Family K S O E) : Prop where
  observe : ∀ k o cell, Table.share weight (F.observe k o cell).1 =
    Table.share weight cell + ((F.observe k o cell).2.map balance).sum
  gone : ∀ k s, ((F.gone k s).map balance).sum = -weight s

theorem visit_ledger {F : Family K S O E} (balanced : Balanced weight balance F)
    (state : Table K S × List (K × E)) (reading : K × O) :
    Table.total weight (F.visit state reading).1 - ledger balance (F.visit state reading).2 =
      Table.total weight state.1 - ledger balance state.2 := by
  have moved := balanced.observe reading.1 reading.2 (state.1.lookup reading.1)
  unfold visit
  cases result : (F.observe reading.1 reading.2 (state.1.lookup reading.1)).1 with
  | none =>
    rw [result] at moved
    simp only [result,ledger,List.map_append,List.sum_append,List.map_map,Function.comp_def,
      Table.total_erase,Table.share] at moved ⊢
    linarith
  | some cell =>
    rw [result] at moved
    simp only [result,ledger,List.map_append,List.sum_append,List.map_map,Function.comp_def,
      Table.total_insert,Table.share] at moved ⊢
    linarith

theorem visits_ledger {F : Family K S O E} (balanced : Balanced weight balance F)
    (readings : List (K × O)) (state : Table K S × List (K × E)) :
    Table.total weight (readings.foldl F.visit state).1 -
        ledger balance (readings.foldl F.visit state).2 =
      Table.total weight state.1 - ledger balance state.2 := by
  induction readings generalizing state with
  | nil => rfl
  | cons reading rest ih => rw [List.foldl_cons,ih,visit_ledger weight balance balanced]

omit [DecidableEq K] in
private theorem dropped_ledger {F : Family K S O E} (balanced : Balanced weight balance F)
    (entries : List (Σ _ : K, S)) :
    ledger balance (entries.flatMap (fun e => (F.gone e.1 e.2).map (fun event => (e.1,event)))) =
      -(entries.map (fun e => weight e.2)).sum := by
  induction entries with
  | nil => rfl
  | cons e rest ih =>
    have head := balanced.gone e.1 e.2
    simp only [ledger,List.flatMap_cons,List.map_append,List.sum_append,List.map_map,
      Function.comp_def,List.map_cons,List.sum_cons] at ih ⊢
    rw [ih,head]
    omega

theorem round_ledger {F : Family K S O E} (balanced : Balanced weight balance F)
    (marked : S → Bool) (order : Iteration (Σ _ : K, S)) (readings : List (K × O))
    (table : Table K S) :
    Table.total weight (F.round marked order readings table).1 =
      Table.total weight table + ledger balance (F.round marked order readings table).2 := by
  have visited := visits_ledger weight balance balanced readings (table,[])
  generalize state : readings.foldl F.visit (table,[]) = after at visited
  have swept := dropped_ledger weight balance balanced
    ((order.visit after.1.entries).filter (fun e => !marked e.2))
  have rearranged := ((((order.perm after.1.entries).filter (fun e => !marked e.2)).map
    (fun e => weight e.2)).sum_eq)
  rw [round,state,sweep,Table.total_retain]
  simp only [ledger,List.map_nil,List.sum_nil,List.map_append,List.sum_append] at visited swept ⊢
  rw [swept,rearranged]
  omega

end Conservation
end Family
end Vitals
