import Mathlib.Algebra.Ring.Nat
import Mathlib.Data.List.Defs
import Mathlib.Tactic.Common

/-! Numbers as little-endian bytes, and lists cut into pieces of one length. -/
namespace Vitals.Bytes

/-- The lowest `k` bytes of a number, the lowest first. -/
def littleEndian : Nat → Nat → List UInt8
  | 0,_ => []
  | k+1,n => UInt8.ofNat (n % 256) :: littleEndian k (n / 256)

def value (bytes : List UInt8) : Nat := bytes.foldr (fun byte rest => byte.toNat + 256*rest) 0

theorem length_littleEndian (k n : Nat) : (littleEndian k n).length = k := by
  induction k generalizing n with
  | zero => rfl
  | succ k ih => rw [littleEndian,List.length_cons,ih]

theorem value_littleEndian (k n : Nat) : value (littleEndian k n) = n % 256^k := by
  induction k generalizing n with
  | zero => exact (Nat.mod_one n).symm
  | succ k ih =>
    have low : (UInt8.ofNat (n % 256)).toNat = n % 256 := by
      rw [UInt8.toNat_ofNat']
      omega
    have rest : value (littleEndian (k+1) n) = (UInt8.ofNat (n % 256)).toNat + 256*value (littleEndian k (n / 256)) := rfl
    rw [rest,low,ih,Nat.pow_succ',Nat.mod_mul]

section
variable {α : Type} {n : Nat}

private theorem go_done (items : List α) : ∀ (piece : Array α) (done : Array (List α)),
    List.toChunks.go n items piece done = done.toList ++ List.toChunks.go n items piece #[] := by
  induction items with
  | nil =>
    intro piece done
    simp [List.toChunks.go]
  | cons x items ih =>
    intro piece done
    simp only [List.toChunks.go]
    split
    · rw [ih _ (done.push _),ih _ (#[].push _)]
      simp
    · rw [ih _ done]

private theorem go_fill (rest front : List α) : ∀ piece : List α, piece.length + front.length ≤ n →
    List.toChunks.go n (front ++ rest) piece.toArray #[] = List.toChunks.go n rest (piece ++ front).toArray #[] := by
  induction front with
  | nil =>
    intro piece _
    rw [List.nil_append,List.append_nil]
  | cons x front ih =>
    intro piece fits
    rw [List.length_cons] at fits
    have open_ : ¬ (piece.toArray.size == n) = true := by
      rw [List.size_toArray,beq_iff_eq]
      omega
    have next := ih (piece ++ [x]) (by rw [List.length_append,List.length_singleton]; omega)
    rw [List.cons_append,List.toChunks.go,if_neg open_,List.push_toArray,next,List.append_assoc,List.singleton_append]

theorem toChunks_append {front : List α} (whole : front.length = n) (some_ : front ≠ []) (rest : List α) :
    (front ++ rest).toChunks n = front :: rest.toChunks n := by
  obtain ⟨x,later,rfl⟩ := List.exists_cons_of_ne_nil some_
  have positive : n = 0 → False := by
    intro zero
    rw [zero] at whole
    cases whole
  have fits : [x].length + later.length ≤ n := by
    rw [List.length_cons] at whole
    rw [List.length_singleton]
    omega
  have filled := go_fill rest later [x] fits
  rw [List.cons_append,List.toChunks.eq_3 _ _ _ positive]
  refine filled.trans ?_
  cases rest with
  | nil => rfl
  | cons y rest =>
    have full : (([x] ++ later).toArray.size == n) = true := by
      rw [List.size_toArray,beq_iff_eq]
      exact whole
    rw [List.toChunks.go,if_pos full,go_done,List.toChunks.eq_3 _ _ _ positive]
    rfl

theorem toChunks_short {rest : List α} (short : rest.length < n) : ∀ piece ∈ rest.toChunks n, piece.length < n := by
  intro piece member
  cases rest with
  | nil => simp [List.toChunks] at member
  | cons x rest =>
    have fits : [x].length + rest.length ≤ n := by
      rw [List.length_cons] at short
      rw [List.length_singleton]
      omega
    have filled := go_fill [] rest [x] fits
    rw [List.append_nil] at filled
    rw [List.toChunks.eq_3 _ _ _ (by intro zero; omega)] at member
    have only : piece ∈ [[x] ++ rest] := by
      have same := filled ▸ member
      simpa [List.toChunks.go] using same
    rw [List.mem_singleton.mp only]
    exact short

end
end Vitals.Bytes
