import Vitals.Kernel.Ring
import Vitals.Library.Window

/-! The ring buffer against the list it stands for: whatever is pushed and cleared, it
shows the last few of the values pushed since it was last cleared. -/
namespace Vitals.RingWindow
open Kernel Window

inductive Op (α : Type) where
  | push (v : α)
  | clear

section
variable {α : Type}

def apply (r : Kernel.Ring α) : Op α → Kernel.Ring α
  | .push v => (r.push v).1
  | .clear => r.clear

/-- The values pushed since the last `clear`. -/
def contents (l : List α) : Op α → List α
  | .push v => l ++ [v]
  | .clear => []

def isPush : Op α → Bool
  | .push _ => true
  | .clear => false

structure Represents (r : Kernel.Ring α) (l : List α) : Prop where
  laid : Laid r.capacity l r.slots
  head : r.head = l.length % r.capacity
  len : r.len = min r.capacity l.length

/-- What is seen of a ring of capacity `c` that has been given `l`. -/
structure Shows (c : Nat) (l : List α) (r : Kernel.Ring α) : Prop where
  capacity : r.capacity = c
  len : r.len = (l.rtake c).length
  isEmpty : r.isEmpty = true ↔ l.rtake c = []
  isFull : r.isFull = true ↔ (l.rtake c).length = c
  iterChrono : r.iterChrono = l.rtake c
  get : ∀ i, r.get i = (l.rtake c)[i]?
  oldest : r.oldest = (l.rtake c).head?
  newest : r.newest = (l.rtake c).getLast?
  evicted : ∀ v, (r.push v).2 = if (l.rtake c).length = c then (l.rtake c).head? else none
  inBounds : r.head < r.slots.length ∧ r.last < r.slots.length ∧ ∀ i, r.phys i < r.slots.length

theorem represents_new (capacity : Nat) : Represents (Ring.new capacity : Kernel.Ring α) [] where
  laid := by
    rw [Ring.capacity,Ring.new,List.length_replicate]
    exact .nil _
  head := by simp [Ring.new]
  len := by simp [Ring.new]

variable {r : Kernel.Ring α} {l : List α}

theorem represents_push (rep : Represents r l) (v : α) : Represents (r.push v).1 (l ++ [v]) := by
  have size : (r.push v).1.capacity = r.capacity := List.length_set
  have bound := rep.len
  refine ⟨?_,?_,?_⟩
  · rw [size]
    change Laid _ _ (r.slots.set r.head (some v))
    rw [rep.head]
    exact rep.laid.push v
  · rw [size,List.length_append,List.length_singleton,Nat.add_mod,← rep.head]
    change (r.head+1) % r.capacity = _
    rw [Nat.add_mod,Nat.mod_eq_of_lt (show r.head < r.capacity from r.head_lt)]
  · rw [size,List.length_append,List.length_singleton]
    change (if r.len < r.capacity then r.len+1 else r.len) = _
    split <;> omega

private theorem represents_clear (rep : Represents r l) : Represents r.clear [] := by
  have size : r.clear.capacity = r.capacity := List.length_map _
  refine ⟨?_,?_,?_⟩
  · rw [size]
    exact rep.laid.clear
  · simp [Ring.clear]
  · simp [Ring.clear]

/-- One operation keeps the ring and the list together. -/
theorem represents_apply (rep : Represents r l) (op : Op α) : Represents (apply r op) (contents l op) := by
  cases op with
  | push v => exact represents_push rep v
  | clear => exact represents_clear rep

theorem capacity_apply (r : Kernel.Ring α) (op : Op α) : (apply r op).capacity = r.capacity := by
  cases op with
  | push v => exact List.length_set
  | clear => exact List.length_map _

private theorem get_represented (rep : Represents r l) (i : Nat) : r.get i = (l.rtake r.capacity)[i]? := by
  have bound := rep.len
  have size := length_rtake l r.capacity
  unfold Ring.get
  split
  · rw [List.getElem?_eq_none (by omega)]
  · have start : r.phys i = (l.length-r.capacity+i) % r.capacity := by
      unfold Ring.phys
      change ((if r.len = r.capacity then r.head else 0)+i) % r.capacity = _
      split
      · -- the oldest entry is one capacity behind the next one
        rw [rep.head,Nat.mod_add_mod]
        have whole : l.length+i = l.length-r.capacity+i+r.capacity := by omega
        rw [whole,Nat.add_mod_right]
      · rw [Nat.sub_eq_zero_of_le (by omega)]
    have read := rep.laid.read (i := i) (by omega)
    rw [← start,List.getElem?_eq_getElem (r.phys_lt i)] at read
    exact Option.some.inj read

private theorem evicted_represented (rep : Represents r l) (v : α) :
    (r.push v).2 = if r.capacity ≤ l.length then (l.rtake r.capacity)[0]? else none := by
  have next := rep.laid.next r.capacity_pos
  rw [← rep.head,List.getElem?_eq_getElem r.head_lt] at next
  exact Option.some.inj next

private theorem newest_represented (rep : Represents r l) : r.newest = (l.rtake r.capacity).getLast? := by
  have bound := rep.len
  have size := length_rtake l r.capacity
  have positive := r.capacity_pos
  change 0 < r.capacity at positive
  unfold Ring.newest
  rw [List.getLast?_eq_getElem?]
  split
  · rw [List.getElem?_eq_none (by omega)]
  · have start : r.last = (l.length-r.capacity+((l.rtake r.capacity).length-1)) % r.capacity := by
      unfold Ring.last
      change (r.head+r.capacity-1) % r.capacity = _
      rw [Nat.add_sub_assoc positive,rep.head,Nat.mod_add_mod]
      have whole : l.length+(r.capacity-1) = l.length-r.capacity+((l.rtake r.capacity).length-1)+r.capacity := by
        omega
      rw [whole,Nat.add_mod_right]
    have read := rep.laid.read (i := (l.rtake r.capacity).length-1) (by omega)
    rw [← start,List.getElem?_eq_getElem r.last_lt] at read
    exact Option.some.inj read

theorem iterChrono_represented (rep : Represents r l) : r.iterChrono = l.rtake r.capacity := by
  have size : r.len = (l.rtake r.capacity).length := rep.len.trans (length_rtake l r.capacity).symm
  have each : r.get = fun i => (l.rtake r.capacity)[i]? := funext (get_represented rep)
  rw [Ring.iterChrono,size,each]
  generalize l.rtake r.capacity = kept
  induction kept with
  | nil => rfl
  | cons v kept ih =>
    rw [List.length_cons,List.range_succ_eq_map,List.filterMap_cons,List.filterMap_map]
    exact congrArg (v :: ·) ih

private theorem shows_represented (rep : Represents r l) : Shows r.capacity l r := by
  have size := length_rtake l r.capacity
  have bound := rep.len
  have full : r.isFull = true ↔ (l.rtake r.capacity).length = r.capacity := by
    change decide (r.len = r.capacity) = true ↔ _
    rw [decide_eq_true_eq,bound,size]
  refine ⟨rfl,bound.trans size.symm,?_,full,iterChrono_represented rep,get_represented rep,?_,
    newest_represented rep,?_,⟨r.head_lt,r.last_lt,r.phys_lt⟩⟩
  · rw [← List.length_eq_zero_iff,size,← bound]
    exact decide_eq_true_iff
  · rw [Ring.oldest,get_represented rep,List.head?_eq_getElem?]
  · intro v
    rw [evicted_represented rep v,size,List.head?_eq_getElem?]
    exact if_congr (by omega) rfl rfl

section
variable (capacity : Nat) (ops : List (Op α))

def run : Kernel.Ring α := ops.foldl apply (.new capacity)

def kept : List α := ops.foldl contents []

private theorem represents_run : Represents (run capacity ops) (kept ops) := by
  have step (r : Kernel.Ring α) (l : List α) (rep : Represents r l) :
      Represents (ops.foldl apply r) (ops.foldl contents l) := by
    induction ops generalizing r l with
    | nil => exact rep
    | cons op ops ih => exact ih _ _ (represents_apply rep op)
  exact step _ _ (represents_new capacity)

private theorem capacity_run : (run capacity ops).capacity = max capacity 1 := by
  have step (r : Kernel.Ring α) : (ops.foldl apply r).capacity = r.capacity := by
    induction ops generalizing r with
    | nil => rfl
    | cons op ops ih => rw [List.foldl_cons,ih,capacity_apply]
  exact (step _).trans List.length_replicate

private theorem pushed_run : (run capacity ops).totalPushed = UInt64.ofNat (ops.countP isPush) := by
  have step (r : Kernel.Ring α) :
      (ops.foldl apply r).pushed = r.pushed + UInt64.ofNat (ops.countP isPush) := by
    induction ops generalizing r with
    | nil => simp
    | cons op ops ih =>
      rw [List.foldl_cons,ih,List.countP_cons]
      cases op with
      | push v => simp [apply,Ring.push,isPush,UInt64.ofNat_add,UInt64.add_assoc,add_comm]
      | clear => simp [apply,Ring.clear,isPush]
  exact (step _).trans (UInt64.zero_add _)

/-- After any pushes and clears, the ring shows the last values pushed since the last clear. -/
theorem ring_refines (few : ops.countP isPush < 2^64) :
    Shows (max capacity 1) (kept ops) (run capacity ops) ∧
      (run capacity ops).totalPushed.toNat = ops.countP isPush := by
  refine ⟨?_,?_⟩
  · rw [← capacity_run capacity ops]
    exact shows_represented (represents_run capacity ops)
  · rw [pushed_run,UInt64.toNat_ofNat']
    exact Nat.mod_eq_of_lt few

end
end

theorem ring_refines_wrapped :
    let r := run 2 [.push 1,.push 2,.push 3,.clear,.push 4,.push 5,.push 6]
    r.iterChrono = [5,6] ∧ (r.push 7).2 = some 5 ∧ r.totalPushed.toNat = 6 := by
  obtain ⟨shown,total⟩ := ring_refines 2 [.push 1,.push 2,.push 3,.clear,.push 4,.push 5,.push 6] (by decide)
  exact ⟨shown.iterChrono,shown.evicted 7,total⟩

end Vitals.RingWindow
