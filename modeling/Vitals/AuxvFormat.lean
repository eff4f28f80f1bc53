import Vitals.Semantics.KernelTables
import Vitals.Library.Records

/-! The reader of the auxiliary vector against the kernel's bytes, and the constants that are made
of it. -/
namespace Vitals.AuxvFormat
open Kernel Semantics Bytes

private theorem toNat_fromNeBytes (bytes : List UInt8) : (fromNeBytes bytes).toNat = value bytes % 2^64 := by
  induction bytes with
  | nil => rfl
  | cons byte bytes ih =>
    have step : fromNeBytes (byte :: bytes) = fromNeBytes bytes*256 + byte.toUInt64 := rfl
    have whole : value (byte :: bytes) = byte.toNat + 256*value bytes := rfl
    have scale : (256 : UInt64).toNat = 256 := rfl
    rw [step,whole,UInt64.toNat_add,UInt64.toNat_mul,ih,scale,UInt8.toNat_toUInt64]
    omega

private theorem fromNeBytes_word (n : UInt64) : fromNeBytes (littleEndian 8 n.toNat) = n := by
  rw [← UInt64.toNat_inj,toNat_fromNeBytes,value_littleEndian]
  have small := n.toNat_lt
  omega

private theorem length_entry (e : UInt64 × UInt64) : (auxvEntry e).length = 16 := by
  rw [auxvEntry,List.length_append,length_littleEndian,length_littleEndian]

private theorem entry_parts (e : UInt64 × UInt64) :
    fromNeBytes ((auxvEntry e).take 8) = e.1 ∧ fromNeBytes ((auxvEntry e).drop 8) = e.2 := by
  rw [auxvEntry,List.take_left' (length_littleEndian 8 _),List.drop_left' (length_littleEndian 8 _)]
  exact ⟨fromNeBytes_word e.1,fromNeBytes_word e.2⟩

def pieces (bytes : List UInt8) : List (List UInt8) := (bytes.toChunks 16).filter (fun pair => pair.length = 16)

private theorem pieces_entry (e : UInt64 × UInt64) (rest : List UInt8) :
    pieces (auxvEntry e ++ rest) = auxvEntry e :: pieces rest := by
  have full := length_entry e
  have some_ : auxvEntry e ≠ [] := by
    intro none_
    rw [none_] at full
    cases full
  rw [pieces,toChunks_append full some_,List.filter_cons_of_pos (by simpa using full),pieces]

private theorem says_cons (e : UInt64 × UInt64) (entries : List (UInt64 × UInt64)) (key : UInt64) :
    auxvSays (e :: entries) key = (auxvSays entries key).or (if e.1 = key then some e.2 else none) := by
  unfold auxvSays
  by_cases same : e.1 = key
  · rw [List.filterMap_cons_some (by rw [if_pos same]),if_pos same,List.getLast?_cons]
    cases (entries.filterMap (fun e => if e.1 = key then some e.2 else none)).getLast? <;> rfl
  · rw [List.filterMap_cons_none (by rw [if_neg same]),if_neg same,Option.or_none]

private theorem go_end {tail : List UInt8} (ended : AuxvEnd tail) (clk page : Option UInt64) :
    parseAuxv.go (pieces tail) clk page = (clk,page) := by
  cases ended with
  | cut _ short =>
    have none_ : pieces tail = [] := by
      rw [pieces,List.filter_eq_nil_iff]
      intro piece member
      have few := toChunks_short short piece member
      simpa using Nat.ne_of_lt few
    rw [none_]
    rfl
  | null v rest =>
    rw [pieces_entry,parseAuxv.go,(entry_parts (0,v)).1]
    rfl

/-- The two fields of the accumulator hold what the entries so far said last. -/
theorem go_entries {tail : List UInt8} (ended : AuxvEnd tail) (entries : List (UInt64 × UInt64))
    (live : ∀ e ∈ entries, e.1 ≠ atNull) (clk page : Option UInt64) :
    parseAuxv.go (pieces (entries.flatMap auxvEntry ++ tail)) clk page =
      ((auxvSays entries atClktck).or clk,(auxvSays entries atPagesz).or page) := by
  induction entries generalizing clk page with
  | nil => exact go_end ended clk page
  | cons e entries ih =>
    obtain ⟨first,later⟩ := List.forall_mem_cons.mp live
    obtain ⟨key,word⟩ := entry_parts e
    rw [List.flatMap_cons,List.append_assoc,pieces_entry,parseAuxv.go,key,word,if_neg first,says_cons,says_cons,
      Option.or_assoc,Option.or_assoc]
    by_cases clock : e.1 = atClktck
    · have other : ¬ e.1 = atPagesz := by
        rw [clock]
        decide
      rw [if_pos clock,if_pos clock,if_neg other,ih later]
      rfl
    · by_cases size : e.1 = atPagesz
      · rw [if_neg clock,if_pos size,if_neg clock,if_pos size,ih later]
        rfl
      · rw [if_neg clock,if_neg size,if_neg clock,if_neg size,ih later]
        rfl

/-- Whatever the kernel puts into the vector around them, both constants are what it says under
their keys; only a missing one, or a zero, gives way to the default. -/
theorem auxv_exact (entries : List (UInt64 × UInt64)) (live : ∀ e ∈ entries, e.1 ≠ atNull) {tail : List UInt8}
    (ended : AuxvEnd tail) (stat : Option Text.Str) :
    let auxv := entries.flatMap auxvEntry ++ tail
    parseAuxv auxv = (auxvSays entries atClktck,auxvSays entries atPagesz) ∧
    (∀ v, auxvSays entries atClktck = some v → v ≠ 0 → (sysConst (some auxv) stat).clkTck = v) ∧
    (∀ v, auxvSays entries atPagesz = some v → v ≠ 0 → (sysConst (some auxv) stat).pageSize = v) ∧
    (auxvSays entries atClktck = none ∨ auxvSays entries atClktck = some 0 →
      (sysConst (some auxv) stat).clkTck = 100) ∧
    (auxvSays entries atPagesz = none ∨ auxvSays entries atPagesz = some 0 →
      (sysConst (some auxv) stat).pageSize = 4096) := by
  intro auxv
  have read : parseAuxv auxv = (auxvSays entries atClktck,auxvSays entries atPagesz) := by
    have done := go_entries ended entries live none none
    rw [Option.or_none,Option.or_none] at done
    exact done
  have positive {v : UInt64} (nonzero : v ≠ 0) : decide (0 < v) = true := by
    rw [decide_eq_true_eq,UInt64.lt_iff_toNat_lt]
    exact Word.toNat_pos nonzero
  refine ⟨read,?_,?_,?_,?_⟩
  · intro v said nonzero
    simp [sysConst,read,said,Option.filter,positive nonzero]
  · intro v said nonzero
    simp [sysConst,read,said,Option.filter,positive nonzero]
  · intro missing
    rcases missing with said | said <;> simp [sysConst,read,said,Option.filter]
  · intro missing
    rcases missing with said | said <;> simp [sysConst,read,said,Option.filter]

theorem auxv_exact_large :
    (sysConst (some ([(3,0x400040),(atPagesz,16384),(atClktck,250),(25,7)].flatMap auxvEntry ++
      (auxvEntry (0,0) ++ [1,2,3]))) none).pageSize = 16384 := by
  have live : ∀ e ∈ ([(3,0x400040),(atPagesz,16384),(atClktck,250),(25,7)] : List (UInt64 × UInt64)), e.1 ≠ atNull := by
    simp [atNull,atPagesz,atClktck]
  exact (auxv_exact _ live (.null 0 [1,2,3]) none).2.2.1 16384 (by decide) (by decide)

end Vitals.AuxvFormat
