import Vitals.Semantics.KernelText
import Vitals.Library.Records

/-! The parser of `meminfo` against the kernel's rendering, with the condition under which
a MemAvailable of zero is told from a missing one. -/
namespace Vitals.MeminfoFormat
open Kernel Semantics Text Decimal Word Records

def setField (m : MemInfo) (value : UInt64) : MemKey → MemInfo
  | .total => {m with total := value}
  | .free => {m with free := value}
  | .available => {m with available := value}
  | .buffers => {m with buffers := value}
  | .cached => {m with cached := value}
  | .swapTotal => {m with swapTotal := value}
  | .swapFree => {m with swapFree := value}

private theorem field_setField (m : MemInfo) (value : UInt64) (key other : MemKey) :
    other.field (setField m value key) = if key = other then value else other.field m := by
  cases key <;> cases other <;> rfl

private theorem name_plain (key : MemKey) : ':' ∉ key.name.toList ∧ trim key.name.toList = key.name.toList := by
  cases key <;> decide +kernel

private theorem kb_value (padding : Nat) (kb : UInt64) :
    (splitAsciiWhitespace (trim (List.replicate padding ' ' ++ (renderNat kb.toNat ++ " kB".toList)))).head? =
      some (renderNat kb.toNat) := by
  obtain ⟨first,rest,shape⟩ := List.exists_cons_of_ne_nil (renderNat_ne_nil kb.toNat)
  have head : (renderNat kb.toNat ++ " kB".toList).head? = some first := by rw [shape]; rfl
  have digit : first.isDigit = true := digit_of_mem_renderNat (n := kb.toNat) (by simp [shape])
  have trimmed : (renderNat kb.toNat ++ " kB".toList).rdropWhile isWhitespace = renderNat kb.toNat ++ " kB".toList := by
    apply List.rdropWhile_eq_self_iff.mpr
    intro present
    simp [isWhitespace,isAsciiWhitespace]
  rw [trim_blanks (fun _ member => blank_of_mem_replicate member) head (numeral_not_whitespace (.inl digit)) trimmed]
  have split : splitAsciiWhitespace (renderNat kb.toNat ++ ' ' :: "kB".toList) =
      [renderNat kb.toNat] ++ ["kB".toList] := by
    have number : splitAsciiWhitespace (renderNat kb.toNat) = [renderNat kb.toNat] :=
      split_word (isWord_renderNat kb.toNat)
    have unit : splitAsciiWhitespace "kB".toList = ["kB".toList] := by decide +kernel
    rw [split_append_space _ _ rfl,number,unit]
  exact congrArg List.head? split

def keys : List MemKey := [.total,.free,.available,.buffers,.cached,.swapTotal,.swapFree]

private theorem mem_keys (key : MemKey) : key ∈ keys := by cases key <;> decide

private theorem names_distinct : (keys.map (fun key => key.name.toList)).Nodup := by decide

private theorem meminfoLine_eq (m : MemInfo) (line : Str) : meminfoLine m line =
    fileLine keys (fun key => key.name.toList) (fun m key v =>
      setField m (saturatingMul (((splitAsciiWhitespace v).head?.bind parseU64).getD 0) 1024) key) m line := by
  unfold meminfoLine fileLine
  cases splitOnce ':' line <;> rfl

def record (m : MemInfo) : MemLine → MemInfo
  | .known key _ kb => setField m (saturatingMul kb 1024) key
  | .other _ => m

private theorem meminfoLine_text (m : MemInfo) (item : MemLine) : meminfoLine m item.text = record m item := by
  rw [meminfoLine_eq]
  cases item with
  | known key padding kb =>
    obtain ⟨unsplit,trimmed⟩ := name_plain key
    rw [MemLine.text,fileLine_named _ _ _ names_distinct (mem_keys key) unsplit trimmed,kb_value,Option.bind_some,
      parseU64_render,Option.getD_some,record]
  | other line =>
    exact fileLine_other _ _ _ (fun k rest whole unsplit key _ => line.2 k rest whole unsplit key) m

private theorem field_record (key : MemKey) (m : MemInfo) (item : MemLine) :
    key.field (record m item) = ((item.kb? key).map (fun kb => saturatingMul kb 1024)).getD (key.field m) := by
  cases item with
  | known k padding kb =>
    rw [record,field_setField]
    by_cases same : k = key <;> simp [MemLine.kb?,same]
  | other line => rfl

section
variable {items : List MemLine}

private theorem toNat_field (once : Once items) (fits : ∀ key, bytes items key < 2^64) (key : MemKey) :
    (key.field (items.foldl record {})).toNat = bytes items key := by
  have few := once key
  have small := fits key
  have start : key.field {} = 0 := by cases key <;> rfl
  rw [foldl_assign (field_record key),← List.map_filterMap,start]
  unfold bytes reported at small ⊢
  cases told : items.filterMap (MemLine.kb? key) with
  | nil => rfl
  | cons kb rest =>
    rw [told] at few small
    obtain rfl : rest = [] := by simpa using few
    simp only [List.head?_cons,Option.getD_some] at small
    have value : (saturatingMul kb 1024).toNat = min (kb.toNat*1024) (2^64-1) := toNat_saturatingMul kb 1024
    simp only [List.map_cons,List.map_nil,List.getLast?_singleton,List.head?_cons,Option.getD_some,value]
    omega

variable {s : Str}

private theorem parseMeminfo_text (text : lines s = items.map MemLine.text) :
    parseMeminfo s = (let m := items.foldl record {}
      if m.available = 0 ∧ 0 < m.total then {m with available := m.free + m.buffers + m.cached} else m) := by
  rw [parseMeminfo,text,List.foldl_map]
  simp only [meminfoLine_text]

variable (text : lines s = items.map MemLine.text) (once : Once items) (fits : ∀ key, bytes items key < 2^64)
include text once fits

theorem toNat_field_parse {key : MemKey} (other : key ≠ .available) :
    (key.field (parseMeminfo s)).toNat = bytes items key := by
  have raw := toNat_field once fits key
  rw [parseMeminfo_text text]
  dsimp only
  split_ifs
  · cases key <;> first | exact raw | exact absurd rfl other
  · exact raw

private theorem toNat_available_parse (sum : bytes items .free + bytes items .buffers + bytes items .cached < 2^64) :
    (parseMeminfo s).available.toNat = if bytes items .available = 0 ∧ 0 < bytes items .total then
      bytes items .free + bytes items .buffers + bytes items .cached else bytes items .available := by
  have raw := toNat_field once fits
  have available : (items.foldl record {}).available.toNat = bytes items .available := raw .available
  have total : (items.foldl record {}).total.toNat = bytes items .total := raw .total
  have free : (items.foldl record {}).free.toNat = bytes items .free := raw .free
  have buffers : (items.foldl record {}).buffers.toNat = bytes items .buffers := raw .buffers
  have cached : (items.foldl record {}).cached.toNat = bytes items .cached := raw .cached
  have guard : ((items.foldl record {}).available = 0 ∧ 0 < (items.foldl record {}).total) ↔
      (bytes items .available = 0 ∧ 0 < bytes items .total) := by
    rw [← UInt64.toNat_inj,UInt64.lt_iff_toNat_lt,available,total]
    rfl
  rw [parseMeminfo_text text]
  dsimp only
  simp only [guard]
  split_ifs
  · change ((items.foldl record {}).free + (items.foldl record {}).buffers + (items.foldl record {}).cached).toNat = _
    rw [UInt64.toNat_add,UInt64.toNat_add,free,buffers,cached]
    omega
  · exact available

/-- Unless a zero is taken for a missing line, the kernel's numbers are reported. -/
theorem reports_parse (sum : bytes items .free + bytes items .buffers + bytes items .cached < 2^64)
    (apart : ¬ Overruled items) : Reports items (parseMeminfo s) := by
  have other (key : MemKey) (different : key ≠ .available) := toNat_field_parse text once fits different
  have available := toNat_available_parse text once fits sum
  have total := other .total (by decide)
  have free := other .free (by decide)
  have buffers := other .buffers (by decide)
  have cached := other .cached (by decide)
  have kept : ∀ kb, reported items .available = some kb → (parseMeminfo s).available.toNat = kb.toNat*1024 := by
    intro kb told
    have value : bytes items .available = kb.toNat*1024 := by simp [bytes,told]
    rw [available]
    split_ifs with fallback
    · -- a zero is taken for a missing line, and the estimate agrees with it
      have zero : kb = 0 := UInt64.toNat_inj.mp (by change kb.toNat = 0; omega)
      have nothing : ¬ 0 < bytes items .free + bytes items .buffers + bytes items .cached :=
        fun estimate => apart ⟨zero ▸ told,fallback.2,estimate⟩
      omega
    · exact value
  refine ⟨?_,?_,?_,?_⟩
  · intro key kb told
    by_cases same : key = .available
    · subst same
      exact kept kb told
    · rw [other key same]
      simp [bytes,told]
  · intro key different missing
    apply UInt64.toNat_inj.mp
    rw [other key different]
    simp [bytes,missing]
  · intro missing
    have none : bytes items .available = 0 := by simp [bytes,missing]
    have installed : 0 < (parseMeminfo s).total ↔ 0 < bytes items .total := by
      rw [UInt64.lt_iff_toNat_lt,← total]
      rfl
    simp only [available,none,true_and,installed]
    split_ifs
    · rw [← free,← buffers,← cached]
      rfl
    · rfl
  · intro t a totalTold availableTold ordered
    have whole : bytes items .total = t.toNat*1024 := by simp [bytes,totalTold]
    rw [MemInfo.used,toNat_saturatingSub,kept a availableTold,← whole,← total]
    rfl

end

/-- The kernel's numbers are reported, except where it says that no memory is available
and the estimate says otherwise. -/
theorem meminfo_exact {s : Str} {items : List MemLine} (text : lines s = items.map MemLine.text) (once : Once items)
    (fits : ∀ key, bytes items key < 2^64)
    (sum : bytes items .free + bytes items .buffers + bytes items .cached < 2^64) :
    Reports items (parseMeminfo s) ↔ ¬ (reported items .available = some 0 ∧ 0 < bytes items .total ∧
      0 < bytes items .free + bytes items .buffers + bytes items .cached) := by
  refine ⟨?_,reports_parse text once fits sum⟩
  intro reports crossed
  obtain ⟨zero,installed,estimate⟩ := crossed
  have none : bytes items .available = 0 := by simp [bytes,zero]
  have claimed : (parseMeminfo s).available.toNat = 0 := reports.present .available 0 zero
  rw [toNat_available_parse text once fits sum,if_pos ⟨none,installed⟩] at claimed
  omega

def swapCached : {line : Str // OtherKey line} := by
  refine ⟨"SwapCached:  3 kB".toList,?_⟩
  intro key rest whole unsplit k
  have cut := splitOnce_append rest unsplit
  have read : splitOnce ':' "SwapCached:  3 kB".toList = some ("SwapCached".toList,"  3 kB".toList) := by decide +kernel
  rw [← whole,read] at cut
  obtain ⟨rfl,_⟩ := Prod.mk.inj (Option.some.inj cut)
  cases k <;> decide +kernel

def olderKernel : List MemLine :=
  [.known .total 1 1000,.other swapCached,.known .cached 1 200,.known .free 1 100,.known .buffers 1 50]

theorem meminfo_exact_older : Reports olderKernel (parseMeminfo
    "MemTotal: 1000 kB\nSwapCached:  3 kB\nCached: 200 kB\nMemFree: 100 kB\nBuffers: 50 kB\n".toList) := by
  have once : Once olderKernel := by
    intro key
    cases key <;> decide
  have fits : ∀ key, bytes olderKernel key < 2^64 := by
    intro key
    cases key <;> decide
  have text : lines "MemTotal: 1000 kB\nSwapCached:  3 kB\nCached: 200 kB\nMemFree: 100 kB\nBuffers: 50 kB\n".toList =
      olderKernel.map MemLine.text := by
    rw [String.toList_ofList]
    decide +kernel
  exact (meminfo_exact text once fits (by decide)).mpr (by decide)

def exhausted : List MemLine :=
  [.known .total 7 1000,.known .free 10 50,.known .available 4 0,.known .buffers 7 20,.known .cached 8 500]

def exhaustedText : Str :=
  "MemTotal:       1000 kB\nMemFree:          50 kB\nMemAvailable:    0 kB\nBuffers:       20 kB\nCached:        500 kB\n".toList

/-- The kernel says that nothing is available, and 570 kB are reported. -/
theorem meminfo_overruled : lines exhaustedText = exhausted.map MemLine.text ∧ Once exhausted ∧
    (∀ key, bytes exhausted key < 2^64) ∧
    bytes exhausted .free + bytes exhausted .buffers + bytes exhausted .cached < 2^64 ∧
    ¬ Reports exhausted (parseMeminfo exhaustedText) := by
  have text : lines exhaustedText = exhausted.map MemLine.text := by
    have characters : exhaustedText = _ := String.toList_ofList
    rw [characters]
    decide +kernel
  refine ⟨text,?_,?_,by decide,?_⟩
  · intro key
    cases key <;> decide
  · intro key
    cases key <;> decide
  · intro reports
    have claims (m : MemInfo) (reports : Reports exhausted m) : m.available.toNat = 0 := reports.present .available 0 rfl
    have claimed := claims _ reports
    have shown : (parseMeminfo exhaustedText).available.toNat = 570*1024 := by
      rw [parseMeminfo_text text]
      decide
    omega

end Vitals.MeminfoFormat
