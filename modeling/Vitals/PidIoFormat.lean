import Vitals.Semantics.KernelTables
import Vitals.Library.Records

/-! The parser of `/proc/[pid]/io` against the kernel's rendering: every counter is taken from its
own line, in any order and among any other lines. -/
namespace Vitals.PidIoFormat
open Kernel Semantics Text Decimal Records

def setField (io : PidIo) (value : UInt64) : IoKey → PidIo
  | .rchar => {io with rchar := value}
  | .wchar => {io with wchar := value}
  | .readBytes => {io with readBytes := value}
  | .writeBytes => {io with writeBytes := value}

private theorem field_setField (io : PidIo) (value : UInt64) (key other : IoKey) :
    other.field (setField io value key) = if key = other then value else other.field io := by
  cases key <;> cases other <;> rfl

private theorem name_plain (key : IoKey) : ':' ∉ key.name.toList ∧ trim key.name.toList = key.name.toList := by
  cases key <;> decide +kernel

private theorem count_trimmed (padding : Nat) (count : UInt64) :
    trim (List.replicate padding ' ' ++ renderNat count.toNat) = renderNat count.toNat := by
  obtain ⟨first,rest,shape⟩ := List.exists_cons_of_ne_nil (renderNat_ne_nil count.toNat)
  have head : (renderNat count.toNat).head? = some first := by rw [shape]; rfl
  have ordinary : ∀ c ∈ renderNat count.toNat, isWhitespace c = false :=
    fun c member => numeral_not_whitespace (.inl (digit_of_mem_renderNat member))
  exact trim_blanks (fun _ member => blank_of_mem_replicate member) head (ordinary first (by simp [shape]))
    (rdropWhile_ordinary ordinary)

def keys : List IoKey := [.rchar,.wchar,.readBytes,.writeBytes]

private theorem mem_keys (key : IoKey) : key ∈ keys := by cases key <;> decide

private theorem names_distinct : (keys.map (fun key => key.name.toList)).Nodup := by decide

private theorem pidIoLine_eq (io : PidIo) (line : Str) :
    pidIoLine io line = fileLine keys (fun key => key.name.toList)
    (fun io key v => setField io ((parseU64 v).getD 0) key) io line := by
  unfold pidIoLine fileLine
  cases splitOnce ':' line <;> rfl

private theorem pidIoLine_text (io : PidIo) (item : IoLine) (key : IoKey) :
    key.field (pidIoLine io item.text) = (item.count? key).getD (key.field io) := by
  rw [pidIoLine_eq]
  cases item with
  | known k padding count =>
    obtain ⟨unsplit,trimmed⟩ := name_plain k
    rw [IoLine.text,fileLine_named _ _ _ names_distinct (mem_keys k) unsplit trimmed,count_trimmed,parseU64_render,
      Option.getD_some,field_setField,IoLine.count?]
    by_cases same : k = key <;> simp [same]
  | other line =>
    exact congrArg key.field
      (fileLine_other _ _ _ (fun name rest whole unsplit key _ => line.2 name rest whole unsplit key) io)

theorem field_parse {s : Str} {items : List IoLine} (text : lines s = items.map IoLine.text) (key : IoKey) :
    key.field (parsePidIo s) = (items.filterMap (IoLine.count? key)).getLast?.getD 0 := by
  have start : key.field {} = 0 := by cases key <;> rfl
  rw [parsePidIo,text,List.foldl_map,
    foldl_assign (fun (io : PidIo) (item : IoLine) => pidIoLine_text io item key),start]

/-- Each counter is the one its own key stands before, wherever the line is; a missing one is zero.
In particular neither the characters passed to `read` and `write` nor the bytes of cancelled writes
are taken for bytes on disk. -/
theorem pid_io_exact {s : Str} {items : List IoLine} (text : lines s = items.map IoLine.text) :
    (∀ key, key.field (parsePidIo s) = (items.filterMap (IoLine.count? key)).getLast?.getD 0) ∧
    (∀ key padding count, IoLine.known key padding count ∈ items →
      (items.filterMap (IoLine.count? key)).length ≤ 1 → key.field (parsePidIo s) = count) ∧
    ∀ (s' : Str) (items' : List IoLine), lines s' = items'.map IoLine.text → items'.Perm items →
      (∀ key, (items.filterMap (IoLine.count? key)).length ≤ 1) → parsePidIo s' = parsePidIo s := by
  have exact := field_parse text
  have only {l : List UInt64} (few : l.length ≤ 1) {n : UInt64} (member : n ∈ l) : l = [n] := by
    match l,few,member with
    | [_],_,member => rw [List.mem_singleton.mp member]
  refine ⟨exact,?_,?_⟩
  · intro key padding count listed few
    have member : count ∈ items.filterMap (IoLine.count? key) :=
      List.mem_filterMap.mpr ⟨_,listed,by simp [IoLine.count?]⟩
    rw [exact,only few member]
    rfl
  · intro s' items' text' same few
    have fields (key : IoKey) : key.field (parsePidIo s') = key.field (parsePidIo s) := by
      rw [exact,field_parse text']
      have perm := same.filterMap (IoLine.count? key)
      cases shape : items.filterMap (IoLine.count? key) with
      | nil =>
        rw [shape] at perm
        rw [perm.eq_nil]
      | cons n rest =>
        have one := only (few key) (shape ▸ List.mem_cons_self)
        rw [one] at perm shape
        rw [List.perm_singleton.mp perm,← shape]
    have rchar := fields .rchar
    have wchar := fields .wchar
    have readBytes := fields .readBytes
    have writeBytes := fields .writeBytes
    generalize parsePidIo s' = left at *
    generalize parsePidIo s = right at *
    cases left
    cases right
    simp_all [IoKey.field]

def cancelled : {line : Str // OtherIoKey line} := by
  refine ⟨"cancelled_write_bytes: 9".toList,?_⟩
  intro key rest whole unsplit k
  have cut := splitOnce_append rest unsplit
  have read : splitOnce ':' "cancelled_write_bytes: 9".toList = some ("cancelled_write_bytes".toList," 9".toList) := by
    decide +kernel
  rw [← whole,read] at cut
  obtain ⟨rfl,_⟩ := Prod.mk.inj (Option.some.inj cut)
  cases k <;> decide +kernel

theorem pid_io_exact_shuffled :
    (parsePidIo "write_bytes: 5\ncancelled_write_bytes: 9\nrchar: 700\nread_bytes: 4096\n".toList).writeBytes = 5 := by
  have text : lines "write_bytes: 5\ncancelled_write_bytes: 9\nrchar: 700\nread_bytes: 4096\n".toList =
      [IoLine.known .writeBytes 1 5,.other cancelled,.known .rchar 1 700,.known .readBytes 1 4096].map IoLine.text := by
    rw [String.toList_ofList]
    decide +kernel
  exact (pid_io_exact text).2.1 .writeBytes 1 5 (by simp) (by decide)

end Vitals.PidIoFormat
