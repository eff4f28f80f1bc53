import Vitals.Semantics.KernelText
import Vitals.Library.Records

/-! The parser of the system's `stat`: line by line against the kernel's rendering, and
against the other reader of the same lines. -/
namespace Vitals.StatFormat
open Kernel Semantics Text Decimal Records

/-- What a line adds to the cores: its index, and its times. -/
def coreLine (line : Str) : Option (Nat × CpuTimes) :=
  match stripPrefix "cpu".toList line with
  | none => none
  | some rest =>
    if (rest.head?.map Char.isDigit).getD false then
      some ((digits (rest.takeWhile Char.isDigit)).getD 0,parseCpuLine (rest.dropWhile Char.isDigit))
    else none

private theorem digit_not_space {c : Char} (digit : c.isDigit = true) : isAsciiWhitespace c = false :=
  numeral_not_ascii_whitespace (.inl digit)

/-- Every line, however it is written, extends the cores by what it adds. -/
theorem statLine_perCpu (out : StatFile) (line : Str) :
    (statLine out line).perCpu = out.perCpu ++ ((coreLine line).map Prod.snd).toList := by
  unfold statLine coreLine
  cases stripPrefix "cpu".toList line with
  | none =>
    simp only
    split <;> try simp
    split <;> try simp
    split <;> simp
  | some rest =>
    cases rest with
    | nil => simp
    | cons c rest =>
      cases digit : c.isDigit with
      | false => by_cases space : isAsciiWhitespace c <;> simp [digit,space]
      | true => simp [digit,digit_not_space digit]

def coreLines (s : Str) : List (Nat × CpuTimes) := (lines s).filterMap coreLine

theorem perCpu_eq (s : Str) : (parseProcStat s).perCpu = (coreLines s).map Prod.snd := by
  have collected := foldl_collect statLine_perCpu (lines s) {}
  rw [parseProcStat,collected,coreLines,List.map_filterMap]
  rfl

private theorem counted_iff (line : Str) :
    (((stripPrefix "cpu".toList line).bind List.head?).map Char.isDigit).getD false = (coreLine line).isSome := by
  unfold coreLine
  cases stripPrefix "cpu".toList line with
  | none => rfl
  | some rest =>
    simp only [Option.bind_some]
    split_ifs with digit
    · simp [digit]
    · simpa using digit

/-- Both readers take the same lines for core lines. -/
theorem countCpus_eq (s : Str) : countCpus s = max 1 (parseProcStat s).perCpu.length := by
  rw [countCpus,perCpu_eq,List.length_map,coreLines,List.length_filterMap_eq_countP,List.countP_eq_length_filter,
    max_comm]
  simp only [counted_iff]

theorem split_numbers (columns : List UInt64) :
    splitAsciiWhitespace (spaced columns) = columns.map (fun n => renderNat n.toNat) := by
  have words : ∀ w ∈ columns.map (fun n => renderNat n.toNat), IsWord w := by
    intro w member
    obtain ⟨n,_,rfl⟩ := List.mem_map.mp member
    exact isWord_renderNat n.toNat
  have split := split_spaced _ words
  rwa [List.flatMap_map] at split

private theorem padded (columns : List UInt64) :
    (columns ++ List.replicate 10 0).take 10 = (List.range 10).map (fun i => columns.getD i 0) := by
  apply List.ext_getElem?
  intro i
  by_cases small : i < 10
  · rw [List.getElem?_take_of_lt small,List.getElem?_map,List.getElem?_range small,Option.map_some]
    by_cases inside : i < columns.length
    · rw [List.getElem?_append_left inside]
      simp [inside]
    · have outside : columns.length ≤ i := by omega
      have within : i-columns.length < 10 := by omega
      rw [List.getElem?_append_right outside,List.getElem?_replicate,if_pos within]
      simp [outside]
  · simp [small]

private theorem columnsOf_parseCpuLine {rest : Str} {columns : List UInt64}
    (split : splitAsciiWhitespace rest = columns.map (fun n => renderNat n.toNat)) :
    columnsOf (parseCpuLine rest) = (columns ++ List.replicate 10 0).take 10 := by
  have numbers : (splitAsciiWhitespace rest).map (fun t => (parseU64 t).getD 0) = columns := by
    rw [split,parse_rendered]
  rw [padded,parseCpuLine,numbers]
  rfl

private theorem columnsOf_injective {a b : CpuTimes} (same : columnsOf a = columnsOf b) : a = b := by
  cases a
  cases b
  simpa [columnsOf] using same

private theorem trim_renderNat (n : Nat) : trim (renderNat n) = renderNat n :=
  trim_ordinary (fun _ member => numeral_not_whitespace (.inl (digit_of_mem_renderNat member)))

private theorem statLine_cpu (out : StatFile) (columns : List UInt64) :
    statLine out (StatLine.cpu columns).text = {out with total := parseCpuLine (' ' :: spaced columns)} := by
  have found : stripPrefix "cpu".toList (StatLine.cpu columns).text = some (' ' :: spaced columns) :=
    stripPrefix_append _ _
  unfold statLine
  rw [found]
  rfl

private theorem core_found (index : Nat) (columns : List UInt64) :
    stripPrefix "cpu".toList (StatLine.core index columns).text = some (renderNat index ++ spaced columns) :=
  stripPrefix_append _ _

private theorem core_head (index : Nat) (rest : Str) :
    ∃ c, (renderNat index ++ rest).head? = some c ∧ c.isDigit = true := by
  obtain ⟨first,later,shape⟩ := List.exists_cons_of_ne_nil (renderNat_ne_nil index)
  exact ⟨first,by rw [shape]; rfl,digit_of_mem_renderNat (n := index) (by simp [shape])⟩

/-- The index ends at the space before the first column. -/
theorem core_boundary (index : Nat) (columns : List UInt64) :
    (renderNat index ++ spaced columns).takeWhile Char.isDigit = renderNat index ∧
      (renderNat index ++ spaced columns).dropWhile Char.isDigit = spaced columns := by
  apply span_append (fun _ member => digit_of_mem_renderNat member)
  intro c head
  cases columns with
  | nil => cases head
  | cons n columns =>
    obtain rfl := Option.some.inj head
    rfl

private theorem coreLine_core (index : Nat) (columns : List UInt64) :
    coreLine (StatLine.core index columns).text = some (index,parseCpuLine (spaced columns)) := by
  obtain ⟨c,head,digit⟩ := core_head index (spaced columns)
  have boundary := core_boundary index columns
  unfold coreLine
  rw [core_found]
  simp only [head,Option.map_some,Option.getD_some,digit,if_true,boundary,digits_renderNat]

private theorem statLine_core (out : StatFile) (index : Nat) (columns : List UInt64) :
    statLine out (StatLine.core index columns).text =
      {out with perCpu := out.perCpu ++ [parseCpuLine (spaced columns)]} := by
  obtain ⟨c,head,digit⟩ := core_head index (spaced columns)
  have boundary := core_boundary index columns
  unfold statLine
  rw [core_found]
  simp only [head,digit_not_space digit,Bool.false_eq_true,if_false,digit,if_true,boundary]

/-- No line but a core line counts as one. -/
theorem coreLine_text (item : StatLine) :
    coreLine item.text = item.core?.map (fun core => (core.1,parseCpuLine (spaced core.2))) := by
  have apart {head : Str} (short : "cpu".toList.length ≤ head.length) (absent : ¬ "cpu".toList <+: head) (rest : Str) :
      coreLine (head ++ rest) = none := by
    rw [coreLine,stripPrefix_apart short absent]
  cases item with
  | cpu columns =>
    have found : stripPrefix "cpu".toList (StatLine.cpu columns).text = some (' ' :: spaced columns) :=
      stripPrefix_append _ _
    unfold coreLine
    rw [found]
    rfl
  | core index columns => exact coreLine_core index columns
  | ctxt n => exact apart (by decide) (by decide) _
  | procsRunning n => exact apart (by decide) (by decide) _
  | procsBlocked n => exact apart (by decide) (by decide) _
  | other line =>
    change coreLine line.1 = none
    unfold coreLine
    cases found : stripPrefix "cpu".toList line.1 with
    | none => rfl
    | some rest =>
      cases rest with
      | nil => rfl
      | cons c rest => simp [(line.2.cpu c rest ((stripPrefix_eq_some _ _ _).mp found)).2]

theorem coreLines_text {s : Str} {items : List StatLine} (text : lines s = items.map StatLine.text) :
    coreLines s = (items.filterMap StatLine.core?).map (fun core => (core.1,parseCpuLine (spaced core.2))) := by
  rw [coreLines,text,List.filterMap_map,List.map_filterMap]
  exact List.filterMap_congr (fun item _ => coreLine_text item)

private theorem statLine_ctxt (out : StatFile) (n : UInt64) :
    statLine out (StatLine.ctxt n).text = {out with ctxt := n} := by
  have cpu : stripPrefix "cpu".toList (StatLine.ctxt n).text = none :=
    stripPrefix_apart (by decide) (by decide) _
  have found : stripPrefix "ctxt ".toList (StatLine.ctxt n).text = some (renderNat n.toNat) :=
    stripPrefix_append _ _
  unfold statLine
  rw [cpu,found]
  simp only [trim_renderNat,parseU64_render,Option.getD_some]

private theorem statLine_procsRunning (out : StatFile) (n : UInt64) :
    statLine out (StatLine.procsRunning n).text = {out with procsRunning := n} := by
  have cpu : stripPrefix "cpu".toList (StatLine.procsRunning n).text = none :=
    stripPrefix_apart (by decide) (by decide) _
  have ctxt : stripPrefix "ctxt ".toList (StatLine.procsRunning n).text = none :=
    stripPrefix_apart (by decide) (by decide) _
  have found : stripPrefix "procs_running ".toList (StatLine.procsRunning n).text = some (renderNat n.toNat) :=
    stripPrefix_append _ _
  unfold statLine
  rw [cpu,ctxt,found]
  simp only [trim_renderNat,parseU64_render,Option.getD_some]

private theorem statLine_procsBlocked (out : StatFile) (n : UInt64) :
    statLine out (StatLine.procsBlocked n).text = {out with procsBlocked := n} := by
  have cpu : stripPrefix "cpu".toList (StatLine.procsBlocked n).text = none :=
    stripPrefix_apart (by decide) (by decide) _
  have ctxt : stripPrefix "ctxt ".toList (StatLine.procsBlocked n).text = none :=
    stripPrefix_apart (by decide) (by decide) _
  have running : stripPrefix "procs_running ".toList (StatLine.procsBlocked n).text = none :=
    stripPrefix_apart (by decide) (by decide) _
  have found : stripPrefix "procs_blocked ".toList (StatLine.procsBlocked n).text = some (renderNat n.toNat) :=
    stripPrefix_append _ _
  unfold statLine
  rw [cpu,ctxt,running,found]
  simp only [trim_renderNat,parseU64_render,Option.getD_some]

private theorem statLine_other (out : StatFile) {line : Str} (foreign : Foreign line) : statLine out line = out := by
  unfold statLine
  cases found : stripPrefix "cpu".toList line with
  | none =>
    rw [stripPrefix_none foreign.ctxt,stripPrefix_none foreign.procsRunning,stripPrefix_none foreign.procsBlocked]
  | some rest =>
    cases rest with
    | nil => rfl
    | cons c rest =>
      obtain ⟨space,digit⟩ := foreign.cpu c rest ((stripPrefix_eq_some _ _ _).mp found)
      simp [space,digit]

private theorem renderNat_unbroken (n : Nat) : ∀ c ∈ renderNat n, c ≠ '\n' ∧ c ≠ '\r' := by
  intro c member
  have numeral : IsNumeral c := .inl (digit_of_mem_renderNat member)
  exact ⟨numeral_ne numeral (by decide) (by decide),numeral_ne numeral (by decide) (by decide)⟩

private theorem spaced_unbroken (columns : List UInt64) : ∀ c ∈ spaced columns, c ≠ '\n' ∧ c ≠ '\r' := by
  intro c member
  obtain ⟨n,_,inside⟩ := List.mem_flatMap.mp member
  rcases List.mem_cons.mp inside with rfl | digit
  · decide
  · exact renderNat_unbroken n.toNat c digit

/-- The lines that are read can stand in a text. -/
theorem text_unbroken {item : StatLine} (own : ∀ line, item ≠ .other line) : ∀ c ∈ item.text, c ≠ '\n' ∧ c ≠ '\r' := by
  have label {name rest : Str} (fixed : name.all (fun c => c ≠ '\n' ∧ c ≠ '\r') = true) (after : ∀ c ∈ rest, c ≠ '\n' ∧ c ≠ '\r') :
      ∀ c ∈ name ++ rest, c ≠ '\n' ∧ c ≠ '\r' := by
    intro c member
    rcases List.mem_append.mp member with first | second
    · exact of_decide_eq_true (List.all_eq_true.mp fixed c first)
    · exact after c second
  cases item with
  | cpu columns => exact label (by decide +kernel) (List.forall_mem_cons.mpr ⟨by decide,spaced_unbroken columns⟩)
  | core index columns =>
    apply label (by decide +kernel)
    exact List.forall_mem_append.mpr ⟨renderNat_unbroken index,spaced_unbroken columns⟩
  | ctxt n => exact label (by decide +kernel) (renderNat_unbroken n.toNat)
  | procsRunning n => exact label (by decide +kernel) (renderNat_unbroken n.toNat)
  | procsBlocked n => exact label (by decide +kernel) (renderNat_unbroken n.toNat)
  | other line => exact absurd rfl (own line)

/-- What each line of the kernel's rendering does to the record. -/
def record (out : StatFile) : StatLine → StatFile
  | .cpu columns => {out with total := parseCpuLine (' ' :: spaced columns)}
  | .core _ columns => {out with perCpu := out.perCpu ++ [parseCpuLine (spaced columns)]}
  | .ctxt n => {out with ctxt := n}
  | .procsRunning n => {out with procsRunning := n}
  | .procsBlocked n => {out with procsBlocked := n}
  | .other _ => out

private theorem statLine_text (out : StatFile) (item : StatLine) : statLine out item.text = record out item := by
  cases item with
  | cpu columns => exact statLine_cpu out columns
  | core index columns => exact statLine_core out index columns
  | ctxt n => exact statLine_ctxt out n
  | procsRunning n => exact statLine_procsRunning out n
  | procsBlocked n => exact statLine_procsBlocked out n
  | other line => exact statLine_other out line.2

private theorem parseProcStat_text {s : Str} {items : List StatLine} (text : lines s = items.map StatLine.text) :
    parseProcStat s = items.foldl record {} := by
  rw [parseProcStat,text,List.foldl_map]
  simp only [statLine_text]

theorem parseCpuLine_shown {rest : Str} {columns : List UInt64} {c : CpuTimes}
    (split : splitAsciiWhitespace rest = columns.map (fun n => renderNat n.toNat)) (shown : Shows columns c) :
    parseCpuLine rest = c :=
  columnsOf_injective ((columnsOf_parseCpuLine split).trans shown.symm)

private theorem aggregate_shown {columns : List UInt64} {c : CpuTimes} (shown : Shows columns c) :
    parseCpuLine (' ' :: spaced columns) = c :=
  parseCpuLine_shown ((split_append_space [] _ rfl).trans (split_numbers columns)) shown

private theorem cores_shown {cores : List (Nat × List UInt64)} {perCpu : List CpuTimes}
    (shown : List.Forall₂ (fun core c => Shows core.2 c) cores perCpu) :
    cores.map (fun core => parseCpuLine (spaced core.2)) = perCpu := by
  induction shown with
  | nil => rfl
  | cons first _ ih => rw [List.map_cons,ih,parseCpuLine_shown (split_numbers _) first]

theorem parseProcStat_described {s : Str} {items : List StatLine} {stat : StatFile}
    (text : lines s = items.map StatLine.text) (describes : Describes items stat) : parseProcStat s = stat := by
  obtain ⟨columns,single,shown⟩ := describes.total
  have readTotal (out : StatFile) (item : StatLine) : (record out item).total =
      (item.cpu?.map (fun columns => parseCpuLine (' ' :: spaced columns))).getD out.total := by
    cases item <;> rfl
  have readCores (out : StatFile) (item : StatLine) : (record out item).perCpu =
      out.perCpu ++ (item.core?.map (fun core => parseCpuLine (spaced core.2))).toList := by
    cases item <;> simp [record,StatLine.core?]
  have readCtxt (out : StatFile) (item : StatLine) : (record out item).ctxt = item.ctxt?.getD out.ctxt := by
    cases item <;> rfl
  have readRunning (out : StatFile) (item : StatLine) :
      (record out item).procsRunning = item.procsRunning?.getD out.procsRunning := by
    cases item <;> rfl
  have readBlocked (out : StatFile) (item : StatLine) :
      (record out item).procsBlocked = item.procsBlocked?.getD out.procsBlocked := by
    cases item <;> rfl
  have total : (items.foldl record {}).total = stat.total := by
    apply foldl_single readTotal
    rw [← List.map_filterMap,single,List.map_singleton,aggregate_shown shown]
  have perCpu : (items.foldl record {}).perCpu = stat.perCpu := by
    rw [foldl_collect readCores,← List.map_filterMap]
    exact cores_shown describes.perCpu
  have ctxt := foldl_single readCtxt describes.ctxt {}
  have running := foldl_single readRunning describes.procsRunning {}
  have blocked := foldl_single readBlocked describes.procsBlocked {}
  rw [parseProcStat_text text]
  cases stat
  cases shape : items.foldl record {}
  simp_all

/-- The parser inverts the kernel's rendering, whatever the order of the lines and whatever
stands between them; and on every text the two readers count the same cores. -/
theorem parseProcStat_exact (s : Str) :
    (∀ items stat, lines s = items.map StatLine.text → Describes items stat → parseProcStat s = stat) ∧
    countCpus s = max 1 (parseProcStat s).perCpu.length := by
  refine ⟨?_,countCpus_eq s⟩
  intro items stat text describes
  exact parseProcStat_described text describes

def intr : {line : Str // Foreign line} :=
  ⟨"intr 5 0 0".toList,⟨by simp,by simp,by simp,by simp⟩⟩

theorem parseProcStat_exact_sparse :
    parseProcStat "cpu  5 6 7\ncpu2 1 2\nintr 5 0 0\nprocs_running 3\ncpu10 4\nctxt 987654\nprocs_blocked 1".toList =
      ⟨⟨5,6,7,0,0,0,0,0,0,0⟩,[⟨1,2,0,0,0,0,0,0,0,0⟩,⟨4,0,0,0,0,0,0,0,0,0⟩],987654,3,1⟩ :=
  (parseProcStat_exact _).1 [.cpu [5,6,7],.core 2 [1,2],.other intr,.procsRunning 3,.core 10 [4],.ctxt 987654,
    .procsBlocked 1] _ (by decide +kernel)
    ⟨⟨[5,6,7],rfl,rfl⟩,.cons rfl (.cons rfl .nil),rfl,rfl,rfl⟩

end Vitals.StatFormat
