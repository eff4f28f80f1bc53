import Vitals.HumanBytes
import Vitals.Sparkline

/-! The terminal view as lines: where the parts stand, how many lines they take, and what the
row of a process can be read back from. -/
namespace Vitals.ScreenText
open Kernel Text Decimal Display HumanBytes

/-- Without the characters that end a line. -/
def Unbroken (s : Str) : Prop := ∀ c ∈ s, c ≠ '\n' ∧ c ≠ '\r'

private theorem unbroken_append {s t : Str} (left : Unbroken s) (right : Unbroken t) : Unbroken (s ++ t) :=
  List.forall_mem_append.mpr ⟨left,right⟩

private theorem unbroken_cons {c : Char} {s : Str} (first : c ≠ '\n' ∧ c ≠ '\r') (rest : Unbroken s) :
    Unbroken (c :: s) :=
  List.forall_mem_cons.mpr ⟨first,rest⟩

private theorem unbroken_all {s : Str} (all : s.all (fun c => c != '\n' && c != '\r') = true) : Unbroken s := by
  intro c member
  simpa using List.all_eq_true.mp all c member

private theorem unbroken_word {w : Str} (word : IsWord w) : Unbroken w := by
  intro c member
  have solid := word.2 c member
  refine ⟨?_,?_⟩
  · rintro rfl
    cases solid
  · rintro rfl
    cases solid

private theorem unbroken_blanks (n : Nat) : Unbroken (List.replicate n ' ') := by
  intro c member
  rw [(List.mem_replicate.mp member).2]
  decide

private theorem unbroken_padLeft (width : Nat) {s : Str} (plain : Unbroken s) : Unbroken (padLeft width s) :=
  unbroken_append (unbroken_blanks _) plain

private theorem unbroken_padRight (width : Nat) {s : Str} (plain : Unbroken s) : Unbroken (padRight width s) :=
  unbroken_append plain (unbroken_blanks _)

private theorem unbroken_nat (n : Nat) : Unbroken (renderNat n) := unbroken_word (isWord_renderNat n)

private theorem unbroken_decimals (digits : Nat) (x : F64) : Unbroken (decimals digits x) :=
  unbroken_word (isWord_decimals digits x)

private theorem isWord_append {v w : Str} (left : IsWord v) (right : IsWord w) : IsWord (v ++ w) :=
  ⟨List.append_ne_nil_of_left_ne_nil left.1 w,List.forall_mem_append.mpr ⟨left.2,right.2⟩⟩

section
variable (R : Rounding)

private theorem isWord_unit (k : Nat) : IsWord [byteUnits.getD k 'B'] := by
  have all : ∀ k < 6, isAsciiWhitespace (byteUnits.getD k 'B') = false := by decide
  refine ⟨List.cons_ne_nil _ _,?_⟩
  intro c member
  rw [List.mem_singleton.mp member]
  by_cases within : k < 6
  · exact all k within
  · rw [List.getD,List.getElem?_eq_none (not_lt.mp within)]
    decide

private theorem isWord_humanBytes (n : UInt64) : IsWord (humanBytes R n) := by
  unfold humanBytes
  dsimp only
  split_ifs
  · exact isWord_append (isWord_renderNat _) (isWord_unit 0)
  · exact isWord_append (isWord_decimals _ _) (isWord_unit _)
  · exact isWord_append (isWord_decimals _ _) (isWord_unit _)

private theorem isWord_humanRate (x : F64) : IsWord (humanRate R x) := by
  unfold humanRate
  split_ifs
  · exact isWord_of_all (by decide)
  · exact isWord_append (isWord_humanBytes R _) (isWord_of_all (by decide))

private theorem isWord_rate (x : Option F64) : IsWord ((x.map (humanRate R)).getD "n/a".toList) := by
  have missing : IsWord "n/a".toList := isWord_of_all (by decide)
  cases x with
  | none => exact missing
  | some x => exact isWord_humanRate R x

private theorem isWord_rowCells (p : ProcRate) : ∀ cell ∈ rowCells R p, IsWord cell := by
  intro cell member
  simp only [rowCells,List.mem_cons,List.not_mem_nil,or_false] at member
  rcases member with rfl | rfl | rfl | rfl | rfl | rfl | rfl
  · exact isWord_renderInt _
  · exact isWord_renderInt _
  · exact isWord_decimals _ _
  · exact isWord_humanBytes R _
  · exact isWord_renderInt _
  · exact isWord_rate R _
  · exact isWord_rate R _

end

private theorem split_cells (pairs : List (Nat × Str)) (words : ∀ e ∈ pairs, IsWord e.2) (rest : Str) :
    splitAsciiWhitespace (pairs.flatMap (fun e => padLeft e.1 e.2 ++ [' ']) ++ rest) =
      pairs.map Prod.snd ++ splitAsciiWhitespace rest := by
  induction pairs with
  | nil => rfl
  | cons e pairs ih =>
    have later := ih (fun f member => words f (by simp [member]))
    have skipped (s : Str) : splitAsciiWhitespace (' ' :: s) = splitAsciiWhitespace s := split_append_space [] s rfl
    have apart (s : Str) (c : Char) (head : (' ' :: s).head? = some c) : isAsciiWhitespace c = true := by
      obtain rfl := Option.some.inj head
      rfl
    rw [List.flatMap_cons,List.append_assoc,List.append_assoc,List.singleton_append,
      split_padLeft _ (words e (by simp)) (apart _),skipped,later]
    rfl

private theorem split_tableLine {cells : List Str} (command : Str) (words : ∀ cell ∈ cells, IsWord cell)
    (few : cells.length ≤ columns.length) :
    splitAsciiWhitespace (tableLine cells command) = cells ++ splitAsciiWhitespace command := by
  have each : ∀ e ∈ columns.zip cells, IsWord e.2 := fun e member => words e.2 (List.of_mem_zip member).2
  have skipped : splitAsciiWhitespace (' ' :: command) = splitAsciiWhitespace command := split_append_space [] command rfl
  rw [tableLine,split_cells _ each,List.map_snd_zip few,skipped]

private theorem length_cells {widths : List Nat} {cells : List Str}
    (fit : List.Forall₂ (fun w c => c.length ≤ w) widths cells) :
    ((widths.zip cells).flatMap (fun e => padLeft e.1 e.2 ++ [' '])).length = (widths.map (· + 1)).sum := by
  induction fit with
  | nil => rfl
  | cons first rest ih =>
    rw [List.zip_cons_cons,List.flatMap_cons,List.length_append,ih,List.length_append,length_padLeft,max_eq_left first,
      List.map_cons,List.sum_cons]
    rfl

private theorem drop_tableLine {cells : List Str} (command : Str)
    (fit : List.Forall₂ (fun w c => c.length ≤ w) columns cells) :
    (tableLine cells command).drop 60 = command := by
  have length := length_cells fit
  have total : (columns.map (· + 1)).sum = 59 := rfl
  rw [total] at length
  have front : ((columns.zip cells).flatMap (fun e => padLeft e.1 e.2 ++ [' ']) ++ [' ']).length = 60 := by
    rw [List.length_append,length]
    rfl
  have split : tableLine cells command =
      (columns.zip cells).flatMap (fun e => padLeft e.1 e.2 ++ [' ']) ++ [' '] ++ command := by
    rw [tableLine,List.append_assoc,List.singleton_append]
  rw [split,← front,List.drop_left]

private theorem length_humanBytes (n : UInt64) : (humanBytes .binary64 n).length ≤ 6 := by
  obtain ⟨word,k,q,text,shows⟩ := humanBytes_shows n
  rw [text,List.length_append,List.length_singleton]
  exact Nat.succ_le_succ shows.short

private theorem length_rate (x : Option F64) : ((x.map (humanRate .binary64)).getD "n/a".toList).length ≤ 8 := by
  have missing : "n/a".toList.length ≤ 8 := by decide
  have unit : "/s".toList.length = 2 := by decide
  cases x with
  | none => exact missing
  | some x =>
    rw [Option.map_some,Option.getD_some,humanRate]
    split_ifs
    · exact (by decide : ['-'].length ≤ 8)
    · rw [List.length_append,unit]
      exact Nat.add_le_add_right (length_humanBytes _) 2

private theorem missing_iff (R : Rounding) (x : Option F64) :
    (x.map (humanRate R)).getD "n/a".toList = "n/a".toList ↔ x = none := by
  refine ⟨?_,?_⟩
  · intro text
    cases x with
    | none => rfl
    | some x =>
      exfalso
      rw [Option.map_some,Option.getD_some,humanRate] at text
      split_ifs at text
      · exact absurd text (by decide)
      · have last := congrArg List.getLast? text
        have ending : "/s".toList.getLast? = some 's' := by decide
        rw [List.getLast?_append,ending,Option.some_or] at last
        exact absurd last (by decide)
  · rintro rfl
    rfl

/-- Numbers of the usual size: they fit the columns of the table. -/
structure Narrow (p : ProcRate) : Prop where
  pid : 0 ≤ p.pid.toInt ∧ p.pid.toInt < 10^7
  ppid : 0 ≤ p.ppid.toInt ∧ p.ppid.toInt < 10^7
  threads : 0 ≤ p.threads.toInt ∧ p.threads.toInt < 1000
  cpu : ∃ q, p.cpuPct = .fin q ∧ 0 ≤ q ∧ q < 1000

/-- What the row of a process tells of it. -/
structure ShowsRow (p : ProcRate) (line : Str) : Prop where
  cells : ∃ pid ppid threads read write, splitAsciiWhitespace line =
      [pid,ppid,decimals 1 p.cpuPct,humanBytes .binary64 p.rssBytes,threads,read,write] ++
        (splitAsciiWhitespace p.comm ++ if p.state = 'Z' then ["<zombie>".toList] else []) ∧
    parseI32 pid = some p.pid ∧ parseI32 ppid = some p.ppid ∧ parseI64 threads = some p.threads ∧
    (read = "n/a".toList ↔ p.readBps = none) ∧ (write = "n/a".toList ↔ p.writeBps = none)
  aligned : Narrow p → line.drop 60 = p.comm ++ if p.state = 'Z' then " <zombie>".toList else []

private theorem length_renderInt {z : Int} {k : Nat} (some_ : 0 < k) (range : 0 ≤ z ∧ z < 10^k) :
    (renderInt z).length ≤ k := by
  obtain ⟨n,rfl⟩ := Int.eq_ofNat_of_zero_le range.1
  refine (Nat.length_toDigits_le_iff (by omega) some_).mpr ?_
  exact_mod_cast range.2

private theorem narrow_cells {p : ProcRate} (narrow : Narrow p) :
    List.Forall₂ (fun w c => c.length ≤ w) columns (rowCells .binary64 p) := by
  obtain ⟨pid,ppid,threads,q,cpu,nonneg,small⟩ := narrow
  have load : (decimals 1 p.cpuPct).length ≤ 6 := by
    have bound := lastDecimals_mono 1 nonneg (show q ≤ (1000 : Nat) by exact_mod_cast small.le)
    rw [lastDecimals_natCast] at bound
    rw [cpu]
    exact length_decimals (k := 4) nonneg (by omega) (by omega)
  refine .cons (length_renderInt (by omega) pid) (.cons (length_renderInt (by omega) ppid) (.cons load (.cons ?_
    (.cons (length_renderInt (by omega) threads) (.cons ?_ (.cons ?_ .nil))))))
  · exact (length_humanBytes _).trans (by omega)
  · exact (length_rate _).trans (by omega)
  · exact (length_rate _).trans (by omega)

private theorem split_rowCommand (p : ProcRate) : splitAsciiWhitespace (rowCommand p) =
    splitAsciiWhitespace p.comm ++ if p.state = 'Z' then ["<zombie>".toList] else [] := by
  have tag : IsWord "<zombie>".toList := isWord_of_all (by decide)
  have text : " <zombie>".toList = ' ' :: "<zombie>".toList := by decide
  unfold rowCommand
  split_ifs
  · rw [text,split_append_space _ _ rfl,split_word tag]
  · rw [List.append_nil,List.append_nil]

private theorem showsRow (p : ProcRate) : ShowsRow p (rowLine .binary64 p) where
  cells := ⟨_,_,_,_,_,by
    rw [← split_rowCommand]
    exact split_tableLine _ (isWord_rowCells .binary64 p) le_rfl,
    parseI32_render _,parseI32_render _,parseI64_render _,missing_iff _ _,missing_iff _ _⟩
  aligned narrow := drop_tableLine _ (narrow_cells narrow)

section
variable (R : Rounding) (shared : Shared)

def sparkLines (plain : Bool) : List Str :=
  if plain then [] else ["cpu 60s  ".toList ++ (recentCpu shared).map (fun v =>
    blocks.get ⟨blockIndex R (Sparkline.fullScale R (R.ofNat 100)) v,Sparkline.blockIndex_lt R _ v⟩)]

def coreLines (sys : SystemRate) : List Str := if 1 < sys.perCpuPct.length then [coresLine sys.perCpuPct] else []

def alertLines : List Str :=
  if shared.activeAlerts.isEmpty then []
  else [] :: ("ACTIVE ALERTS (".toList ++ (renderNat shared.activeAlerts.length ++ ")".toList)) ::
    (shared.activeAlerts.take 8).map (alertLine R)

def eventLines : List Str :=
  if shared.events.iterChrono.isEmpty then []
  else [] :: "RECENT EVENTS".toList :: (shared.events.iterChrono.reverse.take 5).map (eventLine R)

def aboveTable (sys : SystemRate) (plain : Bool) : List Str :=
  headerLine R sys :: (sparkLines R shared plain ++ (procsLine R sys :: (coreLines sys ++
    (alertLines R shared ++ (eventLines R shared ++ [[]])))))

private theorem unlines_append (ls ls' : List Str) :
    unlines (ls ++ ls') = unlines ls ++ unlines ls' := List.flatMap_append

private theorem unlines_cons (line : Str) (ls : List Str) : unlines (line :: ls) = line ++ '\n' :: unlines ls := by
  rw [unlines,List.flatMap_cons,List.append_assoc]
  rfl

private theorem unlines_map {α : Type} (text : α → Str) (items : List α) :
    unlines (items.map text) = items.flatMap (fun a => text a ++ ['\n']) := List.flatMap_map ..

private theorem sparkPart_eq (plain : Bool) :
    sparkPart R shared plain = some (unlines (sparkLines R shared plain)) := by
  unfold sparkPart sparkLines
  split_ifs
  · rfl
  · rw [Sparkline.sparkline_eq,Option.map_some,unlines_cons,List.append_assoc]
    rfl

private theorem coresPart_eq (sys : SystemRate) : coresPart sys = unlines (coreLines sys) := by
  unfold coresPart coreLines
  split_ifs
  · rw [unlines_cons]
    rfl
  · rfl

private theorem alertsPart_eq : alertsPart R shared = unlines (alertLines R shared) := by
  have first : "\nACTIVE ALERTS (".toList = '\n' :: "ACTIVE ALERTS (".toList := by decide
  have last : ")\n".toList = ")".toList ++ ['\n'] := by decide
  unfold alertsPart alertLines
  split_ifs
  · rfl
  · rw [unlines_cons,unlines_cons,unlines_map,first,last]
    simp only [List.append_assoc,List.cons_append,List.nil_append]

private theorem eventsPart_eq : eventsPart R shared = unlines (eventLines R shared) := by
  have text : "\nRECENT EVENTS\n".toList = '\n' :: ("RECENT EVENTS".toList ++ ['\n']) := by decide
  unfold eventsPart eventLines
  dsimp only
  split_ifs
  · rfl
  · rw [unlines_cons,unlines_cons,unlines_map,text]
    simp only [List.append_assoc,List.cons_append,List.nil_append]

private theorem tablePart_eq (procs : List ProcRate) :
    tablePart R procs = unlines ([] :: tableHead :: procs.map (rowLine R)) := by
  rw [unlines_cons,unlines_cons,unlines_map]
  rfl

/-- The screen is made of whole lines. -/
theorem renderText_eq (snap : Snapshot) (top : Nat) (plain : Bool) : renderText R snap shared top plain =
    some (unlines (aboveTable R shared snap.system plain ++ (tableHead :: (snap.procs.take top).map (rowLine R)))) := by
  rw [renderText,sparkPart_eq,Option.map_some,coresPart_eq,alertsPart_eq,eventsPart_eq,tablePart_eq,aboveTable]
  simp only [unlines_append,unlines_cons,List.append_assoc,List.cons_append,List.nil_append]

/-- No name that is shown ends a line. -/
structure PlainNames (snap : Snapshot) (top : Nat) : Prop where
  comm : ∀ p ∈ snap.procs.take top, Unbroken p.comm
  alert : ∀ a ∈ shared.activeAlerts.take 8, Unbroken a.1 ∧ Unbroken a.2.1
  event : ∀ e ∈ shared.events.iterChrono.reverse.take 5, Unbroken e.ruleName ∧ Unbroken e.subject

private theorem unbroken_header (sys : SystemRate) : Unbroken (headerLine R sys) := by
  have rate (x : F64) := unbroken_padLeft 9 (unbroken_word (isWord_humanRate R x))
  have bytes (n : UInt64) := unbroken_word (isWord_humanBytes R n)
  have share (x : F64) := unbroken_padLeft 5 (unbroken_decimals 1 x)
  unfold headerLine
  repeat' first
    | exact rate _
    | exact bytes _
    | exact share _
    | exact unbroken_all (by decide)
    | apply unbroken_append

private theorem unbroken_procs (sys : SystemRate) : Unbroken (procsLine R sys) := by
  unfold procsLine
  repeat' first
    | exact unbroken_nat _
    | exact unbroken_decimals _ _
    | exact unbroken_all (by decide)
    | apply unbroken_append

private theorem unbroken_cores (perCpuPct : List F64) : Unbroken (coresLine perCpuPct) := by
  refine unbroken_append (unbroken_all (by decide)) ?_
  intro c member
  obtain ⟨entry,_,inside⟩ := List.mem_flatMap.mp member
  have cell : Unbroken (renderNat entry.2 ++ (':' :: (padLeft 3 (decimals 0 entry.1) ++ "% ".toList))) :=
    unbroken_append (unbroken_nat _) (unbroken_cons (by decide)
      (unbroken_append (unbroken_padLeft 3 (unbroken_decimals 0 _)) (unbroken_all (by decide))))
  exact cell c inside

private theorem unbroken_alert {alert : Str × Str × Nat} (names : Unbroken alert.1 ∧ Unbroken alert.2.1) :
    Unbroken (alertLine R alert) := by
  unfold alertLine
  repeat' first
    | exact unbroken_padRight _ names.1
    | exact unbroken_padRight _ names.2
    | exact unbroken_decimals _ _
    | exact unbroken_all (by decide)
    | apply unbroken_append
    | apply unbroken_cons (by decide)

private theorem unbroken_bound (e : Event) : Unbroken (boundText e) := by
  unfold boundText
  split_ifs
  · exact unbroken_cons (by decide) (unbroken_decimals 1 _)
  · exact unbroken_decimals 1 _

private theorem unbroken_event {e : Event} (names : Unbroken e.ruleName ∧ Unbroken e.subject) :
    Unbroken (eventLine R e) := by
  have kind (k : EventKind) : Unbroken (tag k) := by
    cases k <;> exact unbroken_all (by decide)
  have metric (m : Metric) : Unbroken m.name := by
    cases m <;> exact unbroken_all (by decide)
  unfold eventLine
  repeat' first
    | exact unbroken_bound _
    | exact kind _
    | exact metric _
    | exact unbroken_padRight _ names.1
    | exact unbroken_padRight _ names.2
    | exact unbroken_decimals _ _
    | exact unbroken_all (by decide)
    | apply unbroken_append
    | apply unbroken_cons (by decide)

private theorem unbroken_table {cells : List Str} {command : Str} (words : ∀ cell ∈ cells, IsWord cell)
    (plain : Unbroken command) : Unbroken (tableLine cells command) := by
  refine unbroken_append ?_ (unbroken_cons (by decide) plain)
  intro c member
  obtain ⟨e,inside,character⟩ := List.mem_flatMap.mp member
  have cell : Unbroken (padLeft e.1 e.2 ++ [' ']) :=
    unbroken_append (unbroken_padLeft _ (unbroken_word (words e.2 (List.of_mem_zip inside).2))) (unbroken_all (by decide))
  exact cell c character

private theorem unbroken_head : Unbroken tableHead := unbroken_all (by decide)

private theorem unbroken_spark (levels : List (Fin blocks.length)) : Unbroken (levels.map blocks.get) := by
  have every : ∀ i : Fin blocks.length, blocks.get i ≠ '\n' ∧ blocks.get i ≠ '\r' := by decide
  intro c member
  obtain ⟨i,_,rfl⟩ := List.mem_map.mp member
  exact every i

private theorem unbroken_row {p : ProcRate} (plain : Unbroken p.comm) : Unbroken (rowLine R p) := by
  refine unbroken_table (isWord_rowCells R p) (unbroken_append plain ?_)
  split_ifs
  · exact unbroken_all (by decide)
  · exact unbroken_all rfl

variable {snap : Snapshot} {top : Nat} (names : PlainNames shared snap top)
include names

private theorem unbroken_above (plain : Bool) : ∀ line ∈ aboveTable R shared snap.system plain, Unbroken line := by
  intro line member
  simp only [aboveTable,List.mem_cons,List.mem_append,List.not_mem_nil,or_false] at member
  rcases member with rfl | spark | rfl | core | alert | event | rfl
  · exact unbroken_header R _
  · unfold sparkLines at spark
    split_ifs at spark
    · cases spark
    · rw [List.mem_singleton.mp spark]
      refine unbroken_append (unbroken_all (by decide)) ?_
      have drawn := unbroken_spark ((recentCpu shared).map (fun v =>
        ⟨blockIndex R (Sparkline.fullScale R (R.ofNat 100)) v,Sparkline.blockIndex_lt R _ v⟩))
      rwa [List.map_map] at drawn
  · exact unbroken_procs R _
  · unfold coreLines at core
    split_ifs at core
    · rw [List.mem_singleton.mp core]
      exact unbroken_cores _
    · cases core
  · unfold alertLines at alert
    split_ifs at alert
    · cases alert
    · rcases List.mem_cons.mp alert with rfl | alert
      · exact unbroken_all rfl
      · rcases List.mem_cons.mp alert with rfl | alert
        · exact unbroken_append (unbroken_all (by decide))
            (unbroken_append (unbroken_nat _) (unbroken_all (by decide)))
        · obtain ⟨a,shown,rfl⟩ := List.mem_map.mp alert
          exact unbroken_alert R (names.alert a shown)
  · unfold eventLines at event
    split_ifs at event
    · cases event
    · rcases List.mem_cons.mp event with rfl | event
      · exact unbroken_all rfl
      · rcases List.mem_cons.mp event with rfl | event
        · exact unbroken_all (by decide)
        · obtain ⟨e,shown,rfl⟩ := List.mem_map.mp event
          exact unbroken_event R (names.event e shown)
  · exact unbroken_all rfl

end

/-- The lines above the heading of the table: three and what the optional parts come to. -/
def heightAbove (sys : SystemRate) (shared : Shared) (plain : Bool) : Nat :=
  3 + (if plain then 0 else 1) + (if 1 < sys.perCpuPct.length then 1 else 0) +
    (if shared.activeAlerts = [] then 0 else 2 + min 8 shared.activeAlerts.length) +
    (if shared.events.iterChrono = [] then 0 else 2 + min 5 shared.events.iterChrono.length)

private theorem length_above (R : Rounding) (sys : SystemRate) (shared : Shared) (plain : Bool) :
    (aboveTable R shared sys plain).length = heightAbove sys shared plain := by
  have spark : (sparkLines R shared plain).length = if plain then 0 else 1 := by
    unfold sparkLines
    split_ifs <;> rfl
  have core : (coreLines sys).length = if 1 < sys.perCpuPct.length then 1 else 0 := by
    unfold coreLines
    split_ifs <;> rfl
  have alert : (alertLines R shared).length =
      if shared.activeAlerts = [] then 0 else 2 + min 8 shared.activeAlerts.length := by
    unfold alertLines
    simp only [List.isEmpty_iff]
    split_ifs
    · rfl
    · simp only [List.length_cons,List.length_map,List.length_take]
      omega
  have event : (eventLines R shared).length =
      if shared.events.iterChrono = [] then 0 else 2 + min 5 shared.events.iterChrono.length := by
    unfold eventLines
    simp only [List.isEmpty_iff]
    split_ifs
    · rfl
    · simp only [List.length_cons,List.length_map,List.length_take,List.length_reverse]
      omega
  simp only [aboveTable,heightAbove,List.length_cons,List.length_append,List.length_nil,spark,core,alert,event]
  omega

/-- The screen is always drawn. Unless a name breaks its line, it ends in a heading and one row
for each process shown, in order. From a row the ids, the threads and the known rates are read
back, and rows with numbers of the usual size line up. -/
theorem screen_rows (snap : Snapshot) (shared : Shared) (top : Nat) (plain : Bool) :
    ∃ text, renderText .binary64 snap shared top plain = some text ∧
      (PlainNames shared snap top → ∃ above rows, lines text = above ++ tableHead :: rows ∧
        above.length = heightAbove snap.system shared plain ∧ List.Forall₂ ShowsRow (snap.procs.take top) rows) := by
  refine ⟨_,renderText_eq .binary64 shared snap top plain,?_⟩
  intro names
  refine ⟨_,(snap.procs.take top).map (rowLine .binary64),?_,length_above .binary64 _ _ _,?_⟩
  · apply lines_unlines
    intro line member
    rcases List.mem_append.mp member with above | below
    · exact plain_of_unbroken (unbroken_above .binary64 shared names plain line above)
    · rcases List.mem_cons.mp below with rfl | row
      · exact plain_of_unbroken unbroken_head
      · obtain ⟨p,shown,rfl⟩ := List.mem_map.mp row
        exact plain_of_unbroken (unbroken_row .binary64 (names.comm p shown))
  · exact List.forall₂_map_right_iff.mpr (List.forall₂_same.mpr (fun p _ => showsRow p))

def defunct : Snapshot := ⟨default,[{(default : ProcRate) with comm := "web server".toList,state := 'Z'}]⟩

/-- Told under a rule whose threshold was written `-0`. -/
def signalLost : Event := ⟨.fired,"idle".toList,"system".toList,.cpuPct,.fin 5,.fin 0,0,true⟩

def burning : Shared :=
  ⟨some defunct,.new 300,((Ring.new 5).push signalLost).1,[("hot".toList,"system".toList,5)],none⟩

example : eventLine .exact signalLost =
    "  FIRED   idle             system                     cpu_pct=5.0 (thr -0.0) after 0s".toList := by decide +kernel

theorem screen_rows_defunct : ∃ text above rows, renderText .binary64 defunct burning 15 true = some text ∧
    lines text = above ++ tableHead :: rows ∧ above.length = heightAbove defunct.system burning true ∧
    List.Forall₂ ShowsRow (defunct.procs.take 15) rows := by
  have names : PlainNames burning defunct 15 := by
    refine ⟨?_,?_,?_⟩
    · intro p member
      rw [List.mem_singleton.mp member]
      exact unbroken_all (by decide)
    · intro a member
      rw [List.mem_singleton.mp member]
      exact ⟨unbroken_all (by decide),unbroken_all (by decide)⟩
    · intro e member
      rw [show burning.events.iterChrono.reverse.take 5 = [signalLost] by rfl] at member
      rw [List.mem_singleton.mp member]
      exact ⟨unbroken_all (by decide),unbroken_all (by decide)⟩
  obtain ⟨text,drawn,readable⟩ := screen_rows defunct burning 15 true
  obtain ⟨above,rows,read⟩ := readable names
  exact ⟨text,above,rows,drawn,read⟩

end Vitals.ScreenText
