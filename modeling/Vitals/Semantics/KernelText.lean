import Vitals.Kernel.Procfs

/-! How the kernel writes its process files. -/
namespace Vitals.Semantics
open Kernel Text Decimal

abbrev Column := {w : Str // IsWord w ∧ ')' ∉ w}

/-- `<pid> (<comm>) <state>` and the further columns, each after a space. -/
def renderPidStat (pid : Int32) (comm : Str) (state : Char) (fields : List Column) : Str :=
  renderInt pid.toInt ++ ' ' :: '(' :: (comm ++ ')' :: ' ' :: state :: fields.flatMap (fun w => ' ' :: w.1))

/-- The columns of proc(5) that are read, `fields` beginning with column 4. -/
structure Columns (fields : List Column) (stat : PidStat) : Prop where
  ppid : (fields[4-4]?).map Subtype.val = some (renderInt stat.ppid.toInt)
  utime : (fields[14-4]?).map Subtype.val = some (renderNat stat.utime.toNat)
  stime : (fields[15-4]?).map Subtype.val = some (renderNat stat.stime.toNat)
  numThreads : (fields[20-4]?).map Subtype.val = some (renderInt stat.numThreads.toInt)
  starttime : (fields[22-4]?).map Subtype.val = some (renderNat stat.starttime.toNat)
  vsize : (fields[23-4]?).map Subtype.val = some (renderNat stat.vsize.toNat)
  rssPages : (fields[24-4]?).map Subtype.val = some (renderInt stat.rssPages.toInt)

/-- Numbers in columns, each after a space. -/
def spaced (columns : List UInt64) : Str := columns.flatMap (fun n => ' ' :: renderNat n.toNat)

/-- Not one of the lines of `stat` that are read. -/
structure Foreign (line : Str) : Prop where
  cpu : ∀ c rest, line = "cpu".toList ++ c :: rest → isAsciiWhitespace c = false ∧ c.isDigit = false
  ctxt : ¬ "ctxt ".toList <+: line
  procsRunning : ¬ "procs_running ".toList <+: line
  procsBlocked : ¬ "procs_blocked ".toList <+: line

inductive StatLine where
  | cpu (columns : List UInt64)
  | core (index : Nat) (columns : List UInt64)
  | ctxt (n : UInt64)
  | procsRunning (n : UInt64)
  | procsBlocked (n : UInt64)
  | other (line : {line : Str // Foreign line})

namespace StatLine

def text : StatLine → Str
  | cpu columns => "cpu".toList ++ ' ' :: spaced columns
  | core index columns => "cpu".toList ++ (renderNat index ++ spaced columns)
  | ctxt n => "ctxt ".toList ++ renderNat n.toNat
  | procsRunning n => "procs_running ".toList ++ renderNat n.toNat
  | procsBlocked n => "procs_blocked ".toList ++ renderNat n.toNat
  | other line => line.1

def cpu? : StatLine → Option (List UInt64)
  | cpu columns => some columns
  | _ => none

def core? : StatLine → Option (Nat × List UInt64)
  | core index columns => some (index,columns)
  | _ => none

def ctxt? : StatLine → Option UInt64
  | ctxt n => some n
  | _ => none

def procsRunning? : StatLine → Option UInt64
  | procsRunning n => some n
  | _ => none

def procsBlocked? : StatLine → Option UInt64
  | procsBlocked n => some n
  | _ => none

end StatLine

def columnsOf (c : CpuTimes) : List UInt64 :=
  [c.user,c.nice,c.system,c.idle,c.iowait,c.irq,c.softirq,c.steal,c.guest,c.guestNice]

/-- The columns of proc(5) in order; an older kernel writes fewer, and those are zero. -/
def Shows (columns : List UInt64) (c : CpuTimes) : Prop :=
  columnsOf c = (columns ++ List.replicate 10 0).take 10

/-- The lines of one reading of `stat`: every line that is read occurs once, a core line
once for each core in sequence, among any other lines. -/
structure Describes (items : List StatLine) (stat : StatFile) : Prop where
  total : ∃ columns, items.filterMap StatLine.cpu? = [columns] ∧ Shows columns stat.total
  perCpu : List.Forall₂ (fun core c => Shows core.2 c) (items.filterMap StatLine.core?) stat.perCpu
  ctxt : items.filterMap StatLine.ctxt? = [stat.ctxt]
  procsRunning : items.filterMap StatLine.procsRunning? = [stat.procsRunning]
  procsBlocked : items.filterMap StatLine.procsBlocked? = [stat.procsBlocked]

inductive MemKey where
  | total
  | free
  | available
  | buffers
  | cached
  | swapTotal
  | swapFree
deriving DecidableEq

namespace MemKey

def name : MemKey → String
  | total => "MemTotal"
  | free => "MemFree"
  | available => "MemAvailable"
  | buffers => "Buffers"
  | cached => "Cached"
  | swapTotal => "SwapTotal"
  | swapFree => "SwapFree"

def field : MemKey → MemInfo → UInt64
  | total,m => m.total
  | free,m => m.free
  | available,m => m.available
  | buffers,m => m.buffers
  | cached,m => m.cached
  | swapTotal,m => m.swapTotal
  | swapFree,m => m.swapFree

end MemKey

/-- A line of `meminfo` under another key, or under none. -/
def OtherKey (line : Str) : Prop :=
  ∀ key rest, line = key ++ ':' :: rest → ':' ∉ key → ∀ k : MemKey, trim key ≠ k.name.toList

inductive MemLine where
  | known (key : MemKey) (padding : Nat) (kb : UInt64)
  | other (line : {line : Str // OtherKey line})

namespace MemLine

def text : MemLine → Str
  | known key padding kb => key.name.toList ++ ':' :: (List.replicate padding ' ' ++ (renderNat kb.toNat ++ " kB".toList))
  | other line => line.1

def kb? (key : MemKey) : MemLine → Option UInt64
  | known k _ kb => if k = key then some kb else none
  | other _ => none

end MemLine

/-- What a reading of `meminfo` gives for a key, in kilobytes. -/
def reported (items : List MemLine) (key : MemKey) : Option UInt64 := (items.filterMap (MemLine.kb? key)).head?

def Once (items : List MemLine) : Prop := ∀ key, (items.filterMap (MemLine.kb? key)).length ≤ 1

def bytes (items : List MemLine) (key : MemKey) : Nat := ((reported items key).getD 0).toNat*1024

/-- The kernel says that no memory is available, although there is some that is free, in buffers
or cached. -/
def Overruled (items : List MemLine) : Prop :=
  reported items .available = some 0 ∧ 0 < bytes items .total ∧
    0 < bytes items .free + bytes items .buffers + bytes items .cached

/-- The kernel's numbers; free memory is estimated where the kernel gives no number for it. -/
structure Reports (items : List MemLine) (m : MemInfo) : Prop where
  present : ∀ key kb, reported items key = some kb → (key.field m).toNat = kb.toNat*1024
  absent : ∀ key, key ≠ .available → reported items key = none → key.field m = 0
  estimated : reported items .available = none →
    m.available.toNat = if 0 < m.total then m.free.toNat+m.buffers.toNat+m.cached.toNat else 0
  used : ∀ total available, reported items .total = some total → reported items .available = some available →
    available ≤ total → m.used.toNat = total.toNat*1024-available.toNat*1024

/-- The line of an interface in `net/dev`. The first counter may touch the colon. -/
structure NetRow where
  padding : Str
  blank : ∀ c ∈ padding, isWhitespace c = true
  name : Str
  named : name ≠ []
  plain : ∀ c ∈ name, c ≠ ':' ∧ isWhitespace c = false
  gap : Nat
  first : UInt64
  later : List (Nat × UInt64)
  enough : 16 ≤ later.length+1

namespace NetRow

def counters (row : NetRow) : List UInt64 := row.first :: row.later.map Prod.snd

/-- Each later counter follows one space or more. -/
def text (row : NetRow) : Str :=
  row.padding ++ row.name ++ ':' :: (List.replicate row.gap ' ' ++ (renderNat row.first.toNat ++
    row.later.flatMap (fun e => List.replicate (e.1+1) ' ' ++ renderNat e.2.toNat)))

/-- The counters of proc(5), numbered from 1. -/
structure Shows (row : NetRow) (n : NetDev) : Prop where
  name : n.name = row.name
  rxBytes : row.counters[1-1]? = some n.rxBytes
  rxPackets : row.counters[2-1]? = some n.rxPackets
  rxErrs : row.counters[3-1]? = some n.rxErrs
  rxDrop : row.counters[4-1]? = some n.rxDrop
  txBytes : row.counters[9-1]? = some n.txBytes
  txPackets : row.counters[10-1]? = some n.txPackets
  txErrs : row.counters[11-1]? = some n.txErrs
  txDrop : row.counters[12-1]? = some n.txDrop

end NetRow

/-- A line without a colon, or with fewer than 16 counters after it. -/
def Incomplete (line : Str) : Prop :=
  ∀ name rest, line = name ++ ':' :: rest → ':' ∉ name → (splitAsciiWhitespace rest).length < 16

inductive NetLine where
  | iface (row : NetRow)
  | other (line : {line : Str // Incomplete line})

namespace NetLine

def text : NetLine → Str
  | iface row => row.text
  | other line => line.1

def iface? : NetLine → Option NetRow
  | iface row => some row
  | other _ => none

end NetLine

end Vitals.Semantics
