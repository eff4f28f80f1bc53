import Vitals.Kernel.Units
import Vitals.Library.Word

/-! Parsers for the kernel's process files: `procfs.rs`. Counters have the widths of
the source, so an unchecked sum wraps as it does in a release build. -/
namespace Vitals.Kernel
open Text Decimal Word

structure CpuTimes where
  user : UInt64 := 0
  nice : UInt64 := 0
  system : UInt64 := 0
  idle : UInt64 := 0
  iowait : UInt64 := 0
  irq : UInt64 := 0
  softirq : UInt64 := 0
  steal : UInt64 := 0
  guest : UInt64 := 0
  guestNice : UInt64 := 0
deriving DecidableEq

/-- Guest time is left out: the kernel already counts it inside `user` and `nice`. -/
def CpuTimes.total (c : CpuTimes) : UInt64 :=
  c.user + c.nice + c.system + c.idle + c.iowait + c.irq + c.softirq + c.steal

def CpuTimes.busy (c : CpuTimes) : UInt64 := c.total - c.idle - c.iowait

def parseCpuLine (rest : Str) : CpuTimes :=
  let it := (splitAsciiWhitespace rest).map (fun t => (parseU64 t).getD 0)
  { user := it.getD 0 0
    nice := it.getD 1 0
    system := it.getD 2 0
    idle := it.getD 3 0
    iowait := it.getD 4 0
    irq := it.getD 5 0
    softirq := it.getD 6 0
    steal := it.getD 7 0
    guest := it.getD 8 0
    guestNice := it.getD 9 0 }

structure StatFile where
  total : CpuTimes := {}
  perCpu : List CpuTimes := []
  ctxt : UInt64 := 0
  procsRunning : UInt64 := 0
  procsBlocked : UInt64 := 0
deriving DecidableEq

def statLine (out : StatFile) (line : Str) : StatFile :=
  match stripPrefix "cpu".toList line with
  | some rest => match rest.head? with
    | some c =>
      if isAsciiWhitespace c then {out with total := parseCpuLine rest}
      else if c.isDigit then
        {out with perCpu := out.perCpu ++ [parseCpuLine (rest.dropWhile Char.isDigit)]}
      else out
    | none => out
  | none => match stripPrefix "ctxt ".toList line with
    | some v => {out with ctxt := (parseU64 (trim v)).getD 0}
    | none => match stripPrefix "procs_running ".toList line with
      | some v => {out with procsRunning := (parseU64 (trim v)).getD 0}
      | none => match stripPrefix "procs_blocked ".toList line with
        | some v => {out with procsBlocked := (parseU64 (trim v)).getD 0}
        | none => out

def parseProcStat (s : Str) : StatFile := (lines s).foldl statLine {}

/-- Identity of a process: a recycled pid comes with another start time. -/
structure ProcKey where
  pid : Int32
  starttime : UInt64
deriving DecidableEq,Inhabited

structure PidStat where
  pid : Int32
  comm : Str
  state : Char
  ppid : Int32
  utime : UInt64
  stime : UInt64
  numThreads : Int64
  starttime : UInt64
  vsize : UInt64
  rssPages : Int64
deriving DecidableEq

namespace PidStat

def key (p : PidStat) : ProcKey := ⟨p.pid,p.starttime⟩

def rssBytes (sys : SysConst) (p : PidStat) : UInt64 :=
  if p.rssPages ≤ 0 then 0 else p.rssPages.toUInt64 * sys.pageSize

def cpuTicks (p : PidStat) : UInt64 := p.utime + p.stime

end PidStat

/-- The columns after the name, element `i` being field `i+3` in the numbering of proc(5). -/
def statColumns (pid : Int32) (comm : Str) (rest : List Str) : Option PidStat := do
  let state ← (← rest[0]?).head?
  let ppid ← parseI32 (← rest[1]?)
  let utime ← parseU64 (← rest[11]?)
  let stime ← parseU64 (← rest[12]?)
  let numThreads ← parseI64 (← rest[17]?)
  let starttime ← parseU64 (← rest[19]?)
  let vsize ← parseU64 (← rest[20]?)
  let rssPages ← parseI64 (← rest[21]?)
  return {pid,comm,state,ppid,utime,stime,numThreads,starttime,vsize,rssPages}

def parsePidStat (s : Str) : Option PidStat := do
  let opening ← find '(' s
  let closing ← rfind ')' s
  if closing < opening then none
  else do
    let pid ← parseI32 (trim (s.take opening))
    statColumns pid ((s.take closing).drop (opening+1)) (splitAsciiWhitespace (s.drop (closing+1)))

structure PidIo where
  rchar : UInt64 := 0
  wchar : UInt64 := 0
  readBytes : UInt64 := 0
  writeBytes : UInt64 := 0
deriving DecidableEq

def pidIoLine (io : PidIo) (line : Str) : PidIo :=
  match splitOnce ':' line with
  | none => io
  | some (k,v) =>
    let n := (parseU64 (trim v)).getD 0
    if trim k = "rchar".toList then {io with rchar := n}
    else if trim k = "wchar".toList then {io with wchar := n}
    else if trim k = "read_bytes".toList then {io with readBytes := n}
    else if trim k = "write_bytes".toList then {io with writeBytes := n}
    else io

def parsePidIo (s : Str) : PidIo := (lines s).foldl pidIoLine {}

structure MemInfo where
  total : UInt64 := 0
  free : UInt64 := 0
  available : UInt64 := 0
  buffers : UInt64 := 0
  cached : UInt64 := 0
  swapTotal : UInt64 := 0
  swapFree : UInt64 := 0
deriving DecidableEq,Inhabited

namespace MemInfo

def used (m : MemInfo) : UInt64 := saturatingSub m.total m.available

def usedPct (R : Rounding) (m : MemInfo) : F64 :=
  if m.total = 0 then .fin 0
  else R.mul (R.div (R.ofNat m.used.toNat) (R.ofNat m.total.toNat)) (R.ofNat 100)

end MemInfo

def meminfoLine (m : MemInfo) (line : Str) : MemInfo :=
  match splitOnce ':' line with
  | none => m
  | some (k,v) =>
    let kb := ((splitAsciiWhitespace (trim v)).head?.bind parseU64).getD 0
    let bytes := saturatingMul kb 1024
    if trim k = "MemTotal".toList then {m with total := bytes}
    else if trim k = "MemFree".toList then {m with free := bytes}
    else if trim k = "MemAvailable".toList then {m with available := bytes}
    else if trim k = "Buffers".toList then {m with buffers := bytes}
    else if trim k = "Cached".toList then {m with cached := bytes}
    else if trim k = "SwapTotal".toList then {m with swapTotal := bytes}
    else if trim k = "SwapFree".toList then {m with swapFree := bytes}
    else m

/-- Kernels before 3.14 have no MemAvailable; it is then approximated. -/
def parseMeminfo (s : Str) : MemInfo :=
  let m := (lines s).foldl meminfoLine {}
  if m.available = 0 ∧ 0 < m.total then {m with available := m.free + m.buffers + m.cached} else m

structure NetDev where
  name : Str
  rxBytes : UInt64
  rxPackets : UInt64
  rxErrs : UInt64
  rxDrop : UInt64
  txBytes : UInt64
  txPackets : UInt64
  txErrs : UInt64
  txDrop : UInt64
deriving DecidableEq

def netDevLine (line : Str) : Option NetDev :=
  match splitOnce ':' line with
  | none => none
  | some (name,rest) =>
    let f := (splitAsciiWhitespace rest).map (fun t => (parseU64 t).getD 0)
    if f.length < 16 then none
    else some
      { name := trim name
        rxBytes := f.getD 0 0
        rxPackets := f.getD 1 0
        rxErrs := f.getD 2 0
        rxDrop := f.getD 3 0
        txBytes := f.getD 8 0
        txPackets := f.getD 9 0
        txErrs := f.getD 10 0
        txDrop := f.getD 11 0 }

def parseNetDev (s : Str) : List NetDev := ((lines s).drop 2).filterMap netDevLine

/-- The tenth column of a row of `net/tcp`, unless it is no number or zero. -/
def netTcpLine (line : Str) : Option UInt64 :=
  let f := splitAsciiWhitespace line
  if 9 < f.length then (parseU64 (f.getD 9 [])).bind (fun ino => if ino ≠ 0 then some ino else none)
  else none

def parseNetTcpInodes (s : Str) : List UInt64 := ((lines s).drop 1).filterMap netTcpLine

def socketInodeFromLink (target : Str) : Option UInt64 := do
  parseU64 (← stripSuffix "]".toList (← stripPrefix "socket:[".toList target))

end Vitals.Kernel
