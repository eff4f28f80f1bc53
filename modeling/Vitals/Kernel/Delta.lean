import Vitals.Kernel.Sample

/-! Turning cumulative counters into rates: `delta.rs`. -/
namespace Vitals.Kernel
open Text Word

structure ProcRate where
  key : ProcKey
  pid : Int32
  ppid : Int32
  comm : Str
  state : Char
  threads : Int64
  cpuPct : F64
  rssBytes : UInt64
  vsizeBytes : UInt64
  readBps : Option F64
  writeBps : Option F64
  rcharBps : Option F64
  wcharBps : Option F64
  sockets : Option Nat
  isNew : Bool
deriving DecidableEq,Inhabited

structure SystemRate where
  cpuPct : F64
  perCpuPct : List F64
  mem : MemInfo
  netRxBps : F64
  netTxBps : F64
  netRxErrs : UInt64
  netTxErrs : UInt64
  ctxtPerSec : F64
  procsRunning : UInt64
  procsBlocked : UInt64
  procCount : Nat
  vanished : UInt32
  scanTime : Nat
  interval : Nat
deriving DecidableEq,Inhabited

structure Snapshot where
  system : SystemRate
  procs : List ProcRate
deriving DecidableEq,Inhabited

section
variable (R : Rounding)

/-- `Duration::as_secs_f64` of a number of nanoseconds. -/
def asSecsF64 (duration : Nat) : F64 :=
  R.add (R.ofNat (duration / 10^9)) (R.div (R.ofNat (duration % 10^9)) (R.ofNat (10^9)))

def pct (busyDelta totalDelta : UInt64) : F64 :=
  if totalDelta = 0 then .fin 0
  else (R.mul (R.div (R.ofNat busyDelta.toNat) (R.ofNat totalDelta.toNat)) (R.ofNat 100)).clamp
    (.fin 0) (.fin 100)

def rate (cur prev : UInt64) (secs : F64) : F64 :=
  if secs ≤ .fin 0 then .fin 0 else R.div (R.ofNat (saturatingSub cur prev).toNat) secs

def sumNet (s : Sample) : UInt64 × UInt64 × UInt64 × UInt64 :=
  (s.nets.filter (fun n => n.name ≠ "lo".toList)).foldl
    (fun a n => (a.1 + n.rxBytes,a.2.1 + n.txBytes,a.2.2.1 + n.rxErrs,a.2.2.2 + n.txErrs)) (0,0,0,0)

def systemRate (prev cur : Sample) : SystemRate :=
  let interval := cur.instant-prev.instant
  let secs := asSecsF64 R interval
  let now := sumNet cur
  let before := sumNet prev
  { cpuPct := pct R (saturatingSub cur.cpu.total.busy prev.cpu.total.busy)
      (saturatingSub cur.cpu.total.total prev.cpu.total.total)
    perCpuPct := (cur.cpu.perCpu.zip prev.cpu.perCpu).map (fun (c,p) =>
      pct R (saturatingSub c.busy p.busy) (saturatingSub c.total p.total))
    mem := cur.mem
    netRxBps := rate R now.1 before.1 secs
    netTxBps := rate R now.2.1 before.2.1 secs
    netRxErrs := now.2.2.1
    netTxErrs := now.2.2.2
    ctxtPerSec := rate R cur.cpu.ctxt prev.cpu.ctxt secs
    procsRunning := cur.cpu.procsRunning
    procsBlocked := cur.cpu.procsBlocked
    procCount := cur.procs.entries.length
    vanished := cur.vanished
    scanTime := cur.scanTime
    interval := interval }

/-- One entry of the process loop; `p` is the process of the same identity in the
previous sample. -/
def procRate (sys : SysConst) (secs : F64) (key : ProcKey) (p : Option ProcSample)
    (c : ProcSample) : ProcRate :=
  let cpuPct := match p with
    | some p =>
      if .fin 0 < secs then
        R.mul (R.div (R.ofNat (saturatingSub c.stat.cpuTicks p.stat.cpuTicks).toNat)
          (R.mul (R.ofNat sys.clkTck.toNat) secs)) (R.ofNat 100)
      else .fin 0
    | none => .fin 0
  let bps := fun (counter : PidIo → UInt64) => match p.bind ProcSample.io,c.io with
    | some pi,some ci => some (rate R (counter ci) (counter pi) secs)
    | none,some _ => some (.fin 0)
    | _,none => none
  { key := key
    pid := c.stat.pid
    ppid := c.stat.ppid
    comm := c.stat.comm
    state := c.stat.state
    threads := c.stat.numThreads
    cpuPct := cpuPct
    rssBytes := c.stat.rssBytes sys
    vsizeBytes := c.stat.vsize
    readBps := bps PidIo.readBytes
    writeBps := bps PidIo.writeBytes
    rcharBps := bps PidIo.rchar
    wcharBps := bps PidIo.wchar
    sockets := c.sockets
    isNew := p.isNone }

/-- Descending CPU, then descending RSS; incomparable percentages count as equal. -/
def byLoad (a b : ProcRate) : Ordering :=
  ((b.cpuPct.partialCmp a.cpuPct).getD .eq).then (compare b.rssBytes a.rssBytes)

def diff (sys : SysConst) (order : Iteration (Σ _ : ProcKey, ProcSample)) (prev cur : Sample) : Snapshot :=
  let secs := asSecsF64 R (cur.instant-prev.instant)
  let procs := (order.visit cur.procs.entries).map (fun e =>
    procRate R sys secs e.1 (prev.procs.lookup e.1) e.2)
  { system := systemRate R prev cur
    procs := procs.mergeSort (fun a b => byLoad a b != .gt) }

end
end Vitals.Kernel
