import Vitals.Kernel.Delta

/-! The same arithmetic in a build with overflow checks: no result where an addition, a
subtraction or a product of the source leaves 64 bits. A percentage has none either where
its divisor is zero. -/
namespace Vitals.Kernel
open Text Word

namespace CpuTimes

def total? (c : CpuTimes) : Option UInt64 :=
  [c.nice,c.system,c.idle,c.iowait,c.irq,c.softirq,c.steal].foldlM checkedAdd c.user

def busy? (c : CpuTimes) : Option UInt64 := do
  let total ← c.total?
  let awake ← checkedSub total c.idle
  checkedSub awake c.iowait

end CpuTimes

namespace PidStat

def rssBytes? (sys : SysConst) (p : PidStat) : Option UInt64 :=
  if p.rssPages ≤ 0 then some 0 else checkedMul p.rssPages.toUInt64 sys.pageSize

def cpuTicks? (p : PidStat) : Option UInt64 := checkedAdd p.utime p.stime

end PidStat

def parseMeminfo? (s : Str) : Option MemInfo :=
  let m := (lines s).foldl meminfoLine {}
  if m.available = 0 ∧ 0 < m.total then do
    let reclaimable ← checkedAdd m.free m.buffers
    let available ← checkedAdd reclaimable m.cached
    return {m with available := available}
  else some m

section
variable (R : Rounding)

/-- One turn of the loop over the interfaces. -/
def addNet? (a : UInt64 × UInt64 × UInt64 × UInt64) (n : NetDev) : Option (UInt64 × UInt64 × UInt64 × UInt64) := do
  let rx ← checkedAdd a.1 n.rxBytes
  let tx ← checkedAdd a.2.1 n.txBytes
  let rxErrs ← checkedAdd a.2.2.1 n.rxErrs
  let txErrs ← checkedAdd a.2.2.2 n.txErrs
  return (rx,tx,rxErrs,txErrs)

def sumNet? (s : Sample) : Option (UInt64 × UInt64 × UInt64 × UInt64) :=
  (s.nets.filter (fun n => n.name ≠ "lo".toList)).foldlM addNet? (0,0,0,0)

def cpuRate? (prev cur : CpuTimes) : Option F64 := do
  let totalDelta := saturatingSub (← cur.total?) (← prev.total?)
  let busyDelta := saturatingSub (← cur.busy?) (← prev.busy?)
  return pct R busyDelta totalDelta

def pct? (busyDelta totalDelta : UInt64) : Option F64 :=
  if totalDelta = 0 then some (.fin 0)
  else do
    let ratio ← R.checkedDiv (R.ofNat busyDelta.toNat) (R.ofNat totalDelta.toNat)
    return (R.mul ratio (R.ofNat 100)).clamp (.fin 0) (.fin 100)

def cpuPct? (prev cur : CpuTimes) : Option F64 := do
  let totalDelta := saturatingSub (← cur.total?) (← prev.total?)
  let busyDelta := saturatingSub (← cur.busy?) (← prev.busy?)
  pct? R busyDelta totalDelta

def MemInfo.usedPct? (m : MemInfo) : Option F64 :=
  if m.total = 0 then some (.fin 0)
  else do
    let ratio ← R.checkedDiv (R.ofNat m.used.toNat) (R.ofNat m.total.toNat)
    return R.mul ratio (R.ofNat 100)

def systemRate? (prev cur : Sample) : Option SystemRate := do
  let secs := asSecsF64 R (cur.instant-prev.instant)
  let cpuPct ← cpuRate? R prev.cpu.total cur.cpu.total
  let perCpuPct ← (cur.cpu.perCpu.zip prev.cpu.perCpu).mapM (fun e => cpuRate? R e.2 e.1)
  let now ← sumNet? cur
  let before ← sumNet? prev
  return {systemRate R prev cur with
    cpuPct := cpuPct
    perCpuPct := perCpuPct
    netRxBps := rate R now.1 before.1 secs
    netTxBps := rate R now.2.1 before.2.1 secs
    netRxErrs := now.2.2.1
    netTxErrs := now.2.2.2}

def tickRate? (sys : SysConst) (secs : F64) (p c : ProcSample) : Option F64 := do
  let dt := saturatingSub (← c.stat.cpuTicks?) (← p.stat.cpuTicks?)
  return R.mul (R.div (R.ofNat dt.toNat) (R.mul (R.ofNat sys.clkTck.toNat) secs)) (R.ofNat 100)

def procRate? (sys : SysConst) (secs : F64) (key : ProcKey) (p : Option ProcSample) (c : ProcSample) :
    Option ProcRate := do
  let cpuPct ← match p with
    | some p => if .fin 0 < secs then tickRate? R sys secs p c else some (.fin 0)
    | none => some (.fin 0)
  let rssBytes ← c.stat.rssBytes? sys
  return {procRate R sys secs key p c with cpuPct := cpuPct,rssBytes := rssBytes}

def diff? (sys : SysConst) (order : Iteration (Σ _ : ProcKey, ProcSample)) (prev cur : Sample) :
    Option Snapshot := do
  let secs := asSecsF64 R (cur.instant-prev.instant)
  let system ← systemRate? R prev cur
  let procs ← (order.visit cur.procs.entries).mapM (fun e =>
    procRate? R sys secs e.1 (prev.procs.lookup e.1) e.2)
  return {system := system,procs := procs.mergeSort (fun a b => byLoad a b != .gt)}

end
end Vitals.Kernel
