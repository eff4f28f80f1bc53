import Vitals.Kernel.Sampler

/-! The terminal view: `render_text` of `bin/vitals.rs`. -/
namespace Vitals.Kernel
open Text Decimal Display

def blocks : List Char :=
  ['\u2581','\u2582','\u2583','\u2584','\u2585','\u2586','\u2587','\u2588']

/-- `f64::round`: to the nearest integer, half-way cases away from zero. -/
def roundAway : F64 → F64
  | .fin q => .fin (if q < 0 then -(-q+1/2).floor else (q+1/2).floor)
  | x => x

section
variable (R : Rounding)

/-- The index of a block, which the source looks up without a check of its own. -/
def blockIndex (max v : F64) : Nat :=
  let f := (R.div v max).clamp (.fin 0) (.fin 1)
  (roundAway (R.mul f (R.ofNat (blocks.length-1)))).toU64.toNat

/-- `none` is the panic of an index out of bounds. -/
def sparkline (vals : List F64) (max : F64) : Option Str :=
  if vals.isEmpty then some []
  else
    let max := if max ≤ .fin 0 then R.ofNat 1 else max
    vals.mapM (fun v => blocks[blockIndex R max v]?)

def headerLine (sys : SystemRate) : Str :=
  "vitals   cpu ".toList ++ (padLeft 5 (decimals 1 sys.cpuPct) ++
  ("%  mem ".toList ++ (padLeft 5 (decimals 1 (sys.mem.usedPct R)) ++
  ("% (".toList ++ (humanBytes R sys.mem.used ++
  (" / ".toList ++ (humanBytes R sys.mem.total ++
  (")  net rx ".toList ++ (padLeft 9 (humanRate R sys.netRxBps) ++
  (" tx ".toList ++ padLeft 9 (humanRate R sys.netTxBps)))))))))))

def procsLine (sys : SystemRate) : Str :=
  "procs ".toList ++ (renderNat sys.procCount ++
  ("  running ".toList ++ (renderNat sys.procsRunning.toNat ++
  ("  blocked ".toList ++ (renderNat sys.procsBlocked.toNat ++
  ("  ctxsw ".toList ++ (decimals 0 sys.ctxtPerSec ++
  ("/s  vanished ".toList ++ (renderNat sys.vanished.toNat ++
  ("  scan ".toList ++ (decimals 1 (R.mul (asSecsF64 R sys.scanTime) (R.ofNat 1000)) ++
  ("ms  interval ".toList ++ (decimals 0 (R.mul (asSecsF64 R sys.interval) (R.ofNat 1000)) ++ "ms".toList)))))))))))))

def coresLine (perCpuPct : List F64) : Str :=
  "cores    ".toList ++ perCpuPct.zipIdx.flatMap (fun (p,i) =>
    renderNat i ++ (':' :: (padLeft 3 (decimals 0 p) ++ "% ".toList)))

def alertLine (alert : Str × Str × Nat) : Str :=
  "  ! ".toList ++ (padRight 16 alert.1 ++
  (' ' :: (padRight 28 alert.2.1 ++
  (" firing ".toList ++ (decimals 0 (asSecsF64 R alert.2.2) ++ "s".toList)))))

def tag : EventKind → Str
  | .fired => "FIRED  ".toList
  | .cleared => "CLEARED".toList
  | .clearedGone => "GONE   ".toList

/-- The bound in an event, with the sign of a zero. -/
def boundText (e : Event) : Str :=
  if e.minus && e.threshold == .fin 0 then '-' :: decimals 1 e.threshold else decimals 1 e.threshold

def eventLine (e : Event) : Str :=
  "  ".toList ++ (tag e.kind ++
  (' ' :: (padRight 16 e.ruleName ++
  (' ' :: (padRight 26 e.subject ++
  (' ' :: (e.metric.name ++
  ('=' :: (decimals 1 e.value ++
  (" (thr ".toList ++ (boundText e ++
  (") after ".toList ++ (decimals 0 (asSecsF64 R e.heldFor) ++ "s".toList)))))))))))))

/-- The columns of the process table before the command. -/
def columns : List Nat := [7,7,6,9,3,10,10]

def tableLine (cells : List Str) (command : Str) : Str :=
  (columns.zip cells).flatMap (fun c => padLeft c.1 c.2 ++ [' ']) ++ ' ' :: command

def tableHead : Str :=
  tableLine ["PID".toList,"PPID".toList,"CPU%".toList,"RSS".toList,"TH".toList,"DISK R".toList,"DISK W".toList]
    "COMMAND".toList

def rowCells (p : ProcRate) : List Str :=
  [renderInt p.pid.toInt,renderInt p.ppid.toInt,decimals 1 p.cpuPct,humanBytes R p.rssBytes,renderInt p.threads.toInt,
   (p.readBps.map (humanRate R)).getD "n/a".toList,(p.writeBps.map (humanRate R)).getD "n/a".toList]

def rowCommand (p : ProcRate) : Str := p.comm ++ if p.state = 'Z' then " <zombie>".toList else []

def rowLine (p : ProcRate) : Str := tableLine (rowCells R p) (rowCommand p)

/-- The last 60 points of the history. -/
def recentCpu (shared : Shared) : List F64 :=
  let hist := shared.history.iterChrono.map HistoryPoint.cpuPct
  hist.drop (hist.length-60)

def sparkPart (shared : Shared) (plain : Bool) : Option Str :=
  if plain then some []
  else (sparkline R (recentCpu shared) (R.ofNat 100)).map (fun line => "cpu 60s  ".toList ++ (line ++ ['\n']))

def coresPart (sys : SystemRate) : Str :=
  if 1 < sys.perCpuPct.length then coresLine sys.perCpuPct ++ ['\n'] else []

def alertsPart (shared : Shared) : Str :=
  if shared.activeAlerts.isEmpty then []
  else "\nACTIVE ALERTS (".toList ++ (renderNat shared.activeAlerts.length ++
    (")\n".toList ++ (shared.activeAlerts.take 8).flatMap (fun alert => alertLine R alert ++ ['\n'])))

def eventsPart (shared : Shared) : Str :=
  let recent := shared.events.iterChrono
  if recent.isEmpty then []
  else "\nRECENT EVENTS\n".toList ++ (recent.reverse.take 5).flatMap (fun e => eventLine R e ++ ['\n'])

def tablePart (procs : List ProcRate) : Str :=
  '\n' :: (tableHead ++ ('\n' :: procs.flatMap (fun p => rowLine R p ++ ['\n'])))

def renderText (snap : Snapshot) (shared : Shared) (top : Nat) (plain : Bool) : Option Str :=
  (sparkPart R shared plain).map (fun spark =>
    headerLine R snap.system ++ ('\n' :: (spark ++
    (procsLine R snap.system ++ ('\n' :: (coresPart snap.system ++
    (alertsPart R shared ++ (eventsPart R shared ++
    tablePart R (snap.procs.take top)))))))))

end
end Vitals.Kernel
