import Vitals.Kernel.Procfs
import Vitals.Library.Table

/-! Taking one sample of the whole system: `sample.rs`. The file system is an oracle
that answers every path with bytes or an error; a scan reads no path twice. Times are
nanoseconds of the monotonic clock. -/
namespace Vitals.Kernel
open Text Decimal

inductive ErrorKind where
  | notFound
  | permissionDenied
  | invalidData
  | other
deriving DecidableEq

structure IoError where
  kind : ErrorKind
  rawOsError : Option Int
deriving DecidableEq

/-- Paths are lists of components; a directory yields the bytes of its names. -/
structure FileSystem where
  read : List Str → Except IoError ByteArray
  readDir : List Str → Except IoError (List (Except IoError ByteArray))
  readLink : List Str → ByteArray → Except IoError ByteArray

/-- `to_str`: defined on the bytes that are UTF-8. -/
def toStr (bytes : ByteArray) : Option Str := (String.fromUTF8? bytes).map String.toList

theorem toStr_toUTF8 (s : String) : toStr s.toUTF8 = some s.toList := by
  have valid : s.toUTF8.IsValidUTF8 := s.isValidUTF8
  rw [toStr,String.fromUTF8?,dif_pos valid]
  rfl

namespace FileSystem

/-- `fs::read_to_string`: bytes that are not UTF-8 are an error of their own. -/
def readToString (fs : FileSystem) (path : List Str) : Except IoError Str :=
  match fs.read path with
  | .error e => .error e
  | .ok bytes => match toStr bytes with
    | some s => .ok s
    | none => .error ⟨.invalidData,none⟩

theorem readToString_text {fs : FileSystem} {path : List Str} (text : String) (read : fs.read path = .ok text.toUTF8) :
    fs.readToString path = .ok text.toList := by
  simp only [readToString,read,toStr_toUTF8]

theorem readToString_error {fs : FileSystem} {path : List Str} {e : IoError} (failed : fs.read path = .error e) :
    fs.readToString path = .error e := by
  simp only [readToString,failed]

end FileSystem

structure ProcSample where
  stat : PidStat
  io : Option PidIo
  sockets : Option Nat
deriving DecidableEq

/-- `instant` is the field `at` of the source, the start of the scan. -/
structure Sample where
  instant : Nat
  cpu : StatFile
  mem : MemInfo
  nets : List NetDev
  procs : Table ProcKey ProcSample
  vanished : UInt32
  ioDenied : UInt32
  scanTime : Nat

structure Collector where
  root : List Str
  withSockets : Bool := false

structure Scan where
  procs : Table ProcKey ProcSample
  vanished : UInt32
  ioDenied : UInt32

namespace Collector

def pidPath (c : Collector) (pid : Int32) (file : Str) : List Str :=
  c.root ++ [renderInt pid.toInt,file]

/-- One file of a process, with "it exited" mapped to `none`. -/
def readPid (c : Collector) (fs : FileSystem) (pid : Int32) (file : Str) : Except IoError (Option Str) :=
  match fs.readToString (c.pidPath pid file) with
  | .ok s => .ok (some s)
  | .error e =>
    if e.kind = .notFound then .ok none
    else if e.rawOsError = some 3 then .ok none
    else .error e

def listPids (c : Collector) (fs : FileSystem) : Except IoError (List Int32) :=
  match fs.readDir c.root with
  | .error e => .error e
  | .ok entries => .ok (entries.filterMap (fun entry => match entry with
    | .ok name => (toStr name).bind parseI32
    | .error _ => none))

def countSockets (c : Collector) (fs : FileSystem) (pid : Int32) : Option Nat :=
  match fs.readDir (c.pidPath pid "fd".toList) with
  | .error _ => none
  | .ok entries => some (entries.countP (fun entry => match entry with
    | .ok name => match fs.readLink (c.pidPath pid "fd".toList) name with
      | .ok target => (((toStr target).bind socketInodeFromLink).isSome : Bool)
      | .error _ => false
    | .error _ => false))

def scanPid (c : Collector) (fs : FileSystem) (scan : Scan) (pid : Int32) : Except IoError Scan :=
  match c.readPid fs pid "stat".toList with
  | .error e => .error e
  | .ok none => .ok {scan with vanished := scan.vanished + 1}
  | .ok (some statTxt) => match parsePidStat statTxt with
    | none => .ok scan
    | some stat =>
      let read := fs.readToString (c.pidPath pid "io".toList)
      let io := match read with
        | .ok s => some (parsePidIo s)
        | .error _ => none
      let ioDenied := match read with
        | .ok _ => scan.ioDenied
        | .error e => if e.kind = .permissionDenied then scan.ioDenied + 1 else scan.ioDenied
      let sockets := if c.withSockets then c.countSockets fs pid else none
      .ok {scan with procs := scan.procs.insert stat.key ⟨stat,io,sockets⟩,ioDenied := ioDenied}

def collect (c : Collector) (fs : FileSystem) (started finished : Nat) : Except IoError Sample := do
  let cpu := parseProcStat (← fs.readToString (c.root ++ ["stat".toList]))
  let mem := parseMeminfo (← fs.readToString (c.root ++ ["meminfo".toList]))
  let nets := match fs.readToString (c.root ++ ["net".toList,"dev".toList]) with
    | .ok s => parseNetDev s
    | .error _ => []
  let scan ← (← c.listPids fs).foldlM (c.scanPid fs) ⟨∅,0,0⟩
  return ⟨started,cpu,mem,nets,scan.procs,scan.vanished,scan.ioDenied,finished-started⟩

end Collector
end Vitals.Kernel
