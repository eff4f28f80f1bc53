import Vitals.Semantics.KernelTables
import Vitals.Semantics.Scan

/-! A machine as the kernel sees it, how its process directory shows it, and what a sample of it
should say. -/
namespace Vitals.Semantics
open Kernel Text

/-- A name in the process directory: a process, or something that is no number. -/
inductive Entry where
  | process (pid : Int32)
  | other (name : ByteArray) (apart : ∀ t, toStr name = some t → Decimal.parseI32 t = none)

namespace Entry

def name : Entry → ByteArray
  | process pid => (String.ofList (Decimal.renderInt pid.toInt)).toUTF8
  | other name _ => name

def pid? : Entry → Option Int32
  | process pid => some pid
  | other _ _ => none

end Entry

/-- A process that lives through the scan. Its counters and its descriptors may be withheld from the
reader. -/
structure Task where
  stat : PidStat
  fields : List Column
  columns : Columns fields stat
  ordinary : isAsciiWhitespace stat.state = false
  apart : stat.state ≠ ')'
  io : Except IoError (List IoLine)
  fds : Except IoError (List (ByteArray × Except IoError FdLink))

namespace Task

def text (t : Task) : Str := renderPidStat t.stat.pid t.stat.comm t.stat.state t.fields ++ ['\n']

/-- The descriptors that are sockets, if the descriptors may be read. -/
def sockets (t : Task) : Option Nat := t.fds.toOption.map (fun fds => fds.countP (fun fd => match fd.2 with
  | .ok link => link.isSocket
  | .error _ => false))

/-- Resident memory in bytes. -/
def resident (sys : SysConst) (t : Task) : Nat := t.stat.rssPages.toInt.toNat * sys.pageSize.toNat

def withheld (t : Task) : Bool :=
  match t.io with
  | .ok _ => false
  | .error e => e.kind = .permissionDenied

structure Shown (c : Collector) (fs : FileSystem) (t : Task) : Prop where
  stat : fs.readToString (c.pidPath t.stat.pid "stat".toList) = .ok t.text
  io : match t.io with
    | .ok items => ∃ s, fs.readToString (c.pidPath t.stat.pid "io".toList) = .ok s ∧ lines s = items.map IoLine.text
    | .error e => fs.readToString (c.pidPath t.stat.pid "io".toList) = .error e
  fds : c.withSockets = true → match t.fds with
    | .ok fds => Descriptors c fs t.stat.pid fds
    | .error e => fs.readDir (c.pidPath t.stat.pid "fd".toList) = .error e

/-- What is recorded of a process: its own `stat`, each counter under its own key, and its sockets
if they are asked for. -/
structure Recorded (c : Collector) (t : Task) (entry : ProcSample) : Prop where
  stat : entry.stat = t.stat
  io : match t.io,entry.io with
    | .ok items,some io => ∀ key, key.field io = (items.filterMap (IoLine.count? key)).getLast?.getD 0
    | .error _,none => True
    | _,_ => False
  sockets : entry.sockets = if c.withSockets then t.sockets else none

end Task

structure Machine where
  cpu : List StatLine
  stat : StatFile
  describes : Describes cpu stat
  memory : List MemLine
  once : Once memory
  fits : ∀ key, bytes memory key < 2^64
  sum : bytes memory .free + bytes memory .buffers + bytes memory .cached < 2^64
  nets : List NetLine
  directory : List Entry
  tasks : List Task
  distinct : (tasks.map (fun t => t.stat.pid)).Nodup

/-- The files of the machine; a process of the directory that is not among the tasks has exited
before its `stat` was read. -/
structure Machine.Shown (m : Machine) (c : Collector) (fs : FileSystem) : Prop where
  cpu : ∃ s, fs.readToString (c.root ++ ["stat".toList]) = .ok s ∧ lines s = m.cpu.map StatLine.text
  memory : ∃ s, fs.readToString (c.root ++ ["meminfo".toList]) = .ok s ∧ lines s = m.memory.map MemLine.text
  nets : ∃ s first second, fs.readToString (c.root ++ ["net".toList,"dev".toList]) = .ok s ∧
    lines s = first :: second :: m.nets.map NetLine.text
  directory : fs.readDir c.root = .ok (m.directory.map (fun e => .ok e.name))
  tasks : ∀ t ∈ m.tasks, t.stat.pid ∈ m.directory.filterMap Entry.pid? ∧ t.Shown c fs
  gone : ∀ pid ∈ m.directory.filterMap Entry.pid?, pid ∉ m.tasks.map (fun t => t.stat.pid) →
    ∃ e, fs.readToString (c.pidPath pid "stat".toList) = .error e ∧ exited e = true

/-- The sample is the machine's state, except that the available memory is not taken from a kernel
that is overruled. -/
structure Machine.Recovered (m : Machine) (c : Collector) (sample : Sample) : Prop where
  cpu : sample.cpu = m.stat
  memory : ∀ key, key ≠ .available → (key.field sample.mem).toNat = bytes m.memory key
  reports : ¬ Overruled m.memory → Reports m.memory sample.mem
  nets : List.Forall₂ NetRow.Shows (m.nets.filterMap NetLine.iface?) sample.nets
  recorded : ∀ t ∈ m.tasks, ∃ entry, sample.procs.lookup t.stat.key = some entry ∧ t.Recorded c entry
  nothingElse : ∀ key entry, sample.procs.lookup key = some entry → ∃ t ∈ m.tasks, key = t.stat.key
  vanished : sample.vanished = UInt32.ofNat ((m.directory.filterMap Entry.pid?).countP
    (fun pid => pid ∉ m.tasks.map (fun t => t.stat.pid)))
  denied : (m.directory.filterMap Entry.pid?).Nodup →
    sample.ioDenied = UInt32.ofNat (m.tasks.countP Task.withheld)

end Vitals.Semantics
