import Vitals.Kernel.Sample

/-! What becomes of a listed process in one scan: it has vanished, its `stat` is of no
use, or it is sampled. Its own files alone decide. -/
namespace Vitals.Semantics
open Kernel Text

inductive Fate where
  | vanished
  | skipped
  | sampled (entry : ProcSample)
deriving DecidableEq

/-- The errors by which the kernel says that a process has exited. -/
def exited (e : IoError) : Bool := e.kind = .notFound || e.rawOsError = some 3

variable (c : Collector) (fs : FileSystem)

def ioOf (pid : Int32) : Option PidIo :=
  (fs.readToString (c.pidPath pid "io".toList)).toOption.map parsePidIo

def socketsOf (pid : Int32) : Option Nat := if c.withSockets then c.countSockets fs pid else none

def fate (pid : Int32) : Fate :=
  match fs.readToString (c.pidPath pid "stat".toList) with
  | .error e => if exited e then .vanished else .skipped
  | .ok text => match parsePidStat text with
    | none => .skipped
    | some stat => .sampled ⟨stat,ioOf c fs pid,socketsOf c fs pid⟩

/-- Every `stat` that can be read and parsed is about the process of its directory. -/
def OwnStat (pids : List Int32) : Prop :=
  ∀ pid ∈ pids, ∀ text stat, fs.readToString (c.pidPath pid "stat".toList) = .ok text →
    parsePidStat text = some stat → stat.pid = pid

structure SameFiles (fs' : FileSystem) (pid : Int32) : Prop where
  read : ∀ file, fs.read (c.pidPath pid file) = fs'.read (c.pidPath pid file)
  readDir : ∀ file, fs.readDir (c.pidPath pid file) = fs'.readDir (c.pidPath pid file)
  readLink : ∀ file name, fs.readLink (c.pidPath pid file) name = fs'.readLink (c.pidPath pid file) name

/-- Every listed process is accounted for once, from its own files. -/
structure Accounts (pids : List Int32) (sample : Sample) : Prop where
  sampled : ∀ pid ∈ pids, ∀ text stat, fs.readToString (c.pidPath pid "stat".toList) = .ok text →
    parsePidStat text = some stat → ∃ entry, sample.procs.lookup ⟨pid,stat.starttime⟩ = some entry ∧
      entry.stat = stat ∧
        (entry.io = none ↔ ∃ e, fs.readToString (c.pidPath pid "io".toList) = .error e)
  nothingElse : ∀ key entry, sample.procs.lookup key = some entry →
    key.pid ∈ pids ∧ key = entry.stat.key ∧ fate c fs key.pid = .sampled entry
  vanished : sample.vanished = UInt32.ofNat (pids.countP (fun pid => fate c fs pid = .vanished))
  complete : pids.Nodup → sample.procs.entries.length +
    pids.countP (fun pid => fate c fs pid = .vanished) +
    pids.countP (fun pid => fate c fs pid = .skipped) = pids.length
  independent : ∀ fs' pids' started finished sample', c.listPids fs' = .ok pids' → OwnStat c fs' pids' →
    c.collect fs' started finished = .ok sample' → ∀ pid ∈ pids, pid ∈ pids' → SameFiles c fs fs' pid →
    ∀ starttime, sample'.procs.lookup ⟨pid,starttime⟩ = sample.procs.lookup ⟨pid,starttime⟩

end Vitals.Semantics
