import Vitals.Semantics.KernelText
import Vitals.Kernel.Sample
import Vitals.Library.Bytes

/-! More of what the kernel writes: the auxiliary vector, the counters of a process, the socket
table and the links to sockets. -/
namespace Vitals.Semantics
open Kernel Text Decimal Bytes

/-- An entry of the auxiliary vector, key and value in eight bytes each. -/
def auxvEntry (e : UInt64 × UInt64) : List UInt8 := littleEndian 8 e.1.toNat ++ littleEndian 8 e.2.toNat

/-- Nothing after the vector is looked at: it is cut off within an entry, or ended by the key
AT_NULL, whatever follows. -/
inductive AuxvEnd : List UInt8 → Prop where
  | cut (rest) (short : rest.length < 16) : AuxvEnd rest
  | null (v : UInt64) (rest) : AuxvEnd (auxvEntry (0,v) ++ rest)

/-- What a vector says last under a key. -/
def auxvSays (entries : List (UInt64 × UInt64)) (key : UInt64) : Option UInt64 :=
  (entries.filterMap (fun e => if e.1 = key then some e.2 else none)).getLast?

inductive IoKey where
  | rchar
  | wchar
  | readBytes
  | writeBytes
deriving DecidableEq

namespace IoKey

def name : IoKey → String
  | rchar => "rchar"
  | wchar => "wchar"
  | readBytes => "read_bytes"
  | writeBytes => "write_bytes"

def field : IoKey → PidIo → UInt64
  | rchar,io => io.rchar
  | wchar,io => io.wchar
  | readBytes,io => io.readBytes
  | writeBytes,io => io.writeBytes

end IoKey

/-- A line of `io` under another key, or under none. -/
def OtherIoKey (line : Str) : Prop :=
  ∀ key rest, line = key ++ ':' :: rest → ':' ∉ key → ∀ k : IoKey, trim key ≠ k.name.toList

inductive IoLine where
  | known (key : IoKey) (padding : Nat) (count : UInt64)
  | other (line : {line : Str // OtherIoKey line})

namespace IoLine

def text : IoLine → Str
  | known key padding count => key.name.toList ++ ':' :: (List.replicate padding ' ' ++ renderNat count.toNat)
  | other line => line.1

def count? (key : IoKey) : IoLine → Option UInt64
  | known k _ count => if k = key then some count else none
  | other _ => none

end IoLine

abbrev Cell := {w : Str // IsWord w}

/-- A row of `net/tcp`: nine columns, the inode, and whatever columns follow, each after one space
or more. -/
structure TcpRow where
  first : List (Nat × Cell)
  nine : first.length = 9
  gap : Nat
  inode : UInt64
  later : List (Nat × Cell)

namespace TcpRow

def columns (row : TcpRow) : List (Nat × Str) :=
  row.first.map (fun e => (e.1,e.2.1)) ++ (row.gap,renderNat row.inode.toNat) :: row.later.map (fun e => (e.1,e.2.1))

def text (row : TcpRow) : Str := row.columns.flatMap (fun e => List.replicate (e.1+1) ' ' ++ e.2)

end TcpRow

inductive TcpLine where
  | socket (row : TcpRow)
  | short (line : {line : Str // (splitAsciiWhitespace line).length ≤ 9})

namespace TcpLine

def text : TcpLine → Str
  | socket row => row.text
  | short line => line.1

def inode? : TcpLine → Option UInt64
  | socket row => some row.inode
  | short _ => none

end TcpLine

/-- The link of a descriptor that is a socket. -/
def socketLink (inode : UInt64) : Str := "socket:[".toList ++ (renderNat inode.toNat ++ "]".toList)

/-- What a descriptor of a process links to. -/
inductive FdLink where
  | socket (inode : UInt64)
  | other (target : ByteArray) (apart : ∀ t, toStr target = some t → ¬ "socket:[".toList <+: t)

namespace FdLink

def target : FdLink → ByteArray
  | socket inode => (String.ofList (socketLink inode)).toUTF8
  | other target _ => target

def isSocket : FdLink → Bool
  | socket _ => true
  | other _ _ => false

end FdLink

/-- The descriptors of a process by name; a link may be gone by the time it is read. -/
structure Descriptors (c : Collector) (fs : FileSystem) (pid : Int32)
    (fds : List (ByteArray × Except IoError FdLink)) : Prop where
  listed : fs.readDir (c.pidPath pid "fd".toList) = .ok (fds.map (fun fd => .ok fd.1))
  links : ∀ fd ∈ fds, fs.readLink (c.pidPath pid "fd".toList) fd.1 = fd.2.map FdLink.target

end Vitals.Semantics
