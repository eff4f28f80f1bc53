import Vitals.Semantics.KernelTables

/-! Which sockets are whose: the table of sockets and the links of the descriptors name the same
inodes, and the sockets of a process are counted. -/
namespace Vitals.SocketFormat
open Kernel Semantics Text Decimal

namespace TcpRow

theorem words (row : TcpRow) : ∀ e ∈ row.columns, IsWord e.2 := by
  intro e member
  rcases List.mem_append.mp member with first | here
  · obtain ⟨w,_,rfl⟩ := List.mem_map.mp first
    exact w.2.2
  · rcases List.mem_cons.mp here with rfl | later
    · exact isWord_renderNat _
    · obtain ⟨w,_,rfl⟩ := List.mem_map.mp later
      exact w.2.2

theorem split (row : TcpRow) : splitAsciiWhitespace row.text = row.columns.map Prod.snd :=
  split_columns row.columns (words row)

theorem tenth (row : TcpRow) : 9 < (row.columns.map Prod.snd).length ∧
    (row.columns.map Prod.snd).getD 9 [] = renderNat row.inode.toNat := by
  have nine : (row.first.map (fun e => (e.1,e.2.1))).length = 9 := (List.length_map _).trans row.nine
  refine ⟨?_,?_⟩
  · rw [List.length_map,TcpRow.columns,List.length_append,nine,List.length_cons]
    omega
  · rw [List.getD_eq_getElem?_getD,List.getElem?_map,TcpRow.columns,List.getElem?_append_right (Nat.le_of_eq nine),nine]
    rfl

end TcpRow

private theorem netTcpLine_text (item : TcpLine) :
    netTcpLine item.text = item.inode?.filter (fun ino => ino ≠ 0) := by
  cases item with
  | socket row =>
    obtain ⟨enough,inode⟩ := TcpRow.tenth row
    change netTcpLine row.text = _
    unfold netTcpLine
    rw [TcpRow.split row]
    simp only [if_pos enough,inode,parseU64_render,Option.bind_some,TcpLine.inode?,Option.filter]
    by_cases zero : row.inode = 0 <;> simp [zero]
  | short line =>
    exact if_neg (Nat.not_lt.mpr line.2)

/-- The table gives the inodes of its rows, in order; sockets that are not attached to a file any
more have none. -/
theorem inodes_exact {s header : Str} {items : List TcpLine} (text : lines s = header :: items.map TcpLine.text) :
    parseNetTcpInodes s = (items.filterMap TcpLine.inode?).filter (fun ino => ino ≠ 0) := by
  rw [parseNetTcpInodes,text,List.drop_succ_cons,List.drop_zero,List.filterMap_map,List.filter_filterMap]
  exact List.filterMap_congr (fun item _ => netTcpLine_text item)

private theorem socketInodeFromLink_eq_some (target : Str) (inode : UInt64) :
    socketInodeFromLink target = some inode ↔
    ∃ digits, target = "socket:[".toList ++ (digits ++ "]".toList) ∧ parseU64 digits = some inode := by
  refine ⟨?_,?_⟩
  · intro read
    obtain ⟨rest,front,read⟩ := Option.bind_eq_some_iff.mp read
    obtain ⟨digits,back,read⟩ := Option.bind_eq_some_iff.mp read
    exact ⟨digits,by rw [(stripPrefix_eq_some _ _ _).mp front,(stripSuffix_eq_some _ _ _).mp back],read⟩
  · intro shape
    obtain ⟨digits,rfl,read⟩ := shape
    rw [socketInodeFromLink,stripPrefix_append,Option.bind_eq_bind,Option.bind_some,stripSuffix_append]
    exact read

private theorem read_socketLink (inode : UInt64) : socketInodeFromLink (socketLink inode) = some inode :=
  (socketInodeFromLink_eq_some _ _).mpr ⟨_,rfl,parseU64_render inode⟩

private theorem read_apart {target : Str}
    (apart : ¬ "socket:[".toList <+: target) : socketInodeFromLink target = none := by
  rw [socketInodeFromLink,stripPrefix_none apart]
  rfl

private theorem link_counted (link : FdLink) :
    ((toStr link.target).bind socketInodeFromLink).isSome = link.isSocket := by
  cases link with
  | socket inode =>
    rw [FdLink.target,toStr_toUTF8,String.toList_ofList,Option.bind_some,read_socketLink]
    rfl
  | other target apart =>
    rw [FdLink.target]
    cases text : toStr target with
    | none => rfl
    | some t =>
      rw [Option.bind_some,read_apart (apart t text)]
      rfl

theorem countSockets_exact {c : Collector} {fs : FileSystem} {pid : Int32}
    {fds : List (ByteArray × Except IoError FdLink)} (descriptors : Descriptors c fs pid fds) :
    c.countSockets fs pid = some (fds.countP (fun fd => match fd.2 with
      | .ok link => link.isSocket
      | .error _ => false)) := by
  rw [Collector.countSockets,descriptors.listed]
  dsimp only
  rw [List.countP_map]
  congr 1
  apply List.countP_congr
  intro fd member
  rw [Function.comp_apply]
  dsimp only
  rw [descriptors.links fd member]
  cases fd.2 with
  | error e => rfl
  | ok link =>
    change ((toStr link.target).bind socketInodeFromLink).isSome = true ↔ link.isSocket = true
    rw [link_counted]

/-- The join of the two: the link of a descriptor leads to the rows of its own socket and to no
other, and a process is charged with exactly its descriptors that are sockets. -/
theorem sockets_joined {s header : Str} {items : List TcpLine} (text : lines s = header :: items.map TcpLine.text) :
    parseNetTcpInodes s = (items.filterMap TcpLine.inode?).filter (fun ino => ino ≠ 0) ∧
    (∀ inode, (∃ found ∈ parseNetTcpInodes s, socketInodeFromLink (socketLink inode) = some found) ↔
      inode ≠ 0 ∧ ∃ row, TcpLine.socket row ∈ items ∧ row.inode = inode) ∧
    (∀ target, (∃ inode, socketInodeFromLink target = some inode) ↔
      ∃ digits, target = "socket:[".toList ++ (digits ++ "]".toList) ∧ (parseU64 digits).isSome) ∧
    ∀ (c : Collector) (fs : FileSystem) pid fds, Descriptors c fs pid fds →
      c.countSockets fs pid = some (fds.countP (fun fd => match fd.2 with
        | .ok link => link.isSocket
        | .error _ => false)) := by
  have inodes := inodes_exact text
  refine ⟨inodes,?_,?_,fun _ _ _ _ descriptors => countSockets_exact descriptors⟩
  · intro inode
    rw [inodes]
    refine ⟨?_,?_⟩
    · intro joined
      obtain ⟨found,listed,read⟩ := joined
      obtain rfl := Option.some.inj ((read_socketLink inode).symm.trans read)
      obtain ⟨shown,live⟩ := List.mem_filter.mp listed
      obtain ⟨item,member,is_⟩ := List.mem_filterMap.mp shown
      cases item with
      | socket row => exact ⟨by simpa using live,row,member,Option.some.inj is_⟩
      | short line => cases is_
    · intro joined
      obtain ⟨live,row,member,rfl⟩ := joined
      refine ⟨row.inode,List.mem_filter.mpr ⟨List.mem_filterMap.mpr ⟨_,member,rfl⟩,by simpa using live⟩,?_⟩
      exact read_socketLink row.inode
  · intro target
    refine ⟨?_,?_⟩
    · intro read
      obtain ⟨inode,read⟩ := read
      obtain ⟨digits,shape,value⟩ := (socketInodeFromLink_eq_some target inode).mp read
      exact ⟨digits,shape,by rw [value]; rfl⟩
    · intro shape
      obtain ⟨digits,shape,value⟩ := shape
      obtain ⟨inode,value⟩ := Option.isSome_iff_exists.mp value
      exact ⟨inode,(socketInodeFromLink_eq_some target inode).mpr ⟨digits,shape,value⟩⟩

def column : Cell := ⟨['0','A'],by simp [IsWord,isAsciiWhitespace]⟩

def listening (inode : UInt64) : TcpRow := ⟨List.replicate 9 (0,column),rfl,1,inode,[(0,column)]⟩

theorem sockets_joined_listening : ∃ found ∈ parseNetTcpInodes
    " sl\n 0A 0A 0A 0A 0A 0A 0A 0A 0A  682 0A\n 0A 0A 0A 0A 0A 0A 0A 0A 0A  0 0A\n".toList,
    socketInodeFromLink (socketLink 682) = some found := by
  have text : lines " sl\n 0A 0A 0A 0A 0A 0A 0A 0A 0A  682 0A\n 0A 0A 0A 0A 0A 0A 0A 0A 0A  0 0A\n".toList =
      " sl".toList :: [TcpLine.socket (listening 682),.socket (listening 0)].map TcpLine.text := by
    rw [String.toList_ofList]
    decide +kernel
  exact ((sockets_joined text).2.1 682).mpr ⟨by decide,listening 682,by simp,rfl⟩

end Vitals.SocketFormat
