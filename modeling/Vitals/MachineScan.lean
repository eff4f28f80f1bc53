import Vitals.Semantics.Machine
import Vitals.CollectorScan
import Vitals.PidStatFormat
import Vitals.StatFormat
import Vitals.MeminfoFormat
import Vitals.NetDevFormat
import Vitals.PidIoFormat
import Vitals.SocketFormat

/-! A scan recovers the state of the machine from the text the kernel makes of it. -/
namespace Vitals.MachineScan
open Kernel Semantics Text Decimal CollectorScan

section
variable {c : Collector} {fs : FileSystem} {t : Task} {m : Machine}

private theorem entry_pid (e : Entry) : (toStr e.name).bind parseI32 = e.pid? := by
  cases e with
  | process pid =>
    rw [Entry.name,toStr_toUTF8,String.toList_ofList,Option.bind_some,parseI32_render]
    rfl
  | other name apart =>
    rw [Entry.name]
    cases text : toStr name with
    | none => rfl
    | some t => exact apart t text

private theorem listPids_shown (shown : m.Shown c fs) : c.listPids fs = .ok (m.directory.filterMap Entry.pid?) := by
  rw [Collector.listPids,shown.directory]
  dsimp only
  rw [List.filterMap_map]
  congr 1
  exact List.filterMap_congr (fun e _ => entry_pid e)

private theorem parse_task (t : Task) : parsePidStat t.text = some t.stat := by
  rw [Task.text,PidStatFormat.parsePidStat_rendered _ _ _ t.ordinary t.apart _ (.inr rfl)]
  exact PidStatFormat.statColumns_render t.stat t.fields t.columns

private theorem fate_task (shown : t.Shown c fs) :
    fate c fs t.stat.pid = .sampled ⟨t.stat,ioOf c fs t.stat.pid,socketsOf c fs t.stat.pid⟩ := by
  rw [fate_sampled]
  exact ⟨t.text,t.stat,shown.stat,parse_task t,rfl⟩

private theorem recorded_task (shown : t.Shown c fs) :
    t.Recorded c ⟨t.stat,ioOf c fs t.stat.pid,socketsOf c fs t.stat.pid⟩ where
  stat := rfl
  io := by
    have io := shown.io
    cases kind : t.io with
    | ok items =>
      rw [kind] at io
      obtain ⟨s,read,text⟩ := io
      simp only [ioOf,read,Except.toOption,Option.map_some]
      exact PidIoFormat.field_parse text
    | error e =>
      rw [kind] at io
      simp only [ioOf,io,Except.toOption,Option.map_none]
  sockets := by
    rw [socketsOf]
    dsimp only
    split_ifs with asked
    · have fds := shown.fds asked
      rw [Task.sockets]
      cases kind : t.fds with
      | ok fds_ =>
        rw [kind] at fds
        exact SocketFormat.countSockets_exact fds
      | error e =>
        rw [kind] at fds
        rw [Collector.countSockets,fds]
        rfl
    · rfl

private theorem denied_task (shown : t.Shown c fs) : denied c fs t.stat.pid = t.withheld := by
  have io := shown.io
  unfold denied Task.withheld
  cases kind : t.io with
  | ok items =>
    rw [kind] at io
    obtain ⟨s,read,_⟩ := io
    simp only [read]
  | error e =>
    rw [kind] at io
    simp only [io]

private theorem fate_gone {pid : Int32} {e : IoError}
    (read : fs.readToString (c.pidPath pid "stat".toList) = .error e)
    (exit : exited e = true) : fate c fs pid = .vanished := by
  rw [fate,read]
  simp [exit]

private theorem task_or_gone (shown : m.Shown c fs) {pid : Int32} (listed : pid ∈ m.directory.filterMap Entry.pid?) :
    (∃ t ∈ m.tasks, t.stat.pid = pid ∧ t.Shown c fs) ∨
      (pid ∉ m.tasks.map (fun t => t.stat.pid) ∧ fate c fs pid = .vanished) := by
  by_cases member : pid ∈ m.tasks.map (fun t => t.stat.pid)
  · obtain ⟨t,inside,same⟩ := List.mem_map.mp member
    exact .inl ⟨t,inside,same,(shown.tasks t inside).2⟩
  · obtain ⟨e,read,exit⟩ := shown.gone pid listed member
    exact .inr ⟨member,fate_gone read exit⟩

private theorem vanished_iff (shown : m.Shown c fs) {pid : Int32} (listed : pid ∈ m.directory.filterMap Entry.pid?) :
    fate c fs pid = .vanished ↔ pid ∉ m.tasks.map (fun t => t.stat.pid) := by
  rcases task_or_gone shown listed with ⟨t,inside,rfl,task⟩ | ⟨outside,gone⟩
  · rw [fate_task task]
    simp only [reduceCtorEq,false_iff,not_not]
    exact List.mem_map_of_mem inside
  · exact ⟨fun _ => outside,fun _ => gone⟩

private theorem own_stats (shown : m.Shown c fs) : OwnStat c fs (m.directory.filterMap Entry.pid?) := by
  intro pid listed text stat read parsed
  by_cases member : pid ∈ m.tasks.map (fun t => t.stat.pid)
  · obtain ⟨t,inside,rfl⟩ := List.mem_map.mp member
    obtain rfl := Except.ok.inj ((shown.tasks t inside).2.stat.symm.trans read)
    obtain rfl := Option.some.inj ((parse_task t).symm.trans parsed)
    rfl
  · obtain ⟨e,failed,_⟩ := shown.gone pid listed member
    cases failed.symm.trans read

private theorem all_scannable (shown : m.Shown c fs) :
    ∀ pid ∈ m.directory.filterMap Entry.pid?, Scannable c fs pid := by
  intro pid listed
  rw [scannable_iff]
  by_cases member : pid ∈ m.tasks.map (fun t => t.stat.pid)
  · obtain ⟨t,inside,rfl⟩ := List.mem_map.mp member
    exact .inl ⟨_,(shown.tasks t inside).2.stat⟩
  · exact .inr (shown.gone pid listed member)

def refused (c : Collector) (fs : FileSystem) (pid : Int32) : Bool :=
  match fate c fs pid with
  | .sampled _ => denied c fs pid
  | _ => false

private theorem absorbed_denied (pids : List Int32) (scan : Scan) :
    (pids.foldl (absorb c fs) scan).ioDenied = scan.ioDenied + UInt32.ofNat (pids.countP (refused c fs)) := by
  induction pids generalizing scan with
  | nil => simp
  | cons pid pids ih =>
    rw [List.foldl_cons,ih,List.countP_cons]
    unfold absorb refused
    cases fate c fs pid with
    | vanished | skipped => simp
    | sampled entry =>
      cases denied c fs pid <;> simp [UInt32.ofNat_add,UInt32.add_assoc,add_comm]

private theorem refused_tasks (shown : m.Shown c fs) (distinct : (m.directory.filterMap Entry.pid?).Nodup) :
    (m.directory.filterMap Entry.pid?).countP (refused c fs) = m.tasks.countP Task.withheld := by
  have same : ((m.directory.filterMap Entry.pid?).filter (refused c fs)).Perm
      ((m.tasks.filter Task.withheld).map (fun t => t.stat.pid)) := by
    have right : ((m.tasks.filter Task.withheld).map (fun t => t.stat.pid)).Nodup :=
      (List.Sublist.map _ List.filter_sublist).nodup m.distinct
    refine (List.perm_ext_iff_of_nodup (distinct.filter _) right).mpr ?_
    intro pid
    simp only [List.mem_filter,List.mem_map]
    refine ⟨?_,?_⟩
    · intro counted
      obtain ⟨listed,no⟩ := counted
      rcases task_or_gone shown listed with ⟨t,inside,rfl,task⟩ | ⟨_,gone⟩
      · rw [refused,fate_task task] at no
        exact ⟨t,⟨inside,(denied_task task).symm.trans no⟩,rfl⟩
      · rw [refused,gone] at no
        cases no
    · intro counted
      obtain ⟨t,⟨inside,no⟩,rfl⟩ := counted
      obtain ⟨listed,task⟩ := shown.tasks t inside
      refine ⟨listed,?_⟩
      rw [refused,fate_task task]
      exact (denied_task task).trans no
  rw [List.countP_eq_length_filter,same.length_eq,List.length_map,← List.countP_eq_length_filter]

/-- What a scan is made of, file by file. -/
theorem collect_shown (shown : m.Shown c fs) (started finished : Nat) : ∃ cpu mem nets sample,
    fs.readToString (c.root ++ ["stat".toList]) = .ok cpu ∧
    fs.readToString (c.root ++ ["meminfo".toList]) = .ok mem ∧
    fs.readToString (c.root ++ ["net".toList,"dev".toList]) = .ok nets ∧
    c.collect fs started finished = .ok sample ∧ sample.cpu = parseProcStat cpu ∧ sample.mem = parseMeminfo mem ∧
    sample.nets = parseNetDev nets ∧
    sample.ioDenied = UInt32.ofNat ((m.directory.filterMap Entry.pid?).countP (refused c fs)) := by
  obtain ⟨cpu,readCpu,_⟩ := shown.cpu
  obtain ⟨mem,readMem,_⟩ := shown.memory
  obtain ⟨nets,_,_,readNets,_⟩ := shown.nets
  have scanned := scan_ok c fs (all_scannable shown) ⟨∅,0,0⟩
  have denied : (List.foldl (absorb c fs) ⟨∅,0,0⟩ (m.directory.filterMap Entry.pid?)).ioDenied = _ :=
    absorbed_denied _ _
  refine ⟨cpu,mem,nets,_,readCpu,readMem,readNets,
    Fallible.bind_ok.mpr ⟨_,readCpu,Fallible.bind_ok.mpr ⟨_,readMem,Fallible.bind_ok.mpr ⟨_,listPids_shown shown,
      Fallible.bind_ok.mpr ⟨_,scanned,rfl⟩⟩⟩⟩,rfl,rfl,?_,?_⟩
  · rw [readNets]
  · simpa using denied

theorem collect_recovered (shown : m.Shown c fs) {started finished : Nat} {sample : Sample}
    (ok : c.collect fs started finished = .ok sample) : m.Recovered c sample := by
  obtain ⟨cpu,mem,nets,scan,readCpu,readMem,readNets,done,isCpu,isMem,isNets,denied⟩ :=
    collect_shown shown started finished
  obtain rfl := Except.ok.inj (done.symm.trans ok)
  have listed := listPids_shown shown
  have own := own_stats shown
  obtain ⟨_,cpuRead,cpuText⟩ := shown.cpu
  obtain ⟨_,memRead,memText⟩ := shown.memory
  obtain ⟨_,_,_,netsRead,netsText⟩ := shown.nets
  obtain rfl := Except.ok.inj (readCpu.symm.trans cpuRead)
  obtain rfl := Except.ok.inj (readMem.symm.trans memRead)
  obtain rfl := Except.ok.inj (readNets.symm.trans netsRead)
  exact
    { cpu := isCpu.trans (StatFormat.parseProcStat_described cpuText m.describes)
      memory := fun key other => by
        rw [isMem]
        exact MeminfoFormat.toNat_field_parse memText m.once m.fits other
      reports := fun apart => by
        rw [isMem]
        exact MeminfoFormat.reports_parse memText m.once m.fits m.sum apart
      nets := isNets ▸ NetDevFormat.shows_table netsText
      recorded := by
        intro t inside
        obtain ⟨here,task⟩ := shown.tasks t inside
        refine ⟨_,(scan_lookup own listed ok _ _).mpr ⟨_,here,fate_task task,rfl⟩,recorded_task task⟩
      nothingElse := by
        intro key entry found
        obtain ⟨pid,here,sampled,rfl⟩ := (scan_lookup own listed ok key entry).mp found
        rcases task_or_gone shown here with ⟨t,inside,rfl,task⟩ | ⟨_,gone⟩
        · obtain rfl := Fate.sampled.inj ((fate_task task).symm.trans sampled)
          exact ⟨t,inside,rfl⟩
        · cases gone.symm.trans sampled
      vanished := by
        rw [(collect_scan listed ok).2.2]
        congr 1
        apply List.countP_congr
        intro pid here
        simpa using vanished_iff shown here
      denied := by
        intro distinct
        rw [denied,refused_tasks shown distinct] }

/-- Whatever the machine, its names, its order of lines and columns and the other lines among them,
the processes that exit under the scan and those that withhold their counters or descriptors: the
scan succeeds and its sample is the machine's state. -/
theorem scan_recovers (shown : m.Shown c fs) (started finished : Nat) :
    ∃ sample, c.collect fs started finished = .ok sample ∧ m.Recovered c sample := by
  obtain ⟨_,_,_,sample,_,_,_,ok,_⟩ := collect_shown shown started finished
  exact ⟨sample,ok,collect_recovered shown ok⟩

end

def sleeper : Task where
  stat := ⟨7,") R 1 2 (".toList,'S',0,10,11,16,18,19,20⟩
  fields := (List.range 21).map (fun i => PidStatFormat.numeral i)
  columns := ⟨rfl,rfl,rfl,rfl,rfl,rfl,rfl⟩
  ordinary := by decide
  apart := by decide
  io := .ok [.known .writeBytes 1 5,.other PidIoFormat.cancelled]
  fds := .ok [("3".toUTF8,.ok (.socket 682)),("4".toUTF8,.error ⟨.notFound,some 2⟩)]

def forbidden : IoError := ⟨.permissionDenied,some 13⟩

/-- A process of another user. -/
def guarded : Task where
  stat := ⟨1,"init".toList,'S',0,10,11,16,18,19,20⟩
  fields := (List.range 21).map (fun i => PidStatFormat.numeral i)
  columns := ⟨rfl,rfl,rfl,rfl,rfl,rfl,rfl⟩
  ordinary := by decide
  apart := by decide
  io := .error forbidden
  fds := .error forbidden

def small : Machine where
  cpu := [.cpu [5,6,7],.core 2 [1,2],.other StatFormat.intr,.procsRunning 3,.core 10 [4],.ctxt 987654,.procsBlocked 1]
  stat := ⟨⟨5,6,7,0,0,0,0,0,0,0⟩,[⟨1,2,0,0,0,0,0,0,0,0⟩,⟨4,0,0,0,0,0,0,0,0,0⟩],987654,3,1⟩
  describes := ⟨⟨[5,6,7],rfl,rfl⟩,.cons rfl (.cons rfl .nil),rfl,rfl,rfl⟩
  memory := [.known .total 1 1000]
  once := by intro key; cases key <;> decide
  fits := by intro key; cases key <;> decide
  sum := by decide
  nets := [.iface NetDevFormat.glued]
  directory := [.process 7,.other "self".toUTF8 (by intro t text; cases text; decide +kernel),.process 9,.process 1]
  tasks := [sleeper,guarded]
  distinct := by decide

def proc (rest : List String) : List Str := ("/proc" :: rest).map String.toList

def smallFiles : FileSystem where
  read path :=
    if path = proc ["stat"] then
      .ok "cpu  5 6 7\ncpu2 1 2\nintr 5 0 0\nprocs_running 3\ncpu10 4\nctxt 987654\nprocs_blocked 1".toUTF8
    else if path = proc ["meminfo"] then .ok "MemTotal: 1000 kB\n".toUTF8
    else if path = proc ["net","dev"] then
      .ok "|\n|\n  eth0:18446744073709551615 0  1 2  3 4  5 6  7 8  9 10  11 12  13 14\n".toUTF8
    else if path = proc ["7","stat"] then .ok (String.ofList sleeper.text).toUTF8
    else if path = proc ["7","io"] then .ok "write_bytes: 5\ncancelled_write_bytes: 9\n".toUTF8
    else if path = proc ["1","stat"] then .ok (String.ofList guarded.text).toUTF8
    else if path = proc ["1","io"] then .error forbidden
    else .error ⟨.notFound,some 2⟩
  readDir path :=
    if path = proc [] then .ok [.ok "7".toUTF8,.ok "self".toUTF8,.ok "9".toUTF8,.ok "1".toUTF8]
    else if path = proc ["7","fd"] then .ok [.ok "3".toUTF8,.ok "4".toUTF8]
    else .error forbidden
  readLink _ name := if toStr name = some "3".toList then .ok "socket:[682]".toUTF8 else .error ⟨.notFound,some 2⟩

/-- With `--sockets`. -/
def prober : Collector := ⟨proc [],true⟩

private theorem sleeper_shown : sleeper.Shown prober smallFiles where
  stat := by
    have read : smallFiles.read (prober.pidPath 7 "stat".toList) = .ok (String.ofList sleeper.text).toUTF8 := by
      decide +kernel
    have text := FileSystem.readToString_text _ read
    rwa [String.toList_ofList] at text
  io := by
    refine ⟨"write_bytes: 5\ncancelled_write_bytes: 9\n".toList,?_,?_⟩
    · decide +kernel
    · decide +kernel
  fds := by
    intro _
    refine ⟨by decide +kernel,?_⟩
    intro fd member
    simp only [List.mem_cons,List.not_mem_nil,or_false] at member
    rcases member with rfl | rfl <;> decide +kernel

private theorem guarded_shown : guarded.Shown prober smallFiles where
  stat := by
    have read : smallFiles.read (prober.pidPath 1 "stat".toList) = .ok (String.ofList guarded.text).toUTF8 := by
      decide +kernel
    have text := FileSystem.readToString_text _ read
    rwa [String.toList_ofList] at text
  io := FileSystem.readToString_error (by decide +kernel)
  fds := by
    intro _
    change smallFiles.readDir (prober.pidPath 1 "fd".toList) = .error forbidden
    decide +kernel

theorem small_shown : small.Shown prober smallFiles := by
  refine ⟨⟨_,FileSystem.readToString_text _ rfl,?_⟩,⟨_,FileSystem.readToString_text _ rfl,?_⟩,
    ⟨_,"|".toList,"|".toList,FileSystem.readToString_text _ rfl,?_⟩,?_,?_,?_⟩
  · decide +kernel
  · decide +kernel
  · decide +kernel
  · decide +kernel
  · exact List.forall_mem_cons.mpr ⟨⟨by decide,sleeper_shown⟩,List.forall_mem_singleton.mpr ⟨by decide,guarded_shown⟩⟩
  · intro pid listed outside
    have three : pid = 7 ∨ 9 = pid ∨ 1 = pid := by simpa [small,Entry.pid?] using listed
    rcases three with rfl | rfl | rfl
    · exact absurd (by decide) outside
    · exact ⟨⟨.notFound,some 2⟩,by decide +kernel,rfl⟩
    · exact absurd (by decide) outside

theorem scan_recovers_small : ∃ sample, prober.collect smallFiles 0 1 = .ok sample ∧
    small.Recovered prober sample := scan_recovers small_shown 0 1

end Vitals.MachineScan
