import Vitals.Semantics.Scan
import Vitals.Library.Fallible

/-! One scan of the processes. Every fate is absorbed by the loop, but a `stat` whose read
fails in any other way than by the exit of its process ends the whole scan. -/
namespace Vitals.CollectorScan
open Kernel Semantics Text Fallible

variable (c : Collector) (fs : FileSystem)

/-- The scan gets past the process: its `stat` is text, or the process has exited. -/
def Scannable (pid : Int32) : Prop :=
  (∃ bytes, fs.read (c.pidPath pid "stat".toList) = .ok bytes ∧ (toStr bytes).isSome) ∨
    ∃ e, fs.read (c.pidPath pid "stat".toList) = .error e ∧ exited e = true

/-- The read of `io` was refused, which the scan counts. -/
def denied (pid : Int32) : Bool :=
  match fs.readToString (c.pidPath pid "io".toList) with
  | .ok _ => false
  | .error e => e.kind = .permissionDenied

def absorb (scan : Scan) (pid : Int32) : Scan :=
  match fate c fs pid with
  | .vanished => {scan with vanished := scan.vanished + 1}
  | .skipped => scan
  | .sampled entry =>
    { scan with
      procs := scan.procs.insert entry.stat.key entry
      ioDenied := if denied c fs pid then scan.ioDenied + 1 else scan.ioDenied }

theorem scannable_iff (pid : Int32) : Scannable c fs pid ↔
    (∃ text, fs.readToString (c.pidPath pid "stat".toList) = .ok text) ∨
      ∃ e, fs.readToString (c.pidPath pid "stat".toList) = .error e ∧ exited e = true := by
  unfold Scannable FileSystem.readToString
  cases fs.read (c.pidPath pid "stat".toList) with
  | error e => simp
  | ok bytes => cases decoded : toStr bytes <;> simp [decoded,exited]

private theorem scanPid_ok (scan : Scan) (pid : Int32) (scannable : Scannable c fs pid) :
    c.scanPid fs scan pid = .ok (absorb c fs scan pid) := by
  unfold Collector.scanPid Collector.readPid absorb fate
  rcases (scannable_iff c fs pid).mp scannable with ⟨text,read⟩ | ⟨e,read,exit⟩
  · simp only [read]
    cases parsePidStat text with
    | none => rfl
    | some stat =>
      cases io : fs.readToString (c.pidPath pid "io".toList) with
      | ok text =>
        simp only [ioOf,socketsOf,denied,io,Except.toOption,Option.map_some,Bool.false_eq_true,if_false]
      | error e =>
        simp only [ioOf,socketsOf,denied,io,Except.toOption,Option.map_none,decide_eq_true_eq]
  · simp only [read,exit,if_true]
    simp only [exited,Bool.or_eq_true,decide_eq_true_eq] at exit
    by_cases kind : e.kind = .notFound
    · simp [kind]
    · simp [kind,exit.resolve_left kind]

private theorem scanPid_error (scan : Scan) (pid : Int32) (unscannable : ¬ Scannable c fs pid) :
    ∃ e, c.scanPid fs scan pid = .error e := by
  rw [scannable_iff,not_or] at unscannable
  obtain ⟨unread,alive⟩ := unscannable
  unfold Collector.scanPid Collector.readPid
  cases read : fs.readToString (c.pidPath pid "stat".toList) with
  | ok text => exact absurd ⟨text,read⟩ unread
  | error e =>
    have other : ¬ exited e = true := fun exit => alive ⟨e,read,exit⟩
    simp only [exited,Bool.or_eq_true,decide_eq_true_eq,not_or] at other
    exact ⟨e,by simp [other.1,other.2]⟩

theorem scan_ok {pids : List Int32} (scannable : ∀ pid ∈ pids, Scannable c fs pid) (scan : Scan) :
    pids.foldlM (c.scanPid fs) scan = .ok (pids.foldl (absorb c fs) scan) :=
  foldlM_ok pids (fun pid member scan => scanPid_ok c fs scan pid (scannable pid member)) scan

/-- One process whose `stat` fails otherwise takes all of the scan with it. -/
theorem scan_error {pids : List Int32} {pid : Int32} (member : pid ∈ pids)
    (unscannable : ¬ Scannable c fs pid) (scan : Scan) : ∃ e, pids.foldlM (c.scanPid fs) scan = .error e :=
  foldlM_error member (fun scan => scanPid_error c fs scan pid unscannable) scan

def sampledPair (pid : Int32) : Option (ProcKey × ProcSample) :=
  match fate c fs pid with
  | .sampled entry => some (entry.stat.key,entry)
  | _ => none

private theorem sampledPair_eq_some (pid : Int32) (key : ProcKey) (entry : ProcSample) :
    sampledPair c fs pid = some (key,entry) ↔ fate c fs pid = .sampled entry ∧ key = entry.stat.key := by
  unfold sampledPair
  cases fate c fs pid with
  | vanished => simp
  | skipped => simp
  | sampled other =>
    simp only [Option.some.injEq,Prod.mk.injEq,Fate.sampled.injEq]
    refine ⟨fun same => ⟨same.2,?_⟩,fun same => ⟨?_,same.1⟩⟩
    · rw [← same.1,same.2]
    · rw [same.2,same.1]

private theorem absorbed (pids : List Int32) (scan : Scan) :
    (pids.foldl (absorb c fs) scan).procs =
        (pids.filterMap (sampledPair c fs)).foldl (fun t pair => t.insert pair.1 pair.2) scan.procs ∧
      (pids.foldl (absorb c fs) scan).vanished =
        scan.vanished + UInt32.ofNat (pids.countP (fun pid => fate c fs pid = .vanished)) := by
  induction pids generalizing scan with
  | nil => simp
  | cons pid pids ih =>
    obtain ⟨procs,vanished⟩ := ih (absorb c fs scan pid)
    rw [List.foldl_cons,procs,vanished,List.filterMap_cons,List.countP_cons]
    unfold absorb sampledPair
    cases fate c fs pid with
    | vanished => simp [UInt32.ofNat_add,UInt32.add_assoc,add_comm]
    | skipped => simp
    | sampled entry => simp

theorem fate_sampled (pid : Int32) (entry : ProcSample) : fate c fs pid = .sampled entry ↔
    ∃ text stat, fs.readToString (c.pidPath pid "stat".toList) = .ok text ∧ parsePidStat text = some stat ∧
      entry = ⟨stat,ioOf c fs pid,socketsOf c fs pid⟩ := by
  unfold fate
  cases fs.readToString (c.pidPath pid "stat".toList) with
  | error e => cases exit : exited e <;> simp [exit]
  | ok text => cases parsed : parsePidStat text <;> simp [parsed,eq_comm]

private theorem fate_congr {fs' : FileSystem} {pid : Int32} (same : SameFiles c fs fs' pid) :
    fate c fs pid = fate c fs' pid := by
  have text (file : Str) : fs.readToString (c.pidPath pid file) = fs'.readToString (c.pidPath pid file) := by
    simp only [FileSystem.readToString,same.read file]
  have sockets : c.countSockets fs pid = c.countSockets fs' pid := by
    simp only [Collector.countSockets,same.readDir,same.readLink]
  simp only [fate,ioOf,socketsOf,text,sockets]

section
variable {c fs} {pids : List Int32}

private theorem own_key (own : OwnStat c fs pids) {pid : Int32} (member : pid ∈ pids) {entry : ProcSample}
    (sampled : fate c fs pid = .sampled entry) : entry.stat.key = ⟨pid,entry.stat.starttime⟩ := by
  obtain ⟨text,stat,read,parsed,rfl⟩ := (fate_sampled c fs pid entry).mp sampled
  rw [PidStat.key,own pid member text stat read parsed]

private theorem mem_pairs (key : ProcKey) (entry : ProcSample) :
    (key,entry) ∈ pids.filterMap (sampledPair c fs) ↔
      ∃ pid ∈ pids, fate c fs pid = .sampled entry ∧ key = entry.stat.key := by
  simp only [List.mem_filterMap,sampledPair_eq_some]

private theorem pairs_functional (own : OwnStat c fs pids) : ∀ a ∈ pids.filterMap (sampledPair c fs),
    ∀ b ∈ pids.filterMap (sampledPair c fs), a.1 = b.1 → a.2 = b.2 := by
  intro a inA b inB same
  obtain ⟨pid,member,sampled,key⟩ := (mem_pairs a.1 a.2).mp inA
  obtain ⟨pid',member',sampled',key'⟩ := (mem_pairs b.1 b.2).mp inB
  rw [key,key',own_key own member sampled,own_key own member' sampled'] at same
  obtain ⟨rfl,_⟩ := ProcKey.mk.inj same
  exact Fate.sampled.inj (sampled.symm.trans sampled')

private theorem pairs_distinct (own : OwnStat c fs pids) (distinct : pids.Nodup) :
    ((pids.filterMap (sampledPair c fs)).map Prod.fst).Nodup := by
  have pidOf : ∀ pid ∈ pids, ∀ pair, sampledPair c fs pid = some pair → pair.1.pid = pid := by
    intro pid member pair sampled
    obtain ⟨read,key⟩ := (sampledPair_eq_some c fs pid pair.1 pair.2).mp sampled
    rw [key,own_key own member read]
  -- projected to their pids, the sampled keys are a sublist of the listing
  have listed : (((pids.filterMap (sampledPair c fs)).map Prod.fst).map ProcKey.pid).Sublist pids := by
    clear own distinct
    induction pids with
    | nil => exact List.Sublist.refl _
    | cons pid pids ih =>
      have rest := ih (fun other member => pidOf other (by simp [member]))
      rw [List.filterMap_cons]
      cases sampled : sampledPair c fs pid with
      | none => exact rest.cons _
      | some pair =>
        rw [List.map_cons,List.map_cons,pidOf pid (by simp) pair sampled]
        exact rest.cons_cons _
  exact (listed.nodup distinct).of_map _

private theorem fates_counted : (pids.filterMap (sampledPair c fs)).length +
    pids.countP (fun pid => fate c fs pid = .vanished) +
    pids.countP (fun pid => fate c fs pid = .skipped) = pids.length := by
  induction pids with
  | nil => rfl
  | cons pid pids ih =>
    rw [List.filterMap_cons,List.countP_cons,List.countP_cons,List.length_cons,← ih,sampledPair]
    cases fate c fs pid <;> simp <;> omega

theorem collect_scan (listed : c.listPids fs = .ok pids) {started finished : Nat} {sample : Sample}
    (ok : c.collect fs started finished = .ok sample) :
    (∀ pid ∈ pids, Scannable c fs pid) ∧
      sample.procs = Table.inserts (pids.filterMap (sampledPair c fs)) ∧
      sample.vanished = UInt32.ofNat (pids.countP (fun pid => fate c fs pid = .vanished)) := by
  obtain ⟨_,_,ok⟩ := bind_ok.mp ok
  obtain ⟨_,_,ok⟩ := bind_ok.mp ok
  obtain ⟨_,found,ok⟩ := bind_ok.mp ok
  obtain rfl := Except.ok.inj (listed.symm.trans found)
  obtain ⟨scan,scanned,ok⟩ := bind_ok.mp ok
  obtain rfl := Except.ok.inj ok
  have scannable : ∀ pid ∈ pids, Scannable c fs pid := by
    intro pid member
    by_contra unscannable
    obtain ⟨e,failed⟩ := scan_error c fs member unscannable ⟨∅,0,0⟩
    rw [failed] at scanned
    cases scanned
  rw [scan_ok c fs scannable] at scanned
  obtain rfl := Except.ok.inj scanned
  obtain ⟨procs,vanished⟩ := absorbed c fs pids ⟨∅,0,0⟩
  exact ⟨scannable,procs,by simpa using vanished⟩

private theorem collect_ok (listed : c.listPids fs = .ok pids)
    (stat : ∃ text, fs.readToString (c.root ++ ["stat".toList]) = .ok text)
    (meminfo : ∃ text, fs.readToString (c.root ++ ["meminfo".toList]) = .ok text)
    (scannable : ∀ pid ∈ pids, Scannable c fs pid) (started finished : Nat) :
    ∃ sample, c.collect fs started finished = .ok sample := by
  obtain ⟨cpu,stat⟩ := stat
  obtain ⟨mem,meminfo⟩ := meminfo
  have scanned := scan_ok c fs scannable ⟨∅,0,0⟩
  exact ⟨_,bind_ok.mpr ⟨_,stat,bind_ok.mpr ⟨_,meminfo,bind_ok.mpr ⟨_,listed,bind_ok.mpr ⟨_,scanned,rfl⟩⟩⟩⟩⟩

theorem scan_lookup (own : OwnStat c fs pids) (listed : c.listPids fs = .ok pids) {started finished : Nat}
    {sample : Sample} (ok : c.collect fs started finished = .ok sample) (key : ProcKey) (entry : ProcSample) :
    sample.procs.lookup key = some entry ↔
      ∃ pid ∈ pids, fate c fs pid = .sampled entry ∧ key = entry.stat.key := by
  rw [(collect_scan listed ok).2.1,Table.lookup_inserts _ (pairs_functional own),mem_pairs]

/-- A listed process is in the table under the start time it reports, or not at all. -/
theorem pid_lookup (own : OwnStat c fs pids) (listed : c.listPids fs = .ok pids) {started finished : Nat}
    {sample : Sample} (ok : c.collect fs started finished = .ok sample) {pid : Int32} (member : pid ∈ pids)
    (starttime : UInt64) (entry : ProcSample) : sample.procs.lookup ⟨pid,starttime⟩ = some entry ↔
      fate c fs pid = .sampled entry ∧ entry.stat.starttime = starttime := by
  rw [scan_lookup own listed ok]
  refine ⟨?_,?_⟩
  · intro found
    obtain ⟨other,inside,sampled,key⟩ := found
    rw [own_key own inside sampled] at key
    obtain ⟨rfl,same⟩ := ProcKey.mk.inj key
    exact ⟨sampled,same.symm⟩
  · intro found
    obtain ⟨sampled,rfl⟩ := found
    exact ⟨pid,member,sampled,(own_key own member sampled).symm⟩

private theorem collect_accounts (own : OwnStat c fs pids) (listed : c.listPids fs = .ok pids)
    {started finished : Nat} {sample : Sample} (ok : c.collect fs started finished = .ok sample) :
    Accounts c fs pids sample where
  sampled := by
    intro pid member text stat read parsed
    have sampled := (fate_sampled c fs pid _).mpr ⟨text,stat,read,parsed,rfl⟩
    refine ⟨_,(pid_lookup own listed ok member _ _).mpr ⟨sampled,rfl⟩,rfl,?_⟩
    cases io : fs.readToString (c.pidPath pid "io".toList) with
    | ok text => simp only [ioOf,io,Except.toOption,Option.map_some,reduceCtorEq,exists_false]
    | error e => simp only [ioOf,io,Except.toOption,Option.map_none,Except.error.injEq,exists_eq']
  nothingElse := by
    intro key entry found
    obtain ⟨pid,member,sampled,same⟩ := (scan_lookup own listed ok key entry).mp found
    have pidOf : key.pid = pid := by rw [same,own_key own member sampled]
    rw [pidOf]
    exact ⟨member,same,sampled⟩
  vanished := (collect_scan listed ok).2.2
  complete := by
    intro distinct
    rw [(collect_scan listed ok).2.1,Table.length_inserts _ (pairs_distinct own distinct)]
    exact fates_counted
  independent := by
    intro fs' pids' started' finished' sample' listed' own' ok' pid member member' same starttime
    apply Option.ext
    intro entry
    rw [pid_lookup own listed ok member,pid_lookup own' listed' ok' member',fate_congr c fs same]

end

/-- A scan succeeds and accounts for everything exactly when every listed `stat` is either
text or gone with its process. -/
theorem collect_exact (c : Collector) (fs : FileSystem) (pids : List Int32) (started finished : Nat)
    (listed : c.listPids fs = .ok pids) (own : OwnStat c fs pids)
    (stat : ∃ text, fs.readToString (c.root ++ ["stat".toList]) = .ok text)
    (meminfo : ∃ text, fs.readToString (c.root ++ ["meminfo".toList]) = .ok text) :
    (∃ sample, c.collect fs started finished = .ok sample ∧ Accounts c fs pids sample) ↔
      ∀ pid ∈ pids, Scannable c fs pid := by
  refine ⟨?_,?_⟩
  · intro collected
    obtain ⟨sample,ok,_⟩ := collected
    exact (collect_scan listed ok).1
  · intro scannable
    obtain ⟨sample,ok⟩ := collect_ok listed stat meminfo scannable started finished
    exact ⟨sample,ok,collect_accounts own listed ok⟩

/-- One process with the given `stat`, and empty system files. -/
def machine (stat : ByteArray) : FileSystem where
  read path :=
    if path = ["stat".toList] ∨ path = ["meminfo".toList] then .ok ByteArray.empty
    else if path = ["7".toList,"stat".toList] then .ok stat
    else .error ⟨.notFound,some 2⟩
  readDir path := if path = [] then .ok [.ok "7".toUTF8,.ok "self".toUTF8] else .error ⟨.notFound,some 2⟩
  readLink _ _ := .error ⟨.notFound,some 2⟩

def asciiStat : ByteArray := "7 (cafe) S 1 7 7 0 -1 0 0 0 0 0 5 6 0 0 20 0 1 0 100 4096 1".toUTF8

/-- The name is in Latin-1, so its last byte is not UTF-8. -/
def latinStat : ByteArray :=
  "7 (caf".toUTF8 ++ ⟨#[0xe9]⟩ ++ ") S 1 7 7 0 -1 0 0 0 0 0 5 6 0 0 20 0 1 0 100 4096 1".toUTF8

/-- A process whose counters are withheld, one that exits, and one whose `stat` is cut short. -/
def crowd : FileSystem where
  read path :=
    if path = ["stat".toList] ∨ path = ["meminfo".toList] then .ok ByteArray.empty
    else if path = ["7".toList,"stat".toList] then .ok asciiStat
    else if path = ["7".toList,"io".toList] then .error ⟨.permissionDenied,some 13⟩
    else if path = ["9".toList,"stat".toList] then .ok "9 (cut".toUTF8
    else .error ⟨.notFound,some 2⟩
  readDir path :=
    if path = [] then .ok [.ok "7".toUTF8,.ok "self".toUTF8,.ok "8".toUTF8,.ok "9".toUTF8]
    else .error ⟨.permissionDenied,some 13⟩
  readLink _ _ := .error ⟨.notFound,some 2⟩

theorem collect_exact_crowd : ∃ sample, Collector.collect ⟨[],true⟩ crowd 0 1 = .ok sample ∧
    Accounts ⟨[],true⟩ crowd [7,8,9] sample := by
  have text : crowd.readToString ["7".toList,"stat".toList] =
      .ok "7 (cafe) S 1 7 7 0 -1 0 0 0 0 0 5 6 0 0 20 0 1 0 100 4096 1".toList := by decide +kernel
  have gone : crowd.readToString ["8".toList,"stat".toList] = .error ⟨.notFound,some 2⟩ := by decide +kernel
  have cut : crowd.readToString ["9".toList,"stat".toList] = .ok "9 (cut".toList := by decide +kernel
  have own : OwnStat ⟨[],true⟩ crowd [7,8,9] := by
    intro pid member s stat read parsed
    simp only [List.mem_cons,List.not_mem_nil,or_false] at member
    rcases member with rfl | rfl | rfl
    · obtain rfl := Except.ok.inj (text.symm.trans read)
      have value : parsePidStat "7 (cafe) S 1 7 7 0 -1 0 0 0 0 0 5 6 0 0 20 0 1 0 100 4096 1".toList =
          some ⟨7,"cafe".toList,'S',1,5,6,1,100,4096,1⟩ := by decide +kernel
      obtain rfl := Option.some.inj (value.symm.trans parsed)
      rfl
    · cases gone.symm.trans read
    · obtain rfl := Except.ok.inj (cut.symm.trans read)
      have malformed : parsePidStat "9 (cut".toList = none := by decide +kernel
      cases malformed.symm.trans parsed
  have system : ∀ file, file = "stat".toList ∨ file = "meminfo".toList → crowd.readToString [file] = .ok [] := by
    intro file known
    rcases known with rfl | rfl <;> decide +kernel
  refine (collect_exact ⟨[],true⟩ crowd [7,8,9] 0 1 (by decide +kernel) own
    ⟨_,system _ (.inl rfl)⟩ ⟨_,system _ (.inr rfl)⟩).mpr ?_
  intro pid member
  rw [scannable_iff]
  simp only [List.mem_cons,List.not_mem_nil,or_false] at member
  rcases member with rfl | rfl | rfl
  · exact .inl ⟨_,text⟩
  · exact .inr ⟨_,gone,rfl⟩
  · exact .inl ⟨_,cut⟩

theorem latin_name_aborts : Collector.listPids ⟨[],false⟩ (machine latinStat) = .ok [7] ∧
    OwnStat ⟨[],false⟩ (machine latinStat) [7] ∧
    (machine latinStat).readToString ["stat".toList] = .ok [] ∧
    (machine latinStat).readToString ["meminfo".toList] = .ok [] ∧
    ¬ ∃ sample, Collector.collect ⟨[],false⟩ (machine latinStat) 0 1 = .ok sample ∧
      Accounts ⟨[],false⟩ (machine latinStat) [7] sample := by
  have listed : Collector.listPids ⟨[],false⟩ (machine latinStat) = .ok [7] := by decide +kernel
  have refused : (machine latinStat).readToString ["7".toList,"stat".toList] =
      .error ⟨.invalidData,none⟩ := by decide +kernel
  refine ⟨listed,?_,by decide +kernel,by decide +kernel,?_⟩
  · intro pid member s stat read
    obtain rfl := List.mem_singleton.mp member
    cases refused.symm.trans read
  · intro collected
    obtain ⟨sample,ok,_⟩ := collected
    have scannable := (scannable_iff _ _ _).mp ((collect_scan listed ok).1 7 (by simp))
    rcases scannable with ⟨_,read⟩ | ⟨e,failed,exit⟩
    · cases refused.symm.trans read
    · obtain rfl := Except.error.inj (refused.symm.trans failed)
      exact absurd exit (by decide)

end Vitals.CollectorScan
