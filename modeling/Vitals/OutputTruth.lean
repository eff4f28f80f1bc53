import Vitals.ProgramOutput
import Vitals.MachineScan
import Vitals.DeltaRates

/-! What a line of the output says is true of the machine that was looked at, from the files of its
process directory to the text that is written. -/
namespace Vitals.OutputTruth
open Kernel Library Semantics Text Json ProgramOutput

/-- Every scan of the run is one by the collector of the options, over whatever the files were then. -/
def Collects (o : Options) (actions : List MainAction) : Prop :=
  ∀ turn ∈ scans (worldActions actions), ∃ fs started finished, turn.result = o.collector.collect fs started finished

/-- The scan of a turn looked at a machine. -/
def Watched (c : Collector) (turn : Cycle) (m : Machine) : Prop :=
  ∃ fs started finished, m.Shown c fs ∧ turn.result = c.collect fs started finished

/-- What the object of a process tells of it as the machine has it. Rates are only there for
counters that may be read. -/
structure ShowsTask (sys : SysConst) (t : Task) (v : Json) : Prop where
  pid : v.get "pid" = some (.number t.stat.pid.toInt)
  ppid : v.get "ppid" = some (.number t.stat.ppid.toInt)
  comm : v.get "comm" = some (.string t.stat.comm)
  rss : v.get "rss" = some (.number (t.resident sys % 2^64 : Nat))
  threads : v.get "threads" = some (.number t.stat.numThreads.toInt)
  withheld : ∀ e, t.io = .error e → v.get "read_bps" = some .null ∧ v.get "write_bps" = some .null

structure ShowsSystem (m : Machine) (v : Json) : Prop where
  total : v.get "mem_total" = some (.number (bytes m.memory .total))
  processes : v.get "proc_count" = some (.number m.tasks.length)
  vanished : (m.directory.filterMap Entry.pid?).length < 2^32 → v.get "vanished" =
    some (.number ((m.directory.filterMap Entry.pid?).countP (fun pid => pid ∉ m.tasks.map (fun t => t.stat.pid))))

/-- A line that lists as many processes of the machine as it may, each as it is and none twice. -/
structure TellsMachine (sys : SysConst) (top : Nat) (m : Machine) (line : Str) : Prop where
  told : ∃ members system procs tasks, decode line = some (.object members) ∧
    (Json.object members).get "system" = some system ∧ ShowsSystem m system ∧
    (Json.object members).get "procs" = some (.array procs) ∧ List.Forall₂ (ShowsTask sys) tasks procs ∧
    (∀ t ∈ tasks, t ∈ m.tasks) ∧ (tasks.map (fun t => t.stat.pid)).Nodup ∧ tasks.length = min top m.tasks.length

section
variable {R : Rounding} {P : Fixed3} {sys : SysConst} {c : Collector} {m : Machine} {sample prev : Sample}
variable {order : Iteration (Σ _ : ProcKey, ProcSample)}

private theorem exists_forall₂ {α β : Type} {holds : α → β → Prop} {l : List α} (each : ∀ a ∈ l, ∃ b, holds a b) :
    ∃ l', List.Forall₂ holds l l' := by
  induction l with
  | nil => exact ⟨[],.nil⟩
  | cons a l ih =>
    obtain ⟨⟨b,first⟩,others⟩ := List.forall_mem_cons.mp each
    obtain ⟨l',rest⟩ := ih others
    exact ⟨b :: l',.cons first rest⟩

private theorem keys_perm (recovered : m.Recovered c sample) :
    sample.procs.keys.Perm (m.tasks.map (fun t => t.stat.key)) := by
  have distinct : (m.tasks.map (fun t => t.stat.key)).Nodup := by
    refine List.Nodup.of_map ProcKey.pid ?_
    rw [List.map_map]
    exact m.distinct
  rw [List.perm_ext_iff_of_nodup sample.procs.keys_nodup distinct]
  intro key
  have known : key ∈ sample.procs.keys ↔ ∃ entry, sample.procs.lookup key = some entry := by
    rw [← AList.mem_keys,← AList.lookup_isSome,Option.isSome_iff_exists]
  rw [known,List.mem_map]
  constructor
  · rintro ⟨entry,found⟩
    obtain ⟨t,inside,rfl⟩ := recovered.nothingElse key entry found
    exact ⟨t,inside,rfl⟩
  · rintro ⟨t,inside,rfl⟩
    obtain ⟨entry,found,_⟩ := recovered.recorded t inside
    exact ⟨entry,found⟩

private theorem rates_withheld (R : Rounding) (sys : SysConst) (secs : F64) (key : ProcKey) (p : Option ProcSample)
    {entry : ProcSample} (unread : entry.io = none) :
    (procRate R sys secs key p entry).readBps = none ∧ (procRate R sys secs key p entry).writeBps = none := by
  constructor <;> simp [procRate,unread]

private theorem toNat_rssBytes (sys : SysConst) (t : Task) : (t.stat.rssBytes sys).toNat = t.resident sys % 2^64 := by
  unfold PidStat.rssBytes Task.resident
  split_ifs with none_
  · have negative : t.stat.rssPages.toInt ≤ 0 := Int64.le_iff_toInt_le.mp none_
    rw [Int.toNat_of_nonpos negative,Nat.zero_mul]
    rfl
  · have pages : t.stat.rssPages.toUInt64.toNat = t.stat.rssPages.toInt.toNat :=
      Int64.toNat_toUInt64_of_le (Int64.le_of_lt (Int64.not_le.mp none_))
    rw [UInt64.toNat_mul,pages]

private theorem task_of_rate (recovered : m.Recovered c sample) {p : ProcRate}
    (listed : p ∈ (diff R sys order prev sample).procs) :
    ∃ t ∈ m.tasks, p.key = t.stat.key ∧ ∀ v, JsonOutput.ShowsProc P p v → ShowsTask sys t v := by
  obtain ⟨key,entry,found,rfl⟩ := (DeltaRates.mem_diff R sys order prev sample p).mp listed
  obtain ⟨t,inside,rfl⟩ := recovered.nothingElse key entry found
  obtain ⟨entry',found',record⟩ := recovered.recorded t inside
  obtain rfl := Option.some.inj (found.symm.trans found')
  refine ⟨t,inside,rfl,?_⟩
  intro v shows
  have stat := record.stat
  refine ⟨?_,?_,?_,?_,?_,?_⟩
  · rw [← stat]
    exact shows.pid
  · rw [← stat]
    exact shows.ppid
  · rw [← stat]
    exact shows.comm
  · rw [← toNat_rssBytes,← stat]
    exact shows.rss
  · rw [← stat]
    exact shows.threads
  · intro e refused
    have unread : entry.io = none := by
      have io := record.io
      rw [refused] at io
      cases here : entry.io with
      | none => rfl
      | some io_ => rw [here] at io; exact io.elim
    obtain ⟨read,write⟩ := rates_withheld R sys (asSecsF64 R (sample.instant-prev.instant)) t.stat.key
      (prev.procs.lookup t.stat.key) unread
    obtain ⟨rate,shown,number⟩ := shows.readBps
    obtain ⟨rate',shown',number'⟩ := shows.writeBps
    rw [number.null.mpr (by rw [read]; exact nofun)] at shown
    rw [number'.null.mpr (by rw [write]; exact nofun)] at shown'
    exact ⟨shown,shown'⟩

private theorem showsSystem (recovered : m.Recovered c sample) {v : Json}
    (shows : JsonOutput.ShowsSystem R P (diff R sys order prev sample).system v) : ShowsSystem m v := by
  have counted : sample.procs.entries.length = m.tasks.length := by
    have length := (keys_perm recovered).length_eq
    rw [List.length_map] at length
    rw [← length]
    exact (List.length_map _).symm
  refine ⟨?_,?_,?_⟩
  · rw [← recovered.memory .total nofun]
    exact shows.memTotal
  · rw [← counted]
    exact shows.procCount
  · intro few
    have gone := recovered.vanished
    have total := congrArg UInt32.toNat gone
    have most : ∀ p : Int32 → Bool, (m.directory.filterMap Entry.pid?).countP p < 2^32 :=
      fun p => List.countP_le_length.trans_lt few
    rw [UInt32.toNat_ofNat_of_lt' (most _)] at total
    rw [← total]
    exact shows.vanished

private theorem listed_length (recovered : m.Recovered c sample) :
    (diff R sys order prev sample).procs.length = m.tasks.length := by
  have all := ((DeltaRates.diff_keys R sys order prev sample).trans (keys_perm recovered)).length_eq
  rwa [List.length_map,List.length_map] at all

/-- Different identities belong to different processes, and these have different pids. -/
theorem pids_nodup {procs : List ProcRate} {tasks : List Task} (distinct : (procs.map ProcRate.key).Nodup)
    (matched : List.Forall₂ (fun p t => t ∈ m.tasks ∧ p.key = t.stat.key ∧
      ∀ v, JsonOutput.ShowsProc P p v → ShowsTask sys t v) procs tasks) :
    (∀ t ∈ tasks, t ∈ m.tasks) ∧ (tasks.map (fun t => t.stat.pid)).Nodup := by
  have inside : ∀ t ∈ tasks, t ∈ m.tasks := by
    clear distinct
    induction matched with
    | nil => exact nofun
    | cons first _ ih => exact List.forall_mem_cons.mpr ⟨first.1,ih⟩
  have keys : procs.map ProcRate.key = tasks.map (fun t => t.stat.key) := by
    clear distinct inside
    induction matched with
    | nil => rfl
    | cons first _ ih => rw [List.map_cons,List.map_cons,first.2.1,ih]
  rw [keys] at distinct
  refine ⟨inside,(distinct.of_map _).map_on ?_⟩
  intro t left u right same
  exact List.inj_on_of_nodup_map m.distinct (inside t left) (inside u right) same

private theorem forall₂_through {α β γ : Type} {r : α → β → Prop} {s : α → γ → Prop} {l : List α} {l' : List β}
    {l'' : List γ} (left : List.Forall₂ r l l') (right : List.Forall₂ s l l'') :
    List.Forall₂ (fun b c => ∃ a, r a b ∧ s a c) l' l'' := by
  induction left generalizing l'' with
  | nil =>
    cases right
    exact .nil
  | @cons a b _ _ first _ ih =>
    cases right with
    | cons first' rest' => exact .cons ⟨a,first,first'⟩ (ih rest')

private theorem tells_machine (recovered : m.Recovered c sample) (shared : Shared) (top : Nat) :
    TellsMachine sys top m (renderJson R P (diff R sys order prev sample) shared top) := by
  let snap := diff R sys order prev sample
  obtain ⟨members,system,procs,_,_,_,decoded,one,shown,two,listed,_,_⟩ :=
    JsonOutput.renderJson_decodes R P snap shared top
  have each : ∀ p ∈ snap.procs.take top, ∃ t ∈ m.tasks, p.key = t.stat.key ∧
      ∀ v, JsonOutput.ShowsProc P p v → ShowsTask sys t v :=
    fun p listed => task_of_rate recovered (List.mem_of_mem_take listed)
  obtain ⟨tasks,matched⟩ := exists_forall₂ each
  have keys : ((snap.procs.take top).map ProcRate.key).Nodup :=
    (DeltaRates.diff_distinct R sys order prev sample).sublist ((List.take_sublist top snap.procs).map _)
  obtain ⟨inside,pids⟩ := pids_nodup keys matched
  refine ⟨members,system,procs,tasks,decoded,one,showsSystem recovered shown,two,?_,inside,pids,?_⟩
  · refine (forall₂_through matched listed).imp ?_
    intro t v both
    obtain ⟨p,same,shows⟩ := both
    exact same.2.2 v shows
  · rw [← matched.length_eq,List.length_take,listed_length recovered]

private theorem last_of_zip_tail {α : Type} {l : List α} {a b : α} (last : (l.zip l.tail).getLast? = some (a,b)) :
    l.getLast? = some b := by
  rw [List.getLast?_eq_getElem?,List.getElem?_zip_eq_some,List.getElem?_tail] at last
  obtain ⟨inside,_⟩ := List.getElem?_eq_some_iff.mp last.2
  rw [List.getLast?_eq_getElem?,← last.2]
  congr 1
  rw [List.length_zip,List.length_tail] at inside ⊢
  omega

private theorem last_compared {turns : List Cycle} {snap : Snapshot}
    (found : (snapshots R sys turns).getLast? = some snap) :
    ∃ prev turn sample, (successes turns).getLast? = some (turn,sample) ∧ snap = diff R sys turn.procOrder prev sample := by
  rw [snapshots,List.getLast?_map] at found
  obtain ⟨⟨before,after⟩,last,rfl⟩ := Option.map_eq_some_iff.mp found
  exact ⟨before.2,after.1,after.2,last_of_zip_tail last,rfl⟩

private theorem success_scanned {turns : List Cycle} {turn : Cycle}
    (last : (successes turns).getLast? = some (turn,sample)) :
    turn ∈ turns ∧ turn.result = .ok sample := by
  obtain ⟨turn',member,shown⟩ := List.mem_filterMap.mp (List.mem_of_getLast? last)
  rw [scanned] at shown
  cases result : turn'.result with
  | error e =>
    rw [result] at shown
    cases shown
  | ok sample' =>
    rw [result] at shown
    cases shown
    exact ⟨member,result⟩

variable {display : IoError → Str} {o : Options} {rules : List Rule} {began : Nat} {actions : List MainAction} {p : Program}

/-- Every line of the output tells of the machine that the last successful scan of the turns it
shows has looked at: as many of its processes as may be listed, with their own names and numbers,
none twice and none that was not there. Where the scans are those of the collector that the options
ask for, it is the machine whose files were under the root at that scan. -/
theorem output_true (run : Run (ProgramStep R P sys display o) (begun rules began) actions p) (json : o.json = true) :
    ∃ views : List (List Cycle), views.Pairwise (· <+: ·) ∧ (∀ turns ∈ views, turns <+: scans (worldActions actions)) ∧
      List.Forall₂ (fun turns line => ∃ turn ∈ turns, ∃ sample, (successes turns).getLast? = some (turn,sample) ∧
        (∀ c m, Watched c turn m → TellsMachine sys o.top m line) ∧
        (Collects o actions → ∃ fs started finished, turn.result = o.collector.collect fs started finished ∧
          ∀ m : Machine, m.Shown o.collector fs → TellsMachine sys o.top m line)) views (lines p.out) := by
  obtain ⟨views,grows,_,within,wrote⟩ := json_written run json
  refine ⟨views,grows,within,?_⟩
  refine ((List.forall₂_and_left _ _).mpr ⟨within,wrote⟩).imp ?_
  intro turns line wrote
  obtain ⟨known,snap,found,rfl⟩ := wrote
  obtain ⟨prev,turn,sample,last,rfl⟩ := last_compared found
  obtain ⟨member,result⟩ := success_scanned last
  have tells : ∀ c m, Watched c turn m → TellsMachine sys o.top m
      (renderJson R P (diff R sys turn.procOrder prev sample) (sharedAfter R sys display rules turns) o.top) := by
    intro c m watched
    obtain ⟨fs,started,finished,shown,collected⟩ := watched
    exact tells_machine (MachineScan.collect_recovered shown (collected.symm.trans result)) _ o.top
  refine ⟨turn,member,sample,last,tells,?_⟩
  intro collects
  obtain ⟨fs,started,finished,collected⟩ := collects turn (known.subset member)
  exact ⟨fs,started,finished,collected,fun m shown => tells _ m ⟨fs,started,finished,shown,collected⟩⟩

private theorem collect_instant {fs : FileSystem} {started finished : Nat}
    (ok : c.collect fs started finished = .ok sample) :
    sample.instant = started := by
  obtain ⟨_,_,ok⟩ := Fallible.bind_ok.mp ok
  obtain ⟨_,_,ok⟩ := Fallible.bind_ok.mp ok
  obtain ⟨_,_,ok⟩ := Fallible.bind_ok.mp ok
  obtain ⟨_,_,ok⟩ := Fallible.bind_ok.mp ok
  obtain rfl := Except.ok.inj ok
  rfl

end

def looking : Cycle where
  result := onceJson.collector.collect MachineScan.smallFiles 0 0
  now := 0
  procOrder := .stored _
  stateOrder := .stored _
  activeOrder := .stored _
  clock := fun _ => 0

private theorem looking_timed : Timed 0 0 looking where
  started := Nat.le_refl 0
  reported := fun _ => Nat.le_refl 0
  past := fun _ => Nat.le_refl 0
  taken := by
    intro cur ok
    exact ⟨Nat.zero_le _,(collect_instant ok).le⟩

theorem output_true_small : ∃ (p : Program) (views : List (List Cycle)), p.out ≠ [] ∧
    List.Forall₂ (fun _ line => TellsMachine (sysConst none none) 15 MachineScan.small line) views (lines p.out) := by
  have shown := MachineScan.small_shown
  obtain ⟨_,_,_,sample,_,_,_,ok,_⟩ := MachineScan.collect_shown shown 0 0
  obtain ⟨actions,p,run,_,some_,turns⟩ := document_written looking_timed ok
  obtain ⟨views,_,within,told⟩ := output_true run rfl
  refine ⟨p,views,some_,?_⟩
  have shows := (List.forall₂_and_left _ _).mpr ⟨within,told⟩
  refine shows.imp ?_
  intro view line both
  obtain ⟨inside,turn,member,_,_,tells,_⟩ := both
  have same : turn = looking := by simpa [turns] using inside.subset member
  exact tells _ _ ⟨_,0,0,shown,same ▸ rfl⟩

end Vitals.OutputTruth
