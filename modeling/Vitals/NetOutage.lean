import Vitals.NetTraffic
import Vitals.Library.Fallible

/-! Runs in which the interfaces cannot be read at times: a failed reading stands for an
empty one, so the next reading is compared with nothing. -/
namespace Vitals.NetOutage
open Kernel Semantics Text Word NetTraffic DeltaRates Fallible

private theorem counted_cons (counter : NetDev → UInt64) (n : NetDev) (nets : List NetDev) :
    counted counter (n :: nets) = (if n.name ≠ "lo".toList then (counter n).toNat else 0) + counted counter nets := by
  unfold counted external
  by_cases outside : n.name ≠ "lo".toList
  · rw [List.filter_cons_of_pos (by simpa using outside),if_pos outside]
    rfl
  · rw [List.filter_cons_of_neg (by simpa using outside),if_neg outside,Nat.zero_add]

private theorem counted_advances {counter : NetDev → UInt64} (known : counter ∈ [NetDev.rxBytes,NetDev.txBytes])
    {prev cur : List NetDev} (advances : Advances prev cur) : counted counter prev ≤ counted counter cur := by
  obtain ⟨paired,perm,forward⟩ := advances
  have same : counted counter cur = counted counter paired := counted_perm counter (perm.filter _)
  rw [same]
  clear perm same
  induction forward with
  | nil => exact Nat.le_refl _
  | @cons p n prev paired step _ ih =>
    obtain ⟨name,rx,tx⟩ := step
    have grown : (counter p).toNat ≤ (counter n).toNat := by
      rcases List.mem_pair.mp known with rfl | rfl
      · exact UInt64.le_iff_toNat_le.mp rx
      · exact UInt64.le_iff_toNat_le.mp tx
    rw [counted_cons,counted_cons,name]
    split_ifs <;> omega

/-- A rate that accounts for no more than so many bytes within a time in nanoseconds. -/
def AtMost (bps : F64) (duration : Nat) (amount : ℚ) : Prop :=
  ∃ q, bps = .fin q ∧ 0 ≤ q ∧ q*(duration/10^9) ≤ amount

private theorem rate_atMost_iff {cur prev : UInt64} {duration : Nat} (amount : Nat) :
    AtMost (rate .exact cur prev (asSecsF64 .exact duration)) duration amount ↔
      duration = 0 ∨ cur.toNat - prev.toNat ≤ amount := by
  rcases Nat.eq_zero_or_pos duration with rfl | running
  · have stopped : rate .exact cur prev (asSecsF64 .exact 0) = .fin 0 := by
      rw [rate,asSecsF64_exact,if_pos (by simp)]
    exact ⟨fun _ => .inl rfl,fun _ => ⟨0,stopped,le_refl 0,by simp⟩⟩
  · have secs : (duration : ℚ)/10^9 ≠ 0 := by positivity
    rw [AtMost,rate_exact cur prev running]
    refine ⟨?_,?_⟩
    · intro bounded
      obtain ⟨q,same,_,bounded⟩ := bounded
      rw [← F64.fin.inj same,div_mul_cancel₀ _ secs] at bounded
      exact .inr (by exact_mod_cast bounded)
    · intro bounded
      rcases bounded with still | bounded
      · omega
      · refine ⟨_,rfl,by positivity,?_⟩
        rw [div_mul_cancel₀ _ secs]
        exact_mod_cast bounded

private theorem collect_nets {c : Collector} {fs : FileSystem} {started finished : Nat} {sample : Sample}
    (ok : c.collect fs started finished = .ok sample) :
    sample.nets = match fs.readToString (c.root ++ ["net".toList,"dev".toList]) with
      | .ok text => parseNetDev text
      | .error _ => [] := by
  obtain ⟨_,_,ok⟩ := bind_ok.mp ok
  obtain ⟨_,_,ok⟩ := bind_ok.mp ok
  obtain ⟨_,_,ok⟩ := bind_ok.mp ok
  obtain ⟨_,_,ok⟩ := bind_ok.mp ok
  exact (congrArg Sample.nets (Except.ok.inj ok)).symm

section
variable {c : Collector} {fs : Nat → FileSystem} {s : Nat → Sample}

private theorem nets_unread (run : NetRun c fs s) {i : Nat} (failed : netReadable c fs i = false) :
    (s i).nets = [] := by
  obtain ⟨started,finished,ok⟩ := run.collected i
  rw [collect_nets ok]
  cases read : (fs i).readToString (c.root ++ ["net".toList,"dev".toList]) with
  | ok text =>
    rw [netReadable,read] at failed
    cases failed
  | error e => rfl

private theorem lastRead_readable {i j : Nat} (last : lastRead c fs i = some j) :
    j ≤ i ∧ netReadable c fs j = true := by
  induction i with
  | zero =>
    rw [lastRead] at last
    split_ifs at last with here
    obtain rfl := Option.some.inj last
    exact ⟨Nat.le_refl 0,here⟩
  | succ i ih =>
    rw [lastRead] at last
    split_ifs at last with here
    · obtain rfl := Option.some.inj last
      exact ⟨Nat.le_refl _,here⟩
    · obtain ⟨before,read⟩ := ih last
      exact ⟨Nat.le_succ_of_le before,read⟩

private theorem lastRead_here {i : Nat} (here : netReadable c fs i = true) : lastRead c fs i = some i := by
  cases i with
  | zero => rw [lastRead,if_pos here]
  | succ i => rw [lastRead,if_pos here]

/-- What the last reading had counted since boot, or the next one where there was none. -/
def baseline (c : Collector) (fs : Nat → FileSystem) (s : Nat → Sample) (counter : NetDev → UInt64) (i : Nat) : Nat :=
  counted counter (s ((lastRead c fs i).getD (i+1))).nets

private theorem increase_read {i : Nat} (counter : NetDev → UInt64) (read : netReadable c fs (i+1) = true) :
    increase c fs s counter i = counted counter (s (i+1)).nets - baseline c fs s counter i := by
  unfold increase baseline
  rw [if_pos read]
  cases lastRead c fs i with
  | none => exact (Nat.sub_self _).symm
  | some j => rfl

private theorem baseline_le (run : NetRun c fs s) {counter : NetDev → UInt64}
    (known : counter ∈ [NetDev.rxBytes,NetDev.txBytes]) {i : Nat} (read : netReadable c fs (i+1) = true) :
    baseline c fs s counter i ≤ counted counter (s (i+1)).nets := by
  unfold baseline
  cases last : lastRead c fs i with
  | none => exact Nat.le_refl _
  | some j =>
    obtain ⟨before,readable⟩ := lastRead_readable last
    exact counted_advances known (run.advances j (i+1) (by omega) readable read)

/-- The interfaces could be read before, or cannot be read now, or no time has passed, or
nothing had been counted yet. -/
def Clean (c : Collector) (fs : Nat → FileSystem) (s : Nat → Sample) (i : Nat) : Prop :=
  netReadable c fs i = true ∨ netReadable c fs (i+1) = false ∨ (s (i+1)).instant ≤ (s i).instant ∨
    ∀ counter ∈ [NetDev.rxBytes,NetDev.txBytes], baseline c fs s counter i = 0

/-- What a rate is worked out from is part of the increase since the last reading. -/
theorem counted_increase (run : NetRun c fs s) {i : Nat} (clean : Clean c fs s i)
    (running : (s i).instant < (s (i+1)).instant) {counter : NetDev → UInt64}
    (known : counter ∈ [NetDev.rxBytes,NetDev.txBytes]) :
    counted counter (s (i+1)).nets % 2^64 - counted counter (s i).nets % 2^64 ≤ increase c fs s counter i := by
  cases read : netReadable c fs (i+1) with
  | false =>
    have nothing : counted counter (s (i+1)).nets = 0 := by
      rw [nets_unread run read]
      rfl
    omega
  | true =>
    have below := baseline_le run known read
    rw [increase_read counter read]
    rcases clean with before | failed | still | fresh
    · have last : baseline c fs s counter i = counted counter (s i).nets := by
        rw [baseline,lastRead_here before]
        rfl
      omega
    · simp [read] at failed
    · omega
    · have start := fresh counter known
      omega

/-- Otherwise what had been counted before is counted again. -/
theorem baseline_zero (run : NetRun c fs s) {i : Nat} (failed : netReadable c fs i = false)
    (read : netReadable c fs (i+1) = true) {counter : NetDev → UInt64}
    (known : counter ∈ [NetDev.rxBytes,NetDev.txBytes]) (fits : counted counter (s (i+1)).nets < 2^64)
    (bounded : counted counter (s (i+1)).nets % 2^64 - counted counter (s i).nets % 2^64 ≤ increase c fs s counter i) :
    baseline c fs s counter i = 0 := by
  have below := baseline_le run known read
  have nothing : counted counter (s i).nets = 0 := by
    rw [nets_unread run failed]
    rfl
  rw [increase_read counter read,nothing,Nat.mod_eq_of_lt fits] at bounded
  omega

variable (sys : SysConst) (order : Iteration (Σ _ : ProcKey, ProcSample))

/-- What is reported for scan `i+1` is at most what the interfaces have counted since the
last reading, and nothing if there is none or the scan could not read them. -/
structure NoPhantom (c : Collector) (fs : Nat → FileSystem) (s : Nat → Sample) (i : Nat) : Prop where
  rx : AtMost (diff .exact sys order (s i) (s (i+1))).system.netRxBps ((s (i+1)).instant-(s i).instant)
    (increase c fs s NetDev.rxBytes i)
  tx : AtMost (diff .exact sys order (s i) (s (i+1))).system.netTxBps ((s (i+1)).instant-(s i).instant)
    (increase c fs s NetDev.txBytes i)

private theorem noPhantom_iff (i : Nat) : NoPhantom sys order c fs s i ↔ ∀ counter ∈ [NetDev.rxBytes,NetDev.txBytes],
    (s (i+1)).instant-(s i).instant = 0 ∨
      counted counter (s (i+1)).nets % 2^64 - counted counter (s i).nets % 2^64 ≤ increase c fs s counter i := by
  have rx : AtMost (diff .exact sys order (s i) (s (i+1))).system.netRxBps ((s (i+1)).instant-(s i).instant)
      (increase c fs s NetDev.rxBytes i) ↔ _ := rate_atMost_iff _
  have tx : AtMost (diff .exact sys order (s i) (s (i+1))).system.netTxBps ((s (i+1)).instant-(s i).instant)
      (increase c fs s NetDev.txBytes i) ↔ _ := rate_atMost_iff _
  rw [sumNet_rx,sumNet_rx] at rx
  rw [sumNet_tx,sumNet_tx] at tx
  simp only [List.mem_cons,List.not_mem_nil,or_false,forall_eq_or_imp,forall_eq]
  rw [← rx,← tx]
  exact ⟨fun reported => ⟨reported.rx,reported.tx⟩,fun reported => ⟨reported.1,reported.2⟩⟩

/-- No traffic is made up as long as no reading follows a failed one; where one does, the
totals since boot are reported again. -/
theorem outage_exact (run : NetRun c fs s) :
    ∀ i, (Clean c fs s i → NoPhantom sys order c fs s i) ∧
      ((∀ counter ∈ [NetDev.rxBytes,NetDev.txBytes], counted counter (s (i+1)).nets < 2^64) →
        NoPhantom sys order c fs s i → Clean c fs s i) := by
  intro i
  rw [noPhantom_iff]
  refine ⟨?_,?_⟩
  · intro clean counter known
    rcases Nat.eq_zero_or_pos ((s (i+1)).instant-(s i).instant) with still | running
    · exact .inl still
    · exact .inr (counted_increase run clean (by omega) known)
  · intro fits bounded
    cases before : netReadable c fs i with
    | true => exact .inl before
    | false =>
      cases read : netReadable c fs (i+1) with
      | false => exact .inr (.inl read)
      | true =>
        rcases Nat.eq_zero_or_pos ((s (i+1)).instant-(s i).instant) with still | running
        · exact .inr (.inr (.inl (Nat.sub_eq_zero_iff_le.mp still)))
        · refine .inr (.inr (.inr ?_))
          intro counter known
          rcases bounded counter known with still | amount
          · omega
          · exact baseline_zero run before read known (fits counter known) amount

end
def table : String :=
  "Inter-|   Receive          |  Transmit\n face |bytes packets errs|bytes packets errs\n" ++
  "  eth0: 1000 5 0 0 0 0 0 0 500 4 0 0 0 0 0 0\n"

def host (net : Except IoError ByteArray) : FileSystem where
  read path :=
    if path = ["stat".toList] ∨ path = ["meminfo".toList] then .ok ByteArray.empty
    else if path = ["net".toList,"dev".toList] then net
    else .error ⟨.notFound,some 2⟩
  readDir path := if path = [] then .ok [] else .error ⟨.notFound,some 2⟩
  readLink _ _ := .error ⟨.notFound,some 2⟩

/-- The second scan is denied the interfaces. -/
def flaky (i : Nat) : FileSystem :=
  if i = 1 then host (.error ⟨.permissionDenied,some 13⟩) else host (.ok table.toUTF8)

def observed (i : Nat) : Sample :=
  ⟨i*10^9,parseProcStat [],parseMeminfo [],if i = 1 then [] else parseNetDev table.toList,∅,0,0,0⟩

private theorem host_system (net : Except IoError ByteArray) {path : List Str}
    (system : path = ["stat".toList] ∨ path = ["meminfo".toList]) : (host net).readToString path = .ok [] :=
  FileSystem.readToString_text "" (if_pos system)

private theorem host_net (net : Except IoError ByteArray) : (host net).read ["net".toList,"dev".toList] = net := by
  have other : ¬ (["net".toList,"dev".toList] = ["stat".toList] ∨ ["net".toList,"dev".toList] = ["meminfo".toList]) := by
    decide +kernel
  unfold host
  dsimp only
  rw [if_neg other,if_pos rfl]

private theorem host_collect (net : Except IoError ByteArray) (started finished : Nat) :
    Collector.collect ⟨[],false⟩ (host net) started finished = .ok ⟨started,parseProcStat [],parseMeminfo [],
      match (host net).readToString ["net".toList,"dev".toList] with
      | .ok text => parseNetDev text
      | .error _ => [],∅,0,0,finished-started⟩ := by
  have stat := host_system net (.inl rfl)
  have meminfo := host_system net (.inr rfl)
  have listed : Collector.listPids ⟨[],false⟩ (host net) = .ok [] := rfl
  exact bind_ok.mpr ⟨_,stat,bind_ok.mpr ⟨_,meminfo,bind_ok.mpr ⟨_,listed,bind_ok.mpr ⟨_,rfl,rfl⟩⟩⟩⟩

private theorem flaky_net (i : Nat) : (flaky i).readToString ["net".toList,"dev".toList] =
    if i = 1 then .error ⟨.permissionDenied,some 13⟩ else .ok table.toList := by
  unfold flaky
  split_ifs
  · exact FileSystem.readToString_error (host_net _)
  · exact FileSystem.readToString_text _ (host_net _)

private theorem flaky_readable (i : Nat) : netReadable ⟨[],false⟩ flaky i = true ↔ i ≠ 1 := by
  have read := flaky_net i
  change ((flaky i).readToString ["net".toList,"dev".toList]).isOk = true ↔ _
  rw [read]
  by_cases denied : i = 1
  · simp [denied,Except.isOk,Except.toBool]
  · simp [denied,Except.isOk,Except.toBool]

private theorem flaky_collected (i : Nat) :
    Collector.collect ⟨[],false⟩ (flaky i) (i*10^9) (i*10^9) = .ok (observed i) := by
  have read := flaky_net i
  unfold observed
  by_cases denied : i = 1
  · rw [if_pos denied] at read ⊢
    rw [flaky,if_pos denied] at read ⊢
    rw [host_collect,read,Nat.sub_self]
  · rw [if_neg denied] at read ⊢
    rw [flaky,if_neg denied] at read ⊢
    rw [host_collect,read,Nat.sub_self]

private theorem flaky_run : NetRun ⟨[],false⟩ flaky observed := by
  refine ⟨?_,?_⟩
  · intro i
    exact ⟨_,_,flaky_collected i⟩
  · intro i j _ readI readJ
    have same : (observed j).nets = (observed i).nets := by
      simp only [observed,if_neg ((flaky_readable i).mp readI),if_neg ((flaky_readable j).mp readJ)]
    refine ⟨(observed i).nets,same ▸ List.Perm.refl _,?_⟩
    exact List.forall₂_same.mpr (fun n _ => ⟨rfl,UInt64.le_refl _,UInt64.le_refl _⟩)

private theorem observed_counted (i : Nat) (read : i ≠ 1) : counted NetDev.rxBytes (observed i).nets = 1000 := by
  have listed : (observed i).nets = parseNetDev table.toList := if_neg read
  rw [listed]
  decide +kernel

theorem outage_exact_readable : NoPhantom (sysConst none none) (.stored _) ⟨[],false⟩ flaky observed 2 :=
  (outage_exact (sysConst none none) (.stored _) flaky_run 2).1 (.inl ((flaky_readable 2).mpr (by omega)))

/-- After the failed reading, the thousand bytes since boot are one second's traffic. -/
theorem outage_phantom : NetRun ⟨[],false⟩ flaky observed ∧
    ¬ NoPhantom (sysConst none none) (.stored _) ⟨[],false⟩ flaky observed 1 := by
  refine ⟨flaky_run,?_⟩
  intro reported
  have bounded := (noPhantom_iff _ _ 1).mp reported NetDev.rxBytes (by simp)
  have last : lastRead ⟨[],false⟩ flaky 1 = some 0 := by
    rw [lastRead,if_neg (fun read => (flaky_readable 1).mp read rfl),lastRead_here ((flaky_readable 0).mpr (by omega))]
  have still : increase ⟨[],false⟩ flaky observed NetDev.rxBytes 1 = 0 := by
    rw [increase_read _ ((flaky_readable 2).mpr (by omega)),baseline,last,Option.getD_some,
      observed_counted 0 (by omega),observed_counted (1+1) (by omega)]
  rcases bounded with late | bounded
  · exact absurd late (by decide)
  · rw [still,observed_counted (1+1) (by omega)] at bounded
    exact absurd bounded (by decide)

end Vitals.NetOutage
