import Vitals.Semantics.Meter
import Vitals.NetTraffic
import Vitals.SamplerRun

/-! Nothing is lost between the snapshots of a run: whatever scans fail in between, what the
snapshots show adds up to what the kernel has counted. -/
namespace Vitals.RunTotals
open Kernel Semantics DeltaRates NetTraffic

section
variable {sys : SysConst}

private theorem movedBy_rate {cur prev : UInt64} {duration : Nat} (running : 0 < duration) :
    movedBy (rate .exact cur prev (asSecsF64 .exact duration)) duration = ((cur.toNat-prev.toNat : Nat) : ℚ) := by
  have secs : (duration : ℚ)/10^9 ≠ 0 := by positivity
  rw [rate_exact cur prev running,movedBy,div_mul_cancel₀ _ secs]

def elapsed : Meter sys where
  read s := some s.instant
  amount snap := snap.system.interval
  exact := by
    intro order prev cur a b _ before after
    cases before
    cases after
    rfl

/-- A counter of the whole system that is shown as a rate. -/
def systemMeter (counter : Sample → UInt64) (shown : SystemRate → F64)
    (rated : ∀ prev cur, shown (systemRate .exact prev cur) =
      rate .exact (counter cur) (counter prev) (asSecsF64 .exact (cur.instant-prev.instant))) : Meter sys where
  read s := some (counter s).toNat
  amount snap := movedBy (shown snap.system) snap.system.interval
  exact := by
    intro order prev cur a b later before after
    cases before
    cases after
    have duration : 0 < cur.instant-prev.instant := Nat.sub_pos_of_lt later
    change movedBy (shown (systemRate .exact prev cur)) (cur.instant-prev.instant) = _
    rw [rated,movedBy_rate duration]

def contextSwitches : Meter sys := systemMeter (fun s => s.cpu.ctxt) SystemRate.ctxtPerSec (fun _ _ => rfl)

def received : Meter sys := systemMeter (fun s => (sumNet s).1) SystemRate.netRxBps (fun _ _ => rfl)

def sent : Meter sys := systemMeter (fun s => (sumNet s).2.1) SystemRate.netTxBps (fun _ _ => rfl)

private theorem find_diff (R : Rounding) (order : Iteration (Σ _ : ProcKey, ProcSample)) (prev : Sample)
    {cur : Sample} {key : ProcKey} {c : ProcSample} (found : cur.procs.lookup key = some c) :
    (diff R sys order prev cur).procs.find? (fun p => p.key = key) =
      some (procRate R sys (asSecsF64 R (cur.instant-prev.instant)) key (prev.procs.lookup key) c) := by
  have member := (mem_diff R sys order prev cur _).mpr ⟨key,c,found,rfl⟩
  have present : ((diff R sys order prev cur).procs.find? (fun p => p.key = key)).isSome := by
    rw [List.find?_isSome]
    exact ⟨_,member,by simp [procRate]⟩
  obtain ⟨p,chosen⟩ := Option.isSome_iff_exists.mp present
  have about : p.key = key := by simpa using List.find?_some chosen
  obtain ⟨key',c',found',made⟩ := (mem_diff R sys order prev cur p).mp (List.mem_of_find?_eq_some chosen)
  have same : key' = key := (congrArg ProcRate.key made).symm.trans about
  subst same
  obtain rfl := Option.some.inj (found'.symm.trans found)
  rw [chosen,made]

def shownOf (key : ProcKey) (amount : ProcRate → Nat → ℚ) (snap : Snapshot) : ℚ :=
  ((snap.procs.find? (fun p => p.key = key)).map (fun p => amount p snap.system.interval)).getD 0

private theorem shownOf_diff (order : Iteration (Σ _ : ProcKey, ProcSample)) {prev cur : Sample} {key : ProcKey}
    {p c : ProcSample} (before : prev.procs.lookup key = some p) (after : cur.procs.lookup key = some c)
    (amount : ProcRate → Nat → ℚ) : shownOf key amount (diff .exact sys order prev cur) =
      amount (procRate .exact sys (asSecsF64 .exact (cur.instant-prev.instant)) key (some p) c)
        (cur.instant-prev.instant) := by
  rw [shownOf,find_diff .exact order prev after,before,Option.map_some,Option.getD_some]
  rfl

def processorTime (key : ProcKey) : Meter sys where
  read s := (s.procs.lookup key).map (fun p => p.stat.cpuTicks.toNat)
  amount := shownOf key (fun p duration => movedBy p.cpuPct duration*sys.clkTck.toNat/100)
  exact := by
    intro order prev cur a b later before after
    obtain ⟨p,old,rfl⟩ := Option.map_eq_some_iff.mp before
    obtain ⟨c,new,rfl⟩ := Option.map_eq_some_iff.mp after
    have duration : 0 < cur.instant-prev.instant := Nat.sub_pos_of_lt later
    have secs : ((cur.instant-prev.instant : Nat) : ℚ)/10^9 ≠ 0 := by positivity
    have hz : (sys.clkTck.toNat : ℚ) ≠ 0 := by
      exact_mod_cast Nat.ne_of_gt (UInt64.lt_iff_toNat_lt.mp sys.clkTck_pos)
    rw [shownOf_diff order old new,cpuPct_exact sys _ key p c duration,movedBy]
    field_simp

def ioMeter (key : ProcKey) (counter : PidIo → UInt64) (shown : ProcRate → Option F64)
    (rated : ∀ (secs : F64) (p c : ProcSample) (pi ci : PidIo), p.io = some pi → c.io = some ci →
      shown (procRate .exact sys secs key (some p) c) = some (rate .exact (counter ci) (counter pi) secs)) :
    Meter sys where
  read s := ((s.procs.lookup key).bind ProcSample.io).map (fun io => (counter io).toNat)
  amount := shownOf key (fun p duration => ((shown p).map (fun bps => movedBy bps duration)).getD 0)
  exact := by
    intro order prev cur a b later before after
    obtain ⟨pi,oldIo,rfl⟩ := Option.map_eq_some_iff.mp before
    obtain ⟨ci,newIo,rfl⟩ := Option.map_eq_some_iff.mp after
    obtain ⟨p,old,pi_⟩ := Option.bind_eq_some_iff.mp oldIo
    obtain ⟨c,new,ci_⟩ := Option.bind_eq_some_iff.mp newIo
    have duration : 0 < cur.instant-prev.instant := Nat.sub_pos_of_lt later
    rw [shownOf_diff order old new,rated _ p c pi ci pi_ ci_,Option.map_some,Option.getD_some,
      movedBy_rate duration]

private theorem io_rated {key : ProcKey} (secs : F64) {p c : ProcSample} {pi ci : PidIo} (before : p.io = some pi)
    (after : c.io = some ci) : let shown := procRate .exact sys secs key (some p) c
    shown.readBps = some (rate .exact ci.readBytes pi.readBytes secs) ∧
    shown.writeBps = some (rate .exact ci.writeBytes pi.writeBytes secs) ∧
    shown.rcharBps = some (rate .exact ci.rchar pi.rchar secs) ∧
    shown.wcharBps = some (rate .exact ci.wchar pi.wchar secs) := by
  simp [procRate,before,after]

/-- Everything a snapshot shows as a rate. -/
def meters (sys : SysConst) (key : ProcKey) : List (Meter sys) :=
  [elapsed,contextSwitches,received,sent,processorTime key,
    ioMeter key PidIo.readBytes ProcRate.readBps (fun secs _ _ _ _ before after => (io_rated secs before after).1),
    ioMeter key PidIo.writeBytes ProcRate.writeBps (fun secs _ _ _ _ before after => (io_rated secs before after).2.1),
    ioMeter key PidIo.rchar ProcRate.rcharBps (fun secs _ _ _ _ before after => (io_rated secs before after).2.2.1),
    ioMeter key PidIo.wchar ProcRate.wcharBps (fun secs _ _ _ _ before after => (io_rated secs before after).2.2.2)]

variable {cycles : List Cycle}

private theorem consecutive_at {i : Nat} {s t : Cycle × Sample} (here : (successes cycles)[i]? = some s)
    (next : (successes cycles)[i+1]? = some t) : (consecutive cycles)[i]? = some (s,t) := by
  rw [consecutive,List.getElem?_zip_eq_some]
  exact ⟨here,by rw [List.getElem?_tail]; exact next⟩

private theorem forward_step (forward : Forward cycles) {i : Nat} {s t : Cycle × Sample}
    (here : (successes cycles)[i]? = some s) (next : (successes cycles)[i+1]? = some t) :
    s.2.instant < t.2.instant := by
  obtain ⟨inside,rfl⟩ := List.getElem?_eq_some_iff.mp here
  obtain ⟨inside',rfl⟩ := List.getElem?_eq_some_iff.mp next
  exact List.pairwise_iff_getElem.mp (List.pairwise_map.mp forward) i (i+1) inside inside' (Nat.lt_succ_self i)

/-- A snapshot of the run shows the growth of every meter that both its scans can read. -/
theorem step_amount (forward : Forward cycles) (m : Meter sys) {i n : Nat} {count : Nat → Nat}
    (metered : Metered m cycles i n count) {k : Nat} (inside : k < n) :
    ∃ snap, (snapshots .exact sys cycles)[i+k]? = some snap ∧
      m.amount snap = ((count (k+1)-count k : Nat) : ℚ) := by
  obtain ⟨s,here,before⟩ := metered k (Nat.le_of_lt inside)
  obtain ⟨t,next,after⟩ := metered (k+1) inside
  refine ⟨compared .exact sys (s,t),?_,m.exact _ _ _ _ _ (forward_step forward here next) before after⟩
  rw [snapshots,List.getElem?_map,consecutive_at here next,Option.map_some]

private theorem window_amounts (forward : Forward cycles) (m : Meter sys) {i n : Nat} {count : Nat → Nat}
    (metered : Metered m cycles i n count) :
    (((snapshots .exact sys cycles).drop i).take n).map m.amount =
      (List.range n).map (fun k => ((count (k+1)-count k : Nat) : ℚ)) := by
  apply List.ext_getElem?
  intro k
  rw [List.getElem?_map,List.getElem?_map,List.getElem?_take,List.getElem?_drop]
  split
  · rename_i inside
    obtain ⟨snap,found,shown⟩ := step_amount forward m metered inside
    rw [found,List.getElem?_range inside,Option.map_some,Option.map_some,shown]
  · rename_i outside
    rw [List.getElem?_eq_none (by rw [List.length_range]; exact Nat.le_of_not_lt outside)]
    rfl

private theorem meter_conserved (forward : Forward cycles) (m : Meter sys) {i n : Nat} {count : Nat → Nat}
    (metered : Metered m cycles i n count) :
    count 0 + m.total (((snapshots .exact sys cycles).drop i).take n) =
        count n + (((List.range n).map (fun k => count k-count (k+1))).sum : Nat) ∧
    ((∀ k < n, count k ≤ count (k+1)) →
      m.total (((snapshots .exact sys cycles).drop i).take n) = count n-count 0) := by
  have series := Growth.telescope count n
  have total : m.total (((snapshots .exact sys cycles).drop i).take n) =
      (((List.range n).map (fun k => count (k+1)-count k)).sum : Nat) := by
    have cast := map_list_sum (Nat.castAddMonoidHom ℚ) ((List.range n).map (fun k => count (k+1)-count k))
    rw [List.map_map] at cast
    rw [Meter.total,window_amounts forward m metered]
    exact cast.symm
  rw [total]
  refine ⟨by exact_mod_cast series,?_⟩
  intro rising
  rw [Growth.no_losses rising] at series
  rw [eq_sub_iff_add_eq']
  exact_mod_cast series

/-- Over any stretch of a run, whatever scans failed in between, what the snapshots show of a meter
adds up to the difference of its readings at the two ends, and to more only by what the counter
itself went back. -/
theorem totals_conserved (forward : Forward cycles) : ∀ key, ∀ m ∈ meters sys key, ∀ i n (count : Nat → Nat),
    Metered m cycles i n count →
    count 0 + m.total (((snapshots .exact sys cycles).drop i).take n) =
        count n + (((List.range n).map (fun k => count k-count (k+1))).sum : Nat) ∧
    ((∀ k < n, count k ≤ count (k+1)) →
      m.total (((snapshots .exact sys cycles).drop i).take n) = count n-count 0) :=
  fun _ m _ _ _ _ metered => meter_conserved forward m metered

end

def scanOf (result : Except IoError Sample) : Cycle :=
  ⟨result,0,.stored _,.stored _,.stored _,fun _ => 0⟩

def interrupted : List Cycle :=
  [scanOf (.ok linkedBefore),scanOf (.error ⟨.notFound,some 2⟩),scanOf (.ok linkedAfter)]

theorem totals_conserved_interrupted : (received : Meter (sysConst none none)).total
    (snapshots .exact (sysConst none none) interrupted) = 900 := by
  have forward : Forward interrupted := by
    unfold Forward
    decide +kernel
  have metered : Metered (received : Meter (sysConst none none)) interrupted 0 1 (fun k => 1500+900*k) := by
    intro k inside
    obtain rfl | rfl : k = 0 ∨ k = 1 := by omega
    · exact ⟨(_,linkedBefore),rfl,by decide +kernel⟩
    · exact ⟨(_,linkedAfter),rfl,by decide +kernel⟩
  obtain ⟨_,total⟩ := totals_conserved forward ⟨1,0⟩ received (by simp [meters]) 0 1 _ metered
  have whole : ((snapshots .exact (sysConst none none) interrupted).drop 0).take 1 =
      snapshots .exact (sysConst none none) interrupted := rfl
  rw [whole] at total
  rw [total (by simp)]
  norm_num

end Vitals.RunTotals
