import Vitals.Semantics.Traffic
import Vitals.Library.Growth
import Vitals.DeltaRates

/-! The traffic of the system: a rate is worked out from the sums of the counters, so it is
the traffic of each interface added up unless one of them goes back while another advances. -/
namespace Vitals.NetTraffic
open Kernel Semantics Text Word DeltaRates

section
variable (counter : NetDev → UInt64) {nets prev cur : List NetDev}

theorem counted_perm {other : List NetDev} (same : (external other).Perm (external nets)) :
    counted counter other = counted counter nets :=
  (same.map _).sum_eq

private theorem countOf_member (distinct : (nets.map NetDev.name).Nodup) {n : NetDev} (member : n ∈ nets) :
    countOf counter nets n.name = (counter n).toNat := by
  have found : nets.find? (fun other => other.name = n.name) = some n := by
    induction nets with
    | nil => cases member
    | cons first rest ih =>
      obtain ⟨fresh,distinct⟩ := List.nodup_cons.mp distinct
      rcases List.mem_cons.mp member with rfl | later
      · exact List.find?_cons_of_pos (by simp)
      · have different : first.name ≠ n.name := by
          intro same
          exact fresh (same ▸ List.mem_map_of_mem later)
        rw [List.find?_cons_of_neg (by simpa using different)]
        exact ih distinct later
  rw [countOf,found]
  rfl

private theorem external_names (nets : List NetDev) :
    (external nets).map NetDev.name = (nets.map NetDev.name).filter (fun name => name ≠ "lo".toList) := by
  rw [external,List.filter_map]
  rfl

/-- The earlier sum, taken along the later list. -/
theorem counted_by_name (same : SameInterfaces prev cur) :
    ((external cur).map (fun n => countOf counter prev n.name)).sum = counted counter prev := by
  have names : ((external cur).map NetDev.name).Perm ((external prev).map NetDev.name) := by
    rw [external_names,external_names]
    exact same.2.filter _
  have own : (external prev).map (fun n => countOf counter prev n.name) =
      (external prev).map (fun n => (counter n).toNat) := by
    apply List.map_congr_left
    intro n member
    exact countOf_member counter same.1 (List.mem_filter.mp member).1
  have along := (names.map (countOf counter prev)).sum_eq
  rw [List.map_map,List.map_map] at along
  rw [counted,← own]
  exact along

private theorem growth_iff (same : SameInterfaces prev cur) :
    counted counter cur - counted counter prev = growth counter prev cur ↔
      (∀ n ∈ external cur, countOf counter prev n.name ≤ (counter n).toNat) ∨
        ∀ n ∈ external cur, (counter n).toNat ≤ countOf counter prev n.name := by
  rw [← counted_by_name counter same]
  exact Growth.growth_of_sum_iff (fun n => countOf counter prev n.name) (fun n => (counter n).toNat) (external cur)

end

private theorem foldl_sums (nets : List NetDev) (a : UInt64 × UInt64 × UInt64 × UInt64) :
    nets.foldl (fun a n => (a.1 + n.rxBytes,a.2.1 + n.txBytes,a.2.2.1 + n.rxErrs,a.2.2.2 + n.txErrs)) a =
      ((nets.map NetDev.rxBytes).foldl (· + ·) a.1,(nets.map NetDev.txBytes).foldl (· + ·) a.2.1,
        (nets.map NetDev.rxErrs).foldl (· + ·) a.2.2.1,(nets.map NetDev.txErrs).foldl (· + ·) a.2.2.2) := by
  induction nets generalizing a with
  | nil => rfl
  | cons n nets ih => exact ih _

private theorem toNat_sum (counter : NetDev → UInt64) (nets : List NetDev) :
    (((external nets).map counter).foldl (· + ·) 0).toNat = counted counter nets % 2^64 := by
  rw [toNat_foldl_add,List.map_map]
  simp [counted,Function.comp_def]

theorem sumNet_rx (s : Sample) : (sumNet s).1.toNat = counted NetDev.rxBytes s.nets % 2^64 := by
  rw [← toNat_sum]
  exact congrArg (fun sums => sums.1.toNat) (foldl_sums (external s.nets) (0,0,0,0))

theorem sumNet_tx (s : Sample) : (sumNet s).2.1.toNat = counted NetDev.txBytes s.nets % 2^64 := by
  rw [← toNat_sum]
  exact congrArg (fun sums => sums.2.1.toNat) (foldl_sums (external s.nets) (0,0,0,0))

theorem rate_exact (cur prev : UInt64) {duration : Nat} (running : 0 < duration) :
    rate .exact cur prev (asSecsF64 .exact duration) =
      .fin (((cur.toNat - prev.toNat : Nat) : ℚ)/(duration/10^9)) := by
  have secs : (0 : ℚ) < duration/10^9 := by positivity
  have started : ¬ F64.fin ((duration : ℚ)/10^9) ≤ .fin 0 := by
    rw [F64.fin_le_fin]
    exact not_le_of_gt secs
  rw [rate,asSecsF64_exact,if_neg started,toNat_saturatingSub,Rounding.exact_ofNat,
    Rounding.exact_div _ (ne_of_gt secs)]

private theorem rate_moves_iff {cur prev : UInt64} {duration : Nat} (running : 0 < duration) (amount : Nat) :
    Moves (rate .exact cur prev (asSecsF64 .exact duration)) duration amount ↔ cur.toNat - prev.toNat = amount := by
  have secs : (duration : ℚ)/10^9 ≠ 0 := by positivity
  rw [rate_exact cur prev running,Moves]
  refine ⟨?_,?_⟩
  · intro moved
    obtain ⟨q,same,moved⟩ := moved
    rw [← F64.fin.inj same,div_mul_cancel₀ _ secs] at moved
    exact_mod_cast moved
  · intro same
    exact ⟨_,rfl,by rw [div_mul_cancel₀ _ secs,same]⟩

section
variable (sys : SysConst) (order : Iteration (Σ _ : ProcKey, ProcSample))

/-- What is reported is the traffic of each interface added up, whatever their order and
whatever loopback counts. -/
structure Separate (prev cur : Sample) : Prop where
  rx : Moves (diff .exact sys order prev cur).system.netRxBps (cur.instant-prev.instant)
    (growth NetDev.rxBytes prev.nets cur.nets)
  tx : Moves (diff .exact sys order prev cur).system.netTxBps (cur.instant-prev.instant)
    (growth NetDev.txBytes prev.nets cur.nets)
  unordered : ∀ prev' cur', prev'.instant = prev.instant → cur'.instant = cur.instant →
    (external prev'.nets).Perm (external prev.nets) → (external cur'.nets).Perm (external cur.nets) →
    (diff .exact sys order prev' cur').system.netRxBps = (diff .exact sys order prev cur).system.netRxBps ∧
    (diff .exact sys order prev' cur').system.netTxBps = (diff .exact sys order prev cur).system.netTxBps

variable {prev cur : Sample}

private theorem unordered {prev' cur' : Sample} (before : prev'.instant = prev.instant)
    (after : cur'.instant = cur.instant) (permBefore : (external prev'.nets).Perm (external prev.nets))
    (permAfter : (external cur'.nets).Perm (external cur.nets)) :
    (diff .exact sys order prev' cur').system.netRxBps = (diff .exact sys order prev cur).system.netRxBps ∧
    (diff .exact sys order prev' cur').system.netTxBps = (diff .exact sys order prev cur).system.netTxBps := by
  have rx {s s' : Sample} (same : (external s'.nets).Perm (external s.nets)) : (sumNet s').1 = (sumNet s).1 := by
    rw [← UInt64.toNat_inj,sumNet_rx,sumNet_rx,counted_perm _ same]
  have tx {s s' : Sample} (same : (external s'.nets).Perm (external s.nets)) : (sumNet s').2.1 = (sumNet s).2.1 := by
    rw [← UInt64.toNat_inj,sumNet_tx,sumNet_tx,counted_perm _ same]
  simp only [diff,systemRate,before,after,rx permBefore,rx permAfter,tx permBefore,tx permAfter,and_self]

/-- One interface's reset hides another's traffic, and nothing else does. -/
theorem traffic_exact (same : SameInterfaces prev.nets cur.nets)
    (fits : ∀ counter ∈ [NetDev.rxBytes,NetDev.txBytes],
      counted counter prev.nets < 2^64 ∧ counted counter cur.nets < 2^64)
    (running : prev.instant < cur.instant) :
    Separate sys order prev cur ↔ ∀ counter ∈ [NetDev.rxBytes,NetDev.txBytes],
      (∀ n ∈ external cur.nets, countOf counter prev.nets n.name ≤ (counter n).toNat) ∨
      ∀ n ∈ external cur.nets, (counter n).toNat ≤ countOf counter prev.nets n.name := by
  obtain ⟨rxBefore,rxAfter⟩ := fits NetDev.rxBytes (by simp)
  obtain ⟨txBefore,txAfter⟩ := fits NetDev.txBytes (by simp)
  have elapsed : 0 < cur.instant-prev.instant := Nat.sub_pos_of_lt running
  have rx : Moves (diff .exact sys order prev cur).system.netRxBps (cur.instant-prev.instant)
      (growth NetDev.rxBytes prev.nets cur.nets) ↔ _ := rate_moves_iff elapsed _
  have tx : Moves (diff .exact sys order prev cur).system.netTxBps (cur.instant-prev.instant)
      (growth NetDev.txBytes prev.nets cur.nets) ↔ _ := rate_moves_iff elapsed _
  rw [sumNet_rx,sumNet_rx,Nat.mod_eq_of_lt rxBefore,Nat.mod_eq_of_lt rxAfter,growth_iff _ same] at rx
  rw [sumNet_tx,sumNet_tx,Nat.mod_eq_of_lt txBefore,Nat.mod_eq_of_lt txAfter,growth_iff _ same] at tx
  simp only [List.mem_cons,List.not_mem_nil,or_false,forall_eq_or_imp,forall_eq]
  rw [← rx,← tx]
  refine ⟨?_,?_⟩
  · intro separate
    exact ⟨separate.rx,separate.tx⟩
  · intro moved
    refine ⟨moved.1,moved.2,?_⟩
    intro prev' cur' before after permBefore permAfter
    exact unordered sys order before after permBefore permAfter

end
def interface (name : String) (rx tx : UInt64) : NetDev := ⟨name.toList,rx,0,0,0,tx,0,0,0⟩

def netSample (seconds : Nat) (nets : List NetDev) : Sample := ⟨seconds*10^9,{},{},nets,∅,0,0,0⟩

def linkedBefore : Sample := netSample 0 [interface "lo" 70 70,interface "eth0" 1000 200,interface "wlan0" 500 40]

def linkedAfter : Sample := netSample 2 [interface "wlan0" 900 40,interface "lo" 10 10,interface "eth0" 1500 260]

theorem traffic_exact_linked : Moves (diff .exact (sysConst none none) (.stored _) linkedBefore linkedAfter).system.netRxBps
    (2*10^9) 900 := by
  have same : SameInterfaces linkedBefore.nets linkedAfter.nets := by
    unfold SameInterfaces
    decide +kernel
  exact ((traffic_exact (sysConst none none) (.stored _) same (by decide +kernel) (by decide)).mpr (by decide +kernel)).rx

def resetAfter : Sample := netSample 2 [interface "lo" 10 10,interface "eth0" 10 0,interface "wlan0" 1500 40]

/-- A thousand bytes came in over the second interface, and ten are reported. -/
theorem traffic_hidden : SameInterfaces linkedBefore.nets resetAfter.nets ∧
    (∀ counter ∈ [NetDev.rxBytes,NetDev.txBytes],
      counted counter linkedBefore.nets < 2^64 ∧ counted counter resetAfter.nets < 2^64) ∧
    linkedBefore.instant < resetAfter.instant ∧
    ¬ Separate (sysConst none none) (.stored _) linkedBefore resetAfter := by
  refine ⟨by unfold SameInterfaces; decide +kernel,by decide +kernel,by decide,?_⟩
  intro separate
  have claimed := (rate_moves_iff (by decide) _).mp separate.rx
  exact absurd claimed (by decide +kernel)

end Vitals.NetTraffic
