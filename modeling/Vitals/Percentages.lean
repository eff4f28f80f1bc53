import Vitals.ArithmeticRange
import Vitals.CoreRates

/-! The percentages of processors and memory as ratios. Busy ticks are part of all ticks, so
that in a forward run neither the saturation nor the clamp alters a ratio; where a counter
goes back they keep it in its range. -/
namespace Vitals.Percentages
open Kernel Semantics Text Word ArithmeticRange CoreRates

/-- Ticks spent on anything but idling and waiting. -/
def working (c : CpuTimes) : Nat :=
  c.user.toNat + c.nice.toNat + c.system.toNat + c.irq.toNat + c.softirq.toNat + c.steal.toNat

private theorem accounted_eq (c : CpuTimes) : accounted c = working c + c.idle.toNat + c.iowait.toNat := by
  simp only [accounted,columnsOf,working,List.take_succ_cons,List.take_zero,List.map_cons,List.map_nil,
    List.sum_cons,List.sum_nil]
  omega

private theorem toNat_busy {c : CpuTimes} (fits : accounted c < 2^64) : c.busy.toNat = working c := by
  have parts := accounted_eq c
  have idle := c.idle.toNat_lt
  have iowait := c.iowait.toNat_lt
  rw [CpuTimes.busy,UInt64.toNat_sub,UInt64.toNat_sub,toNat_total fits]
  omega

/-- No counter that is accounted for goes back. -/
def Forward (p c : CpuTimes) : Prop := List.Forall₂ (· ≤ ·) ((columnsOf p).take 8) ((columnsOf c).take 8)

instance (p c : CpuTimes) : Decidable (Forward p c) := by unfold Forward; infer_instance

private theorem forward_parts {p c : CpuTimes} (forward : Forward p c) : working p ≤ working c ∧
    p.idle.toNat ≤ c.idle.toNat ∧ p.iowait.toNat ≤ c.iowait.toNat := by
  simp only [Forward,columnsOf,List.take_succ_cons,List.take_zero,List.forall₂_cons,UInt64.le_iff_toNat_le] at forward
  unfold working
  omega

section
variable (R : Rounding)

def unclamped (busyDelta totalDelta : UInt64) : F64 :=
  if totalDelta = 0 then .fin 0
  else R.mul (R.div (R.ofNat busyDelta.toNat) (R.ofNat totalDelta.toNat)) (R.ofNat 100)

/-- The only division has a divisor other than zero. -/
theorem pct?_eq (busyDelta totalDelta : UInt64) : pct? R busyDelta totalDelta = some (pct R busyDelta totalDelta) := by
  unfold pct? pct
  split_ifs with still
  · rfl
  · rw [R.checkedDiv_ofNat _ (toNat_pos still)]
    rfl

private theorem usedPct?_eq (m : MemInfo) : m.usedPct? R = some (m.usedPct R) := by
  unfold MemInfo.usedPct? MemInfo.usedPct
  split_ifs with none
  · rfl
  · rw [R.checkedDiv_ofNat _ (toNat_pos none)]
    rfl

private theorem cpuPct?_eq {p c : CpuTimes} (before : accounted p < 2^64) (after : accounted c < 2^64) :
    cpuPct? R p c = some (corePct R c p) := by
  simp only [cpuPct?,total?_eq,busy?_eq,if_pos before,if_pos after,Option.bind_eq_bind,Option.bind_some,pct?_eq,corePct]

end

theorem unclamped_exact (busyDelta totalDelta : UInt64) :
    unclamped .exact busyDelta totalDelta = .fin (busyDelta.toNat/totalDelta.toNat*100) := by
  unfold unclamped
  split_ifs with still
  · simp [still]
  · have nonzero : (totalDelta.toNat : ℚ) ≠ 0 := Nat.cast_ne_zero.mpr (toNat_pos still).ne'
    rw [Rounding.exact_ofNat,Rounding.exact_ofNat,Rounding.exact_div _ nonzero,Rounding.exact_ofNat,Rounding.exact_mul,
      Nat.cast_ofNat]

private theorem pct_eq_clamp (busyDelta totalDelta : UInt64) :
    pct .exact busyDelta totalDelta = (unclamped .exact busyDelta totalDelta).clamp (.fin 0) (.fin 100) := by
  unfold pct unclamped
  split_ifs
  · rfl
  · rfl

theorem pct_exact (busyDelta totalDelta : UInt64) :
    pct .exact busyDelta totalDelta = .fin (max 0 (min (busyDelta.toNat/totalDelta.toNat*100) 100)) := by
  rw [pct_eq_clamp,unclamped_exact,F64.clamp_fin _ (by norm_num)]

/-- A part of a whole is between nothing and all of it, also of an empty one. -/
theorem part_in_range {part whole : Nat} (within : part ≤ whole) :
    0 ≤ (part/whole*100 : ℚ) ∧ (part/whole*100 : ℚ) ≤ 100 := by
  have below : (part/whole : ℚ) ≤ 1 := div_le_one_of_le₀ (by exact_mod_cast within) (by positivity)
  refine ⟨by positivity,?_⟩
  linarith

private theorem pct_part {busyDelta totalDelta : UInt64} (within : busyDelta ≤ totalDelta) :
    pct .exact busyDelta totalDelta = unclamped .exact busyDelta totalDelta := by
  obtain ⟨low,high⟩ := part_in_range (UInt64.le_iff_toNat_le.mp within)
  rw [pct_exact,unclamped_exact,min_eq_left high,max_eq_right low]

/-- A percentage shown for two readings `p` and `c` of a processor. -/
structure Ratio (p c : CpuTimes) (shown : F64) : Prop where
  defined : cpuPct? .exact p c = some shown
  inRange : ∃ q, shown = .fin q ∧ 0 ≤ q ∧ q ≤ 100
  ordered : Forward p c → p.busy ≤ c.busy ∧ p.total ≤ c.total ∧ c.busy - p.busy ≤ c.total - p.total
  undistorted : Forward p c → shown = unclamped .exact (c.busy - p.busy) (c.total - p.total)
  ratio : Forward p c → accounted p < accounted c →
    shown = .fin (100*((working c - working p : ℚ)/(accounted c - accounted p)))

section
variable {p c : CpuTimes} (before : accounted p < 2^64) (after : accounted c < 2^64)
include before after

private theorem ordered_of_forward (forward : Forward p c) :
    p.busy ≤ c.busy ∧ p.total ≤ c.total ∧ c.busy - p.busy ≤ c.total - p.total := by
  obtain ⟨work,idle,iowait⟩ := forward_parts forward
  have old := accounted_eq p
  have new := accounted_eq c
  have busy : p.busy ≤ c.busy := by
    rw [UInt64.le_iff_toNat_le,toNat_busy before,toNat_busy after]
    exact work
  have total : p.total ≤ c.total := by
    rw [UInt64.le_iff_toNat_le,toNat_total before,toNat_total after]
    omega
  refine ⟨busy,total,?_⟩
  rw [UInt64.le_iff_toNat_le,UInt64.toNat_sub_of_le _ _ busy,UInt64.toNat_sub_of_le _ _ total,
    toNat_busy before,toNat_busy after,toNat_total before,toNat_total after]
  omega

private theorem corePct_forward (forward : Forward p c) :
    corePct .exact c p = unclamped .exact (c.busy - p.busy) (c.total - p.total) := by
  obtain ⟨busy,total,within⟩ := ordered_of_forward before after forward
  rw [corePct,saturatingSub_eq busy,saturatingSub_eq total,pct_part within]

private theorem corePct_ratio (forward : Forward p c) :
    corePct .exact c p = .fin (100*((working c - working p : ℚ)/(accounted c - accounted p))) := by
  obtain ⟨busy,total,_⟩ := ordered_of_forward before after forward
  have lessBusy := UInt64.le_iff_toNat_le.mp busy
  have lessTotal := UInt64.le_iff_toNat_le.mp total
  rw [corePct_forward before after forward,unclamped_exact,UInt64.toNat_sub_of_le _ _ busy,
    UInt64.toNat_sub_of_le _ _ total,Nat.cast_sub lessBusy,Nat.cast_sub lessTotal,
    toNat_busy before,toNat_busy after,toNat_total before,toNat_total after,mul_comm]

private theorem ratio_corePct : Ratio p c (corePct .exact c p) where
  defined := cpuPct?_eq .exact before after
  inRange := ⟨_,pct_exact _ _,le_max_left _ _,max_le (by norm_num) (min_le_right _ _)⟩
  ordered := ordered_of_forward before after
  undistorted := corePct_forward before after
  ratio := fun forward _ => corePct_ratio before after forward

end

/-- The machine's percentage, then one for each processor. -/
def shares (rates : SystemRate) : List F64 := rates.cpuPct :: rates.perCpuPct

/-- The counters without the guest columns. -/
def guestless (c : CpuTimes) : CpuTimes := {c with guest := 0,guestNice := 0}

section
variable (sys : SysConst) (order : Iteration (Σ _ : ProcKey, ProcSample)) (prev cur : Sample)

private theorem shares_diff (R : Rounding) : shares (diff R sys order prev cur).system =
    ((cpuTimes cur.cpu).zip (cpuTimes prev.cpu)).map (fun e => corePct R e.1 e.2) := rfl

private theorem shares_guestless (R : Rounding) : shares (diff R sys order prev cur).system =
    (((cpuTimes cur.cpu).map guestless).zip ((cpuTimes prev.cpu).map guestless)).map (fun e => corePct R e.1 e.2) := by
  rw [shares_diff,List.zip_map,List.map_map]
  rfl

private theorem usedPct_in_range (m : MemInfo) : ∃ q, m.usedPct .exact = .fin q ∧ 0 ≤ q ∧ q ≤ 100 := by
  have within : m.used.toNat ≤ m.total.toNat := by
    rw [MemInfo.used,toNat_saturatingSub]
    exact Nat.sub_le _ _
  exact ⟨_,unclamped_exact m.used m.total,part_in_range within⟩

/-- Every percentage is in its range whatever the counters did, and the true ratio where
they went forward. -/
theorem percentages_exact (fits : ∀ c ∈ cpuTimes prev.cpu ++ cpuTimes cur.cpu, accounted c < 2^64) :
    List.Forall₂ (fun e shown => Ratio e.2 e.1 shown) ((cpuTimes cur.cpu).zip (cpuTimes prev.cpu))
      (shares (diff .exact sys order prev cur).system) ∧
    (∀ prev' cur' : Sample, (cpuTimes prev'.cpu).map guestless = (cpuTimes prev.cpu).map guestless →
      (cpuTimes cur'.cpu).map guestless = (cpuTimes cur.cpu).map guestless →
        shares (diff .exact sys order prev' cur').system = shares (diff .exact sys order prev cur).system) ∧
    ∀ m : MemInfo, m.usedPct? .exact = some (m.usedPct .exact) ∧ ∃ q, m.usedPct .exact = .fin q ∧ 0 ≤ q ∧ q ≤ 100 := by
  refine ⟨?_,?_,?_⟩
  · rw [shares_diff,List.forall₂_map_right_iff,List.forall₂_same]
    intro e member
    obtain ⟨new,old⟩ := List.of_mem_zip member
    exact ratio_corePct (fits e.2 (by simp [old])) (fits e.1 (by simp [new]))
  · intro prev' cur' before after
    rw [shares_guestless,shares_guestless,before,after]
  · intro m
    exact ⟨usedPct?_eq .exact m,usedPct_in_range m⟩

end

def counting (total core : CpuTimes) : Sample := {unsampled [] with cpu := {total := total,perCpu := [core]}}

/-- The processor itself goes forward, while the idle ticks of the machine go back. -/
theorem percentages_exact_back : List.Forall₂ (fun e shown => Ratio e.2 e.1 shown)
    [({user := 8,idle := 5,guest := 3},{user := 2,idle := 9}),({user := 4,idle := 5},{user := 1,idle := 2})]
    (shares (diff .exact (sysConst none none) (.stored _) (counting {user := 2,idle := 9} {user := 1,idle := 2})
      (counting {user := 8,idle := 5,guest := 3} {user := 4,idle := 5})).system) :=
  (percentages_exact (sysConst none none) (.stored _) (counting {user := 2,idle := 9} {user := 1,idle := 2})
    (counting {user := 8,idle := 5,guest := 3} {user := 4,idle := 5}) (by decide)).1

end Vitals.Percentages
