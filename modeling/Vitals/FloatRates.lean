import Vitals.Library.FloatError
import Vitals.NetTraffic
import Vitals.Percentages
import Vitals.RuleRates

/-! The floats of a snapshot. Whatever two samples are compared, none of them is a NaN or an
infinity, and each shows the exact value up to a few roundings. -/
namespace Vitals.FloatRates
open Kernel Word DeltaRates NetTraffic Percentages RuleRates

private theorem count_near (n : UInt64) : Approximates 1 64 (Rounding.binary64.ofNat n.toNat) n.toNat :=
  .ofNat n.toNat_lt.le (by norm_num)

private theorem hundred_near : Approximates 0 7 (Rounding.binary64.ofNat 100) 100 :=
  Approximates.ofNat_exact (a := 100) (by norm_num) (by norm_num)

private theorem secs_zero (R : Rounding) : asSecsF64 R 0 = .fin 0 := by
  have part : R.div (.fin 0) (R.ofNat (10^9)) = .fin 0 := R.zero_div_ofNat (by norm_num)
  rw [asSecsF64,Nat.zero_div,Nat.zero_mod,R.ofNat_zero,part,Rounding.add,add_zero,R.round_zero]

section
variable {duration : Nat} (short : duration < 2^64*10^9)
include short

private theorem secs_near : Approximates 2 65 (asSecsF64 .binary64 duration) (duration/10^9) := by
  have scale : ((10^9 : Nat) : ℚ) ≠ 0 := by norm_num
  have whole : Approximates 1 64 (Rounding.binary64.ofNat (duration / 10^9)) ((duration / 10^9 : Nat) : ℚ) :=
    .ofNat (by omega) (by norm_num)
  have part : Approximates 0 30 (Rounding.binary64.ofNat (duration % 10^9)) ((duration % 10^9 : Nat) : ℚ) :=
    .ofNat_exact (by omega) (by norm_num)
  have divisor : Approximates 0 30 (Rounding.binary64.ofNat (10^9)) ((10^9 : Nat) : ℚ) :=
    .ofNat_exact (by norm_num) (by norm_num)
  have sum := whole.add (part.div divisor scale (by norm_num)) (by norm_num)
  have split : (duration : ℚ) = (duration / 10^9 : Nat) * 10^9 + (duration % 10^9 : Nat) := by
    exact_mod_cast (Nat.div_add_mod' duration (10^9)).symm
  have value : (duration/10^9 : ℚ) = (duration / 10^9 : Nat) + (duration % 10^9 : Nat)/(10^9 : Nat) := by
    rw [split]
    push_cast
    field_simp
    ring
  rw [value]
  exact sum

private theorem rate_near (cur prev : UInt64) : Near 4 (rate .binary64 cur prev (asSecsF64 .binary64 duration))
    (rate .exact cur prev (asSecsF64 .exact duration)) := by
  rcases Nat.eq_zero_or_pos duration with rfl | running
  · rw [secs_zero,secs_zero]
    exact .zero 4
  · have growth : cur.toNat-prev.toNat ≤ 2^64 := (Nat.sub_le _ _).trans cur.toNat_lt.le
    have secs : (duration : ℚ)/10^9 ≠ 0 := by positivity
    have grown : Approximates 1 64 (Rounding.binary64.ofNat (cur.toNat-prev.toNat)) _ := .ofNat growth (by norm_num)
    rw [rate_pos .binary64 cur prev (asSecsF64_pos .binary64 running),rate_exact cur prev running]
    exact .of_approximates (grown.div (secs_near short) secs (by norm_num)) (by norm_num)

private theorem cpuPct_near (sys : SysConst) (key : ProcKey) (p : Option ProcSample) (c : ProcSample) :
    Near 7 (procRate .binary64 sys (asSecsF64 .binary64 duration) key p c).cpuPct
      (procRate .exact sys (asSecsF64 .exact duration) key p c).cpuPct := by
  cases p with
  | none => exact .zero 7
  | some p =>
    rcases Nat.eq_zero_or_pos duration with rfl | running
    · rw [secs_zero,secs_zero]
      exact .zero 7
    · have growth : c.stat.cpuTicks.toNat-p.stat.cpuTicks.toNat ≤ 2^64 :=
        (Nat.sub_le _ _).trans c.stat.cpuTicks.toNat_lt.le
      have hz : (sys.clkTck.toNat : ℚ) ≠ 0 := by
        exact_mod_cast (UInt64.lt_iff_toNat_lt.mp sys.clkTck_pos).ne'
      have secs : (duration : ℚ)/10^9 ≠ 0 := by positivity
      have grown : Approximates 1 64 (Rounding.binary64.ofNat (c.stat.cpuTicks.toNat-p.stat.cpuTicks.toNat)) _ :=
        .ofNat growth (by norm_num)
      have ticks := (count_near sys.clkTck).mul (secs_near short) (by norm_num)
      have share := (grown.div ticks (mul_ne_zero hz secs) (by norm_num)).mul hundred_near (by norm_num)
      rw [cpuPct_exact sys duration key p c running,procRate]
      dsimp only
      rw [if_pos (asSecsF64_pos .binary64 running),toNat_saturatingSub,mul_comm (100 : ℚ),mul_div_right_comm]
      exact .of_approximates share (by norm_num)

end

private theorem unclamped_near (busyDelta totalDelta : UInt64) :
    Approximates 4 135 (unclamped .binary64 busyDelta totalDelta) (busyDelta.toNat/totalDelta.toNat*100) := by
  unfold unclamped
  split_ifs with still
  · rw [still]
    simpa using Approximates.zero.mono (Nat.zero_le 4) (Nat.zero_le 135)
  · have nonzero : (totalDelta.toNat : ℚ) ≠ 0 := Nat.cast_ne_zero.mpr (toNat_pos still).ne'
    exact ((count_near busyDelta).div (count_near totalDelta) nonzero (by norm_num)).mul hundred_near (by norm_num)

private theorem pct_near (busyDelta totalDelta : UInt64) :
    Near 4 (pct .binary64 busyDelta totalDelta) (pct .exact busyDelta totalDelta) := by
  have clamped : pct .binary64 busyDelta totalDelta =
      (unclamped .binary64 busyDelta totalDelta).clamp (.fin 0) (.fin 100) := by
    unfold pct unclamped
    split_ifs
    · rfl
    · rfl
  have near := (unclamped_near busyDelta totalDelta).clamp (c := 100) (n := 7) (by norm_num)
  rw [Nat.cast_ofNat] at near
  have nonneg : 0 ≤ min (busyDelta.toNat/totalDelta.toNat*100 : ℚ) 100 := by positivity
  rw [clamped,pct_exact,max_eq_right nonneg]
  exact .of_approximates near (by norm_num)

theorem usedPct_near (m : MemInfo) : Near 4 (m.usedPct .binary64) (m.usedPct .exact) := by
  change Near 4 (unclamped .binary64 m.used m.total) (unclamped .exact m.used m.total)
  rw [unclamped_exact]
  exact .of_approximates (unclamped_near m.used m.total) (by norm_num)

def floatless (p : ProcRate) : ProcRate :=
  {p with cpuPct := .nan,readBps := none,writeBps := none,rcharBps := none,wcharBps := none}

def floatlessSystem (s : SystemRate) : SystemRate :=
  {s with cpuPct := .nan,perCpuPct := [],netRxBps := .nan,netTxBps := .nan,ctxtPerSec := .nan}

/-- A process as it is shown, beside the same process in exact arithmetic. -/
structure NearProc (shown exact : ProcRate) : Prop where
  cpuPct : Near 7 shown.cpuPct exact.cpuPct
  readBps : Option.Rel (Near 4) shown.readBps exact.readBps
  writeBps : Option.Rel (Near 4) shown.writeBps exact.writeBps
  rcharBps : Option.Rel (Near 4) shown.rcharBps exact.rcharBps
  wcharBps : Option.Rel (Near 4) shown.wcharBps exact.wcharBps
  rest : floatless shown = floatless exact

structure NearSystem (shown exact : SystemRate) : Prop where
  cpuPct : Near 4 shown.cpuPct exact.cpuPct
  perCpuPct : List.Forall₂ (Near 4) shown.perCpuPct exact.perCpuPct
  netRxBps : Near 4 shown.netRxBps exact.netRxBps
  netTxBps : Near 4 shown.netTxBps exact.netTxBps
  ctxtPerSec : Near 4 shown.ctxtPerSec exact.ctxtPerSec
  rest : floatlessSystem shown = floatlessSystem exact

def ioRate (R : Rounding) (secs : F64) (p : Option ProcSample) (c : ProcSample) (counter : PidIo → UInt64) :
    Option F64 :=
  match p.bind ProcSample.io,c.io with
  | some pi,some ci => some (rate R (counter ci) (counter pi) secs)
  | none,some _ => some (.fin 0)
  | _,none => none

section
variable {duration : Nat} (short : duration < 2^64*10^9)
include short

private theorem ioRate_near (p : Option ProcSample) (c : ProcSample) (counter : PidIo → UInt64) :
    Option.Rel (Near 4) (ioRate .binary64 (asSecsF64 .binary64 duration) p c counter)
      (ioRate .exact (asSecsF64 .exact duration) p c counter) := by
  unfold ioRate
  cases p.bind ProcSample.io with
  | none =>
    cases c.io with
    | none => exact .none
    | some now => exact .some (.zero 4)
  | some before =>
    cases c.io with
    | none => exact .none
    | some now => exact .some (rate_near short (counter now) (counter before))

private theorem near_proc (sys : SysConst) (key : ProcKey) (p : Option ProcSample) (c : ProcSample) :
    NearProc (procRate .binary64 sys (asSecsF64 .binary64 duration) key p c)
      (procRate .exact sys (asSecsF64 .exact duration) key p c) where
  cpuPct := cpuPct_near short sys key p c
  readBps := ioRate_near short p c PidIo.readBytes
  writeBps := ioRate_near short p c PidIo.writeBytes
  rcharBps := ioRate_near short p c PidIo.rchar
  wcharBps := ioRate_near short p c PidIo.wchar
  rest := rfl

end

theorem near_system {prev cur : Sample} (short : cur.instant-prev.instant < 2^64*10^9) :
    NearSystem (systemRate .binary64 prev cur) (systemRate .exact prev cur) where
  cpuPct := pct_near _ _
  perCpuPct := by
    unfold systemRate
    rw [List.forall₂_map_left_iff,List.forall₂_map_right_iff,List.forall₂_same]
    exact fun core _ => pct_near _ _
  netRxBps := rate_near short _ _
  netTxBps := rate_near short _ _
  ctxtPerSec := rate_near short _ _
  rest := rfl

private theorem cpuPct_nonneg (sys : SysConst) (duration : Nat) (key : ProcKey) (p : Option ProcSample)
    (c : ProcSample) :
    ∃ q, (procRate .exact sys (asSecsF64 .exact duration) key p c).cpuPct = .fin q ∧ 0 ≤ q := by
  rcases Nat.eq_zero_or_pos duration with rfl | running
  · exact ⟨0,cpuPct_still sys key p c,le_rfl⟩
  · cases p with
    | none => exact ⟨0,rfl,le_rfl⟩
    | some p => exact ⟨_,cpuPct_exact sys duration key p c running,by positivity⟩

/-- Two floats in order, so the numbers they show are nearly in order. -/
theorem order_near {a b : F64} {x y : ℚ} (first : Near 7 a (.fin x)) (second : Near 7 b (.fin y))
    (nonneg : 0 ≤ x) (nonneg' : 0 ≤ y) (ordered : b ≤ a) : y ≤ x*(1+1/2^47) := by
  obtain ⟨p,_,rfl,same,near⟩ := first
  obtain ⟨q,_,rfl,same',near'⟩ := second
  cases same
  cases same'
  rw [F64.fin_le_fin] at ordered
  rw [abs_of_nonneg nonneg] at near
  rw [abs_of_nonneg nonneg'] at near'
  have above := (abs_sub_le_iff.mp near).1
  have below := (abs_sub_le_iff.mp near').2
  norm_num at above below ⊢
  linarith

section
variable (sys : SysConst) (order order' : Iteration (Σ _ : ProcKey, ProcSample)) {prev cur : Sample}
  (short : cur.instant-prev.instant < 2^64*10^9)
include short

theorem near_diff {p q : ProcRate} (shown : p ∈ (diff .binary64 sys order prev cur).procs)
    (exact : q ∈ (diff .exact sys order' prev cur).procs) (same : p.key = q.key) : NearProc p q := by
  obtain ⟨key,c,found,rfl⟩ := (mem_diff .binary64 sys order prev cur p).mp shown
  obtain ⟨key',c',found',rfl⟩ := (mem_diff .exact sys order' prev cur q).mp exact
  obtain rfl : key = key' := same
  obtain rfl := Option.some.inj (found.symm.trans found')
  exact near_proc short sys key _ c

private theorem diff_finite : ∀ p ∈ (diff .binary64 sys order prev cur).procs, ∃ q, p.cpuPct = .fin q := by
  intro p member
  obtain ⟨key,c,_,rfl⟩ := (mem_diff .binary64 sys order prev cur p).mp member
  obtain ⟨q,_,value,_⟩ := cpuPct_near short sys key (prev.procs.lookup key) c
  exact ⟨q,value⟩

/-- A snapshot shows every number of the exact one, and ranks the processes as the exact one does
up to the error of their loads. -/
theorem floats_near :
    let shown := diff .binary64 sys order prev cur
    let exact := diff .exact sys order' prev cur
    NearSystem shown.system exact.system ∧
    (shown.procs.map ProcRate.key).Perm (exact.procs.map ProcRate.key) ∧
    (∀ p ∈ shown.procs, ∀ q ∈ exact.procs, p.key = q.key → NearProc p q) ∧
    shown.procs.Pairwise (fun a b => b.cpuPct < a.cpuPct ∨ a.cpuPct = b.cpuPct ∧ b.rssBytes ≤ a.rssBytes) ∧
    shown.procs.Pairwise (fun a b => ∀ a' ∈ exact.procs, ∀ b' ∈ exact.procs, a.key = a'.key → b.key = b'.key →
      ∃ x y, a'.cpuPct = .fin x ∧ b'.cpuPct = .fin y ∧ y ≤ x*(1+1/2^47)) := by
  have sorted := sorted_of_finite (diff_finite sys order short)
  refine ⟨near_system short,?_,fun p shown q exact same => near_diff sys order order' short shown exact same,sorted,?_⟩
  · exact (diff_keys .binary64 sys order prev cur).trans (diff_keys .exact sys order' prev cur).symm
  · apply sorted.imp_of_mem
    intro a b inA inB ordered a' inA' b' inB' sameA sameB
    have first := (near_diff sys order order' short inA inA' sameA).cpuPct
    have second := (near_diff sys order order' short inB inB' sameB).cpuPct
    obtain ⟨key,c,_,rfl⟩ := (mem_diff .exact sys order' prev cur a').mp inA'
    obtain ⟨key',c',_,rfl⟩ := (mem_diff .exact sys order' prev cur b').mp inB'
    obtain ⟨x,exactA,nonneg⟩ := cpuPct_nonneg sys (cur.instant-prev.instant) key (prev.procs.lookup key) c
    obtain ⟨y,exactB,nonneg'⟩ := cpuPct_nonneg sys (cur.instant-prev.instant) key' (prev.procs.lookup key') c'
    rw [exactA] at first
    rw [exactB] at second
    refine ⟨x,y,exactA,exactB,order_near first second nonneg nonneg' ?_⟩
    obtain ⟨p,valueA⟩ := diff_finite sys order short a inA
    obtain ⟨q,valueB⟩ := diff_finite sys order short b inB
    rw [valueA,valueB] at ordered ⊢
    rw [F64.fin_le_fin]
    rcases ordered with below | ⟨same,_⟩
    · exact ((F64.fin_lt_fin _ _).mp below).le
    · exact (F64.fin.inj same).ge

end

def worker (utime : UInt64) : ProcSample := ⟨⟨7,"worker".toList,'R',1,utime,0,1,100,4096,1⟩,none,none⟩

/-- A third of a processor, which no float is. -/
theorem floats_near_third : ∃ p ∈ (diff .binary64 (sysConst none none) (.stored _)
    (oneProcess 0 10 none) (oneProcess (3*10^9) 110 none)).procs,
      ∃ v, p.cpuPct = .fin v ∧ |v-100/3| ≤ 7/2^51*(100/3) := by
  have short : (oneProcess (3*10^9) 110 none).instant-(oneProcess 0 10 none).instant < 2^64*10^9 := by decide
  obtain ⟨_,keys,each,_⟩ := floats_near (sysConst none none) (.stored _) (.stored _) short
  have found (utime : UInt64) (instant : Nat) : (oneProcess instant utime none).procs.lookup ⟨7,100⟩ = some (worker utime) :=
    rfl
  have listed := (mem_diff .exact (sysConst none none) (.stored _) (oneProcess 0 10 none)
    (oneProcess (3*10^9) 110 none) _).mpr ⟨⟨7,100⟩,worker 110,found 110 _,rfl⟩
  obtain ⟨p,member,same⟩ := List.mem_map.mp (keys.mem_iff.mpr (List.mem_map_of_mem listed))
  have near := (each p member _ listed same).cpuPct
  have interval : (oneProcess (3*10^9) 110 none).instant-(oneProcess 0 10 none).instant = 3*10^9 := rfl
  have hz : (sysConst none none).clkTck.toNat = 100 := rfl
  have growth : (worker 110).stat.cpuTicks.toNat-(worker 10).stat.cpuTicks.toNat = 100 := rfl
  rw [found,interval,cpuPct_exact _ _ _ _ _ (by decide),growth,hz] at near
  obtain ⟨v,q,value,exact,near⟩ := near
  have share : q = 100/3 := by
    rw [← F64.fin.inj exact]
    norm_num
  subst share
  refine ⟨p,member,v,value,near.trans (le_of_eq ?_)⟩
  norm_num

end Vitals.FloatRates
