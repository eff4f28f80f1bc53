import Vitals.Kernel.Delta

/-! Process rates: one for every process of the current sample, each from its own
predecessor alone, in descending load. -/
namespace Vitals.DeltaRates
open Kernel Text Word

section
variable (R : Rounding) (sys : SysConst) (order : Iteration (Σ _ : ProcKey, ProcSample)) (prev cur : Sample)

def rates : List ProcRate := cur.procs.entries.map (fun e =>
  procRate R sys (asSecsF64 R (cur.instant-prev.instant)) e.1 (prev.procs.lookup e.1) e.2)

private theorem diff_perm : (diff R sys order prev cur).procs.Perm (rates R sys prev cur) :=
  (List.mergeSort_perm _ _).trans ((order.perm _).map _)

theorem mem_diff (p : ProcRate) : p ∈ (diff R sys order prev cur).procs ↔
    ∃ key c, cur.procs.lookup key = some c ∧
      p = procRate R sys (asSecsF64 R (cur.instant-prev.instant)) key (prev.procs.lookup key) c := by
  rw [(diff_perm R sys order prev cur).mem_iff,rates,List.mem_map]
  refine ⟨?_,?_⟩
  · intro found
    obtain ⟨⟨key,c⟩,member,rfl⟩ := found
    exact ⟨key,c,(Table.lookup_eq_some _ key c).mpr member,rfl⟩
  · intro found
    obtain ⟨key,c,found,rfl⟩ := found
    exact ⟨⟨key,c⟩,(Table.lookup_eq_some _ key c).mp found,rfl⟩

theorem diff_keys : ((diff R sys order prev cur).procs.map ProcRate.key).Perm cur.procs.keys := by
  refine ((diff_perm R sys order prev cur).map ProcRate.key).trans (List.Perm.of_eq ?_)
  rw [rates,List.map_map]
  rfl

theorem diff_distinct : ((diff R sys order prev cur).procs.map ProcRate.key).Nodup :=
  (diff_keys R sys order prev cur).nodup_iff.mpr cur.procs.keys_nodup

variable {R sys prev cur} in
private theorem mem_diff_of_agree {prev' : Sample} {order order' : Iteration (Σ _ : ProcKey, ProcSample)}
    {p : ProcRate}
    (instant : prev'.instant = prev.instant) (same : prev'.procs.lookup p.key = prev.procs.lookup p.key)
    (member : p ∈ (diff R sys order prev cur).procs) : p ∈ (diff R sys order' prev' cur).procs := by
  obtain ⟨key,c,found,made⟩ := (mem_diff R sys order prev cur p).mp member
  have about : p.key = key := congrArg ProcRate.key made
  rw [about] at same
  exact (mem_diff R sys order' prev' cur p).mpr ⟨key,c,found,by rw [made,instant,same]⟩

private theorem mem_diff_congr {prev' : Sample} (instant : prev'.instant = prev.instant) (key : ProcKey)
    (same : prev'.procs.lookup key = prev.procs.lookup key)
    (order' : Iteration (Σ _ : ProcKey, ProcSample)) (p : ProcRate) (about : p.key = key) :
    p ∈ (diff R sys order' prev' cur).procs ↔ p ∈ (diff R sys order prev cur).procs := by
  subst about
  exact ⟨mem_diff_of_agree instant.symm same.symm,mem_diff_of_agree instant same⟩

end

theorem asSecsF64_exact (duration : Nat) : asSecsF64 .exact duration = .fin (duration / 10^9) := by
  have split : (duration : ℚ) = (duration / 10^9 : Nat) * 10^9 + (duration % 10^9 : Nat) := by
    exact_mod_cast (Nat.div_add_mod' duration (10^9)).symm
  have scale : ((10^9 : Nat) : ℚ) ≠ 0 := by norm_num
  rw [asSecsF64,Rounding.exact_ofNat,Rounding.exact_ofNat,Rounding.exact_ofNat,Rounding.exact_div _ scale,
    Rounding.exact_add,F64.fin.injEq,split]
  push_cast
  ring

private theorem toNat_cpuTicks (stat : PidStat) (fits : stat.utime.toNat + stat.stime.toNat < 2^64) :
    stat.cpuTicks.toNat = stat.utime.toNat + stat.stime.toNat := by
  rw [PidStat.cpuTicks,UInt64.toNat_add,Nat.mod_eq_of_lt fits]

theorem cpuPct_exact (sys : SysConst) (duration : Nat) (key : ProcKey) (p c : ProcSample) (positive : 0 < duration) :
    (procRate .exact sys (asSecsF64 .exact duration) key (some p) c).cpuPct =
      .fin (100*((c.stat.cpuTicks.toNat - p.stat.cpuTicks.toNat : Nat) : ℚ) /
        (sys.clkTck.toNat*(duration/10^9))) := by
  have secs : (0 : ℚ) < duration/10^9 := by positivity
  have hz : (0 : ℚ) < sys.clkTck.toNat := by
    exact_mod_cast UInt64.lt_iff_toNat_lt.mp sys.clkTck_pos
  have scale : (sys.clkTck.toNat : ℚ)*(duration/10^9) ≠ 0 := ne_of_gt (mul_pos hz secs)
  have running : F64.fin 0 < .fin ((duration : ℚ)/10^9) := (F64.fin_lt_fin _ _).mpr secs
  rw [procRate,asSecsF64_exact]
  dsimp only
  rw [if_pos running,toNat_saturatingSub,Rounding.exact_ofNat,Rounding.exact_ofNat,Rounding.exact_ofNat,
    Rounding.exact_mul,Rounding.exact_div _ scale,Rounding.exact_mul,F64.fin.injEq]
  push_cast
  ring

theorem cpuPct_still (sys : SysConst) (key : ProcKey) (p : Option ProcSample) (c : ProcSample) :
    (procRate .exact sys (asSecsF64 .exact 0) key p c).cpuPct = .fin 0 := by
  have stopped : ¬ F64.fin 0 < .fin ((0 : Nat)/10^9) := by simp
  cases p with
  | none => rfl
  | some p => simp only [procRate,asSecsF64_exact,if_neg stopped]

private theorem cpuPct_finite (sys : SysConst) (duration : Nat) (key : ProcKey) (p : Option ProcSample)
    (c : ProcSample) :
    ∃ q, (procRate .exact sys (asSecsF64 .exact duration) key p c).cpuPct = .fin q := by
  rcases Nat.eq_zero_or_pos duration with rfl | positive
  · exact ⟨_,cpuPct_still sys key p c⟩
  · cases p with
    | none => exact ⟨0,rfl⟩
    | some p => exact ⟨_,cpuPct_exact sys duration key p c positive⟩

/-- Higher CPU first, then higher RSS. -/
def heavier (a b : ℚ × UInt64) : Bool := b.1 < a.1 || (a.1 = b.1 && b.2 ≤ a.2)

def load (p : ProcRate) : ℚ × UInt64 :=
  (match p.cpuPct with
    | .fin q => q
    | _ => 0,
  p.rssBytes)

private theorem compare_rss (a b : UInt64) : (compare b a != .gt) = decide (b ≤ a) := by
  simp only [compare,compareOfLessAndEq,UInt64.lt_iff_toNat_lt,UInt64.le_iff_toNat_le,← UInt64.toNat_inj]
  rcases Nat.lt_trichotomy b.toNat a.toNat with less | same | more
  · simp [less,Nat.le_of_lt less]
  · simp [same]
  · simp [Nat.not_lt.mpr (Nat.le_of_lt more),Nat.ne_of_gt more,more]

private theorem byLoad_heavier {a b : ProcRate} (left : ∃ q, a.cpuPct = .fin q) (right : ∃ q, b.cpuPct = .fin q) :
    (byLoad a b != .gt) = heavier (load a) (load b) := by
  obtain ⟨x,left⟩ := left
  obtain ⟨y,right⟩ := right
  simp only [byLoad,F64.partialCmp,left,right,F64.fin_lt_fin,load,heavier,reduceCtorEq,or_self,if_false]
  rcases lt_trichotomy x y with below | rfl | above
  · simp [below,not_lt_of_gt below,ne_of_lt below]
  · simp [compare_rss]
  · simp [above]

private theorem heavier_trans (a b c : ℚ × UInt64) (first : heavier a b = true) (second : heavier b c = true) :
    heavier a c = true := by
  simp only [heavier,Bool.or_eq_true,Bool.and_eq_true,decide_eq_true_eq] at first second ⊢
  rcases first with first | ⟨first,rss⟩
  · rcases second with second | ⟨second,_⟩
    · exact .inl (lt_trans second first)
    · exact .inl (second ▸ first)
  · rcases second with second | ⟨second,rss'⟩
    · exact .inl (first ▸ second)
    · exact .inr ⟨first.trans second,UInt64.le_trans rss' rss⟩

private theorem heavier_total (a b : ℚ × UInt64) : (heavier a b || heavier b a) = true := by
  simp only [heavier,Bool.or_eq_true,Bool.and_eq_true,decide_eq_true_eq]
  rcases lt_trichotomy a.1 b.1 with below | same | above
  · exact .inr (.inl below)
  · rcases UInt64.le_total a.2 b.2 with less | more
    · exact .inr (.inr ⟨same.symm,less⟩)
    · exact .inl (.inr ⟨same,more⟩)
  · exact .inl (.inl above)

theorem sorted_of_finite {R : Rounding} {sys : SysConst} {order : Iteration (Σ _ : ProcKey, ProcSample)}
    {prev cur : Sample} (finite : ∀ p ∈ (diff R sys order prev cur).procs, ∃ q, p.cpuPct = .fin q) :
    (diff R sys order prev cur).procs.Pairwise (fun a b =>
      b.cpuPct < a.cpuPct ∨ a.cpuPct = b.cpuPct ∧ b.rssBytes ≤ a.rssBytes) := by
  -- `byLoad` is a linear order on numbers only, so it is the loads that are sorted
  have sorted : ((diff R sys order prev cur).procs.map load).Pairwise (fun a b => heavier a b = true) := by
    unfold diff at finite ⊢
    rw [List.map_mergeSort (s := heavier) (f := load) (fun a inA b inB =>
      byLoad_heavier (finite a (List.mem_mergeSort.mpr inA)) (finite b (List.mem_mergeSort.mpr inB)))]
    exact List.pairwise_mergeSort heavier_trans heavier_total _
  apply (List.pairwise_map.mp sorted).imp_of_mem
  intro a b inA inB ordered
  obtain ⟨x,left⟩ := finite a inA
  obtain ⟨y,right⟩ := finite b inB
  simpa [heavier,load,left,right] using ordered

private theorem diff_sorted (sys : SysConst) (order : Iteration (Σ _ : ProcKey, ProcSample)) (prev cur : Sample) :
    (diff .exact sys order prev cur).procs.Pairwise (fun a b =>
      b.cpuPct < a.cpuPct ∨ a.cpuPct = b.cpuPct ∧ b.rssBytes ≤ a.rssBytes) := by
  apply sorted_of_finite
  intro p member
  obtain ⟨key,c,_,rfl⟩ := (mem_diff .exact sys order prev cur p).mp member
  exact cpuPct_finite sys _ key _ c

/-- The ticks a process has used, not wrapped around. -/
def ticks (stat : PidStat) : Nat := stat.utime.toNat + stat.stime.toNat

private theorem cpuPct_ticks (sys : SysConst) (duration : Nat) (key : ProcKey) (p c : ProcSample)
    (positive : 0 < duration) (before : ticks p.stat < 2^64) (after : ticks c.stat < 2^64) :
    (procRate .exact sys (asSecsF64 .exact duration) key (some p) c).cpuPct =
      .fin (100*max 0 ((ticks c.stat : ℚ)-ticks p.stat) / (sys.clkTck.toNat*(duration/10^9))) := by
  have growth : ((ticks c.stat - ticks p.stat : Nat) : ℚ) = max 0 ((ticks c.stat : ℚ)-ticks p.stat) := by
    rcases Nat.le_total (ticks p.stat) (ticks c.stat) with up | down
    · rw [Nat.cast_sub up,max_eq_right (sub_nonneg.mpr (by exact_mod_cast up))]
    · rw [Nat.sub_eq_zero_of_le down,Nat.cast_zero,max_eq_left (sub_nonpos.mpr (by exact_mod_cast down))]
  rw [cpuPct_exact sys duration key p c positive,toNat_cpuTicks _ before,toNat_cpuTicks _ after,← growth]
  rfl

private theorem rates_of_new (R : Rounding) (sys : SysConst) (secs : F64) (key : ProcKey) (c : ProcSample) :
    let p := procRate R sys secs key none c
    p.cpuPct = .fin 0 ∧ ∀ rate ∈ [p.readBps,p.writeBps,p.rcharBps,p.wcharBps], rate = none ∨ rate = some (.fin 0) := by
  intro p
  refine ⟨rfl,?_⟩
  cases io : c.io <;> simp [p,procRate,io]

/-- What a rate takes over from its process as it stands. -/
structure TakesOver (sys : SysConst) (c : ProcSample) (p : ProcRate) : Prop where
  key : p.key = c.stat.key
  pid : p.pid = c.stat.pid
  ppid : p.ppid = c.stat.ppid
  comm : p.comm = c.stat.comm
  state : p.state = c.stat.state
  threads : p.threads = c.stat.numThreads
  rssBytes : p.rssBytes = c.stat.rssBytes sys
  vsizeBytes : p.vsizeBytes = c.stat.vsize
  sockets : p.sockets = c.sockets

/-- Rates are loss-free, ordered by load, and each belongs to one identity. -/
theorem rates_exact (sys : SysConst) (order : Iteration (Σ _ : ProcKey, ProcSample)) (prev cur : Sample)
    (keyed : ∀ key c, cur.procs.lookup key = some c → key = c.stat.key) :
    let procs := (diff .exact sys order prev cur).procs
    (procs.map ProcRate.key).Perm cur.procs.keys ∧ (procs.map ProcRate.key).Nodup ∧
    procs.Pairwise (fun a b => b.cpuPct < a.cpuPct ∨ a.cpuPct = b.cpuPct ∧ b.rssBytes ≤ a.rssBytes) ∧
    (∀ p ∈ procs, ∃ c, cur.procs.lookup p.key = some c ∧ TakesOver sys c p ∧
      (p.isNew = true ↔ prev.procs.lookup p.key = none) ∧
      (p.isNew = true → p.cpuPct = .fin 0 ∧
        ∀ rate ∈ [p.readBps,p.writeBps,p.rcharBps,p.wcharBps], rate = none ∨ rate = some (.fin 0)) ∧
      ∀ q, prev.procs.lookup p.key = some q → prev.instant < cur.instant →
        ticks q.stat < 2^64 → ticks c.stat < 2^64 →
        p.cpuPct = .fin (100*max 0 ((ticks c.stat : ℚ)-ticks q.stat) /
          (sys.clkTck.toNat*((cur.instant-prev.instant : Nat)/10^9)))) ∧
    ∀ prev' order' key, prev'.instant = prev.instant → prev'.procs.lookup key = prev.procs.lookup key →
      ∀ p, p.key = key → (p ∈ (diff .exact sys order' prev' cur).procs ↔ p ∈ procs) := by
  intro procs
  refine ⟨diff_keys _ sys order prev cur,diff_distinct _ sys order prev cur,diff_sorted sys order prev cur,?_,?_⟩
  · intro p member
    obtain ⟨key,c,found,rfl⟩ := (mem_diff .exact sys order prev cur p).mp member
    refine ⟨c,found,⟨keyed key c found,rfl,rfl,rfl,rfl,rfl,rfl,rfl,rfl⟩,Option.isNone_iff_eq_none,?_,?_⟩
    · intro fresh
      rw [Option.isNone_iff_eq_none.mp fresh]
      exact rates_of_new .exact sys _ key c
    · intro q old later before after
      change prev.procs.lookup key = some q at old
      rw [old]
      exact cpuPct_ticks sys _ key q c (by omega) before after
  · intro prev' order' key instant same p about
    exact mem_diff_congr .exact sys order prev cur instant key same order' p about

def oneProcess (instant : Nat) (utime : UInt64) (io : Option PidIo) : Sample :=
  ⟨instant,{},{},[],AList.singleton ⟨7,100⟩ ⟨⟨7,"worker".toList,'R',1,utime,0,1,100,4096,1⟩,io,none⟩,0,0,0⟩

/-- The worker of `oneProcess` and a process that was not there before. -/
def joined (instant : Nat) (utime : UInt64) : Sample := {oneProcess instant utime none with
  procs := (AList.singleton ⟨8,150⟩ ⟨⟨8,"helper".toList,'S',7,3,1,2,150,8192,2⟩,some {},none⟩).insert ⟨7,100⟩
    ⟨⟨7,"worker".toList,'R',1,utime,0,1,100,4096,1⟩,none,none⟩}

theorem rates_exact_joined : ∃ p ∈ (diff .exact (sysConst none none) (.stored _)
    (oneProcess 0 10 none) (joined (2*10^9) 60)).procs, ∃ fresh ∈ (diff .exact (sysConst none none) (.stored _)
    (oneProcess 0 10 none) (joined (2*10^9) 60)).procs,
    p.cpuPct = .fin 25 ∧ p.isNew = false ∧ fresh.cpuPct = .fin 0 ∧ fresh.isNew = true := by
  have listed {key : ProcKey} {c : ProcSample} (found : (joined (2*10^9) 60).procs.lookup key = some c) :
      (key = ⟨7,100⟩ ∧ c = ⟨⟨7,"worker".toList,'R',1,60,0,1,100,4096,1⟩,none,none⟩) ∨
        (key = ⟨8,150⟩ ∧ c = ⟨⟨8,"helper".toList,'S',7,3,1,2,150,8192,2⟩,some {},none⟩) := by
    rcases List.mem_pair.mp ((Table.lookup_eq_some _ key c).mp found) with entry | entry
    · obtain ⟨rfl,value⟩ := Sigma.mk.inj entry
      exact .inl ⟨rfl,eq_of_heq value⟩
    · obtain ⟨rfl,value⟩ := Sigma.mk.inj entry
      exact .inr ⟨rfl,eq_of_heq value⟩
  have keyed : ∀ key c, (joined (2*10^9) 60).procs.lookup key = some c → key = c.stat.key := by
    intro key c found
    rcases listed found with ⟨rfl,rfl⟩ | ⟨rfl,rfl⟩ <;> rfl
  obtain ⟨keys,_,_,each,_⟩ := rates_exact (sysConst none none) (.stored _)
    (oneProcess 0 10 none) (joined (2*10^9) 60) keyed
  have present : ∀ key ∈ ([⟨7,100⟩,⟨8,150⟩] : List ProcKey), key ∈ (joined (2*10^9) 60).procs.keys := by decide
  obtain ⟨p,member,isWorker⟩ := List.mem_map.mp (keys.mem_iff.mpr (present ⟨7,100⟩ (by simp)))
  obtain ⟨fresh,inside,isHelper⟩ := List.mem_map.mp (keys.mem_iff.mpr (present ⟨8,150⟩ (by simp)))
  obtain ⟨c,found,_,new,_,old⟩ := each p member
  obtain ⟨_,_,_,new',zero,_⟩ := each fresh inside
  have unknown : fresh.isNew = true := new'.mpr (by rw [isHelper]; decide)
  have known : p.isNew = false := by
    rw [Bool.eq_false_iff,Ne,new,isWorker]
    decide
  refine ⟨p,member,fresh,inside,?_,known,(zero unknown).1,unknown⟩
  rcases listed found with ⟨_,rfl⟩ | ⟨other,_⟩
  · have hz : (sysConst none none).clkTck.toNat = 100 := rfl
    have interval : (joined (2*10^9) 60).instant-(oneProcess 0 10 none).instant = 2*10^9 := rfl
    rw [old _ (by rw [isWorker]; rfl) (by decide) (by decide) (by decide),F64.fin.injEq,hz,interval]
    have sixty : (60 : UInt64).toNat = 60 := rfl
    have ten : (10 : UInt64).toNat = 10 := rfl
    norm_num [ticks,sixty,ten]
  · rw [isWorker] at other
    cases other

end Vitals.DeltaRates
