import Vitals.Kernel.Checked
import Vitals.Semantics.KernelText
import Vitals.Semantics.Traffic
import Vitals.Library.Fallible

/-! Which inputs take the arithmetic of a scan out of 64 bits. -/
namespace Vitals.ArithmeticRange
open Kernel Semantics Text Word Fallible

/-- The ticks a line accounts for: its first eight columns. -/
def accounted (c : CpuTimes) : Nat := (((columnsOf c).take 8).map UInt64.toNat).sum

theorem total?_eq (c : CpuTimes) : c.total? = if accounted c < 2^64 then some c.total else none := by
  rw [CpuTimes.total?,foldlM_checkedAdd]
  rfl

theorem toNat_total {c : CpuTimes} (fits : accounted c < 2^64) : c.total.toNat = accounted c :=
  (toNat_foldl_add [c.nice,c.system,c.idle,c.iowait,c.irq,c.softirq,c.steal] c.user).trans (Nat.mod_eq_of_lt fits)

theorem busy?_eq (c : CpuTimes) : c.busy? = if accounted c < 2^64 then some c.busy else none := by
  rw [CpuTimes.busy?,total?_eq]
  by_cases fits : accounted c < 2^64
  · have total := toNat_total fits
    have parts : c.idle.toNat + c.iowait.toNat ≤ accounted c := by
      simp [accounted,columnsOf]
      omega
    have idle : c.idle ≤ c.total := by
      rw [UInt64.le_iff_toNat_le]
      omega
    have awake : (c.total - c.idle).toNat = accounted c - c.idle.toNat := by
      rw [UInt64.toNat_sub_of_le _ _ idle,total]
    have iowait : c.iowait ≤ c.total - c.idle := by
      rw [UInt64.le_iff_toNat_le]
      omega
    simp only [if_pos fits,Option.bind_eq_bind,Option.bind_some,checkedSub,if_pos idle,if_pos iowait]
    rfl
  · simp only [if_neg fits,Option.bind_eq_bind,Option.bind_none]

def ResidentFits (sys : SysConst) (p : PidStat) : Prop :=
  0 < p.rssPages → p.rssPages.toUInt64.toNat * sys.pageSize.toNat < 2^64

instance (sys : SysConst) (p : PidStat) : Decidable (ResidentFits sys p) := by
  unfold ResidentFits; infer_instance

private theorem rssBytes?_eq (sys : SysConst) (p : PidStat) :
    p.rssBytes? sys = if ResidentFits sys p then some (p.rssBytes sys) else none := by
  unfold PidStat.rssBytes? PidStat.rssBytes ResidentFits
  by_cases none : p.rssPages ≤ 0
  · have still : ¬ 0 < p.rssPages := Int64.not_lt.mpr none
    simp [none,still]
  · have some_ : 0 < p.rssPages := Int64.not_le.mp none
    simp [none,some_,checkedMul]

private theorem cpuTicks?_eq (p : PidStat) :
    p.cpuTicks? = if p.utime.toNat + p.stime.toNat < 2^64 then some p.cpuTicks else none := rfl

/-- The numbers of a text, before free memory is estimated from them. -/
def meminfoNumbers (s : Str) : MemInfo := (lines s).foldl meminfoLine {}

def EstimateFits (s : Str) : Prop := let m := meminfoNumbers s
  m.available = 0 → 0 < m.total → m.free.toNat + m.buffers.toNat + m.cached.toNat < 2^64

instance (s : Str) : Decidable (EstimateFits s) := by
  unfold EstimateFits; infer_instance

private theorem parseMeminfo?_eq (s : Str) :
    parseMeminfo? s = if EstimateFits s then some (parseMeminfo s) else none := by
  have numbers : (lines s).foldl meminfoLine {} = meminfoNumbers s := rfl
  unfold parseMeminfo? parseMeminfo
  rw [numbers]
  dsimp only
  by_cases guard : (meminfoNumbers s).available = 0 ∧ 0 < (meminfoNumbers s).total
  · rw [if_pos guard,if_pos guard]
    by_cases fits : EstimateFits s
    · have sum := fits guard.1 guard.2
      have partly : (meminfoNumbers s).free.toNat + (meminfoNumbers s).buffers.toNat < 2^64 := by omega
      have whole : ((meminfoNumbers s).free + (meminfoNumbers s).buffers).toNat +
          (meminfoNumbers s).cached.toNat < 2^64 := by
        rw [toNat_add_of_fits partly]
        exact sum
      simp only [if_pos fits,checkedAdd,if_pos partly,if_pos whole,Option.bind_eq_bind,Option.bind_some]
      rfl
    · rw [if_neg fits]
      unfold checkedAdd
      split_ifs with partly
      · have beyond : ¬ ((meminfoNumbers s).free + (meminfoNumbers s).buffers).toNat +
            (meminfoNumbers s).cached.toNat < 2^64 := by
          rw [toNat_add_of_fits partly]
          exact fun sum => fits (fun _ _ => sum)
        simp only [if_neg beyond,Option.bind_eq_bind,Option.bind_some,Option.bind_none]
      · rfl
  · have fits : EstimateFits s := fun zero installed => absurd ⟨zero,installed⟩ guard
    rw [if_neg guard,if_neg guard,if_pos fits]

abbrev Sums := UInt64 × UInt64 × UInt64 × UInt64

def SumsFit (a : Sums) (nets : List NetDev) : Prop :=
  a.1.toNat + (nets.map (fun n => n.rxBytes.toNat)).sum < 2^64 ∧
  a.2.1.toNat + (nets.map (fun n => n.txBytes.toNat)).sum < 2^64 ∧
  a.2.2.1.toNat + (nets.map (fun n => n.rxErrs.toNat)).sum < 2^64 ∧
  a.2.2.2.toNat + (nets.map (fun n => n.txErrs.toNat)).sum < 2^64

instance (a : Sums) (nets : List NetDev) : Decidable (SumsFit a nets) := by
  unfold SumsFit; infer_instance

def addNet (a : Sums) (n : NetDev) : Sums :=
  (a.1 + n.rxBytes,a.2.1 + n.txBytes,a.2.2.1 + n.rxErrs,a.2.2.2 + n.txErrs)

private theorem addNet?_eq (a : Sums) (n : NetDev) :
    addNet? a n = if SumsFit a [n] then some (addNet a n) else none := by
  unfold addNet? addNet SumsFit checkedAdd
  simp only [List.map_cons,List.map_nil,List.sum_cons,List.sum_nil,Nat.add_zero,Option.bind_eq_bind]
  by_cases rx : a.1.toNat + n.rxBytes.toNat < 2^64
  · by_cases tx : a.2.1.toNat + n.txBytes.toNat < 2^64
    · by_cases rxErrs : a.2.2.1.toNat + n.rxErrs.toNat < 2^64
      · by_cases txErrs : a.2.2.2.toNat + n.txErrs.toNat < 2^64
        · simp only [rx,tx,rxErrs,txErrs,and_self,if_true,Option.bind_some,Option.pure_def]
        · simp only [rx,tx,rxErrs,txErrs,and_false,if_true,if_false,Option.bind_some,Option.bind_none]
      · simp only [rx,tx,rxErrs,false_and,and_false,if_true,if_false,Option.bind_some,Option.bind_none]
    · simp only [rx,tx,false_and,and_false,if_true,if_false,Option.bind_some,Option.bind_none]
  · simp only [rx,false_and,if_false,Option.bind_none]

private theorem foldlM_addNet? (nets : List NetDev) (a : Sums) :
    nets.foldlM addNet? a = if SumsFit a nets then some (nets.foldl addNet a) else none := by
  induction nets generalizing a with
  | nil =>
    have start : SumsFit a [] := ⟨a.1.toNat_lt,a.2.1.toNat_lt,a.2.2.1.toNat_lt,a.2.2.2.toNat_lt⟩
    rw [if_pos start]
    rfl
  | cons n nets ih =>
    rw [List.foldlM_cons,addNet?_eq]
    by_cases turn : SumsFit a [n]
    · have step : SumsFit (addNet a n) nets ↔ SumsFit a (n :: nets) := by
        obtain ⟨rx,tx,rxErrs,txErrs⟩ := turn
        simp only [List.map_cons,List.map_nil,List.sum_cons,List.sum_nil,Nat.add_zero] at rx tx rxErrs txErrs
        simp only [SumsFit,addNet,List.map_cons,List.sum_cons,toNat_add_of_fits rx,toNat_add_of_fits tx,
          toNat_add_of_fits rxErrs,toNat_add_of_fits txErrs,Nat.add_assoc]
      rw [if_pos turn,Option.bind_eq_bind,Option.bind_some,ih]
      simp only [step,List.foldl_cons]
    · have beyond : ¬ SumsFit a (n :: nets) := by
        intro fits
        apply turn
        obtain ⟨rx,tx,rxErrs,txErrs⟩ := fits
        simp only [List.map_cons,List.sum_cons] at rx tx rxErrs txErrs
        simp only [SumsFit,List.map_cons,List.map_nil,List.sum_cons,List.sum_nil]
        omega
      rw [if_neg turn,if_neg beyond]
      rfl

private theorem sumsFit_iff (nets : List NetDev) : SumsFit (0,0,0,0) (external nets) ↔ NetFits nets := by
  simp [SumsFit,NetFits,summed,counted]

private theorem sumNet?_eq (s : Sample) [Decidable (NetFits s.nets)] :
    sumNet? s = if NetFits s.nets then some (sumNet s) else none := by
  have folded := foldlM_addNet? (external s.nets) (0,0,0,0)
  simp only [sumsFit_iff] at folded
  exact folded

/-- The processor times of a reading, the aggregate first. -/
def cpuTimes (stat : StatFile) : List CpuTimes := stat.total :: stat.perCpu

section
variable (R : Rounding) (sys : SysConst) (order : Iteration (Σ _ : ProcKey, ProcSample))

private theorem cpuRate?_eq {prev cur : CpuTimes} (before : accounted prev < 2^64) (after : accounted cur < 2^64) :
    cpuRate? R prev cur =
      some (pct R (saturatingSub cur.busy prev.busy) (saturatingSub cur.total prev.total)) := by
  simp only [cpuRate?,total?_eq,busy?_eq,if_pos before,if_pos after,Option.bind_eq_bind,Option.bind_some,
    Option.pure_def]

variable {prev cur : Sample}

private theorem systemRate?_eq (before : ∀ c ∈ cpuTimes prev.cpu, accounted c < 2^64)
    (after : ∀ c ∈ cpuTimes cur.cpu, accounted c < 2^64) (netBefore : NetFits prev.nets)
    (netAfter : NetFits cur.nets) : systemRate? R prev cur = some (systemRate R prev cur) := by
  have aggregate := cpuRate?_eq R (before _ List.mem_cons_self) (after _ List.mem_cons_self)
  have perCore := mapM_some (f := fun e => cpuRate? R e.2 e.1) (cur.cpu.perCpu.zip prev.cpu.perCpu)
    (g := fun e => pct R (saturatingSub e.1.busy e.2.busy) (saturatingSub e.1.total e.2.total)) (by
      intro e member
      obtain ⟨new,old⟩ := List.of_mem_zip member
      exact cpuRate?_eq R (before _ (List.mem_cons_of_mem _ old)) (after _ (List.mem_cons_of_mem _ new)))
  classical
  simp only [systemRate?,aggregate,perCore,sumNet?_eq,if_pos netBefore,if_pos netAfter,Option.bind_eq_bind,
    Option.bind_some]
  rfl

private theorem netFits_of_systemRate? (defined : (systemRate? R prev cur).isSome) :
    NetFits prev.nets ∧ NetFits cur.nets := by
  classical
  by_contra beyond
  have stopped : systemRate? R prev cur = none := by
    unfold systemRate?
    rw [sumNet?_eq,sumNet?_eq]
    by_cases after : NetFits cur.nets
    · have before : ¬ NetFits prev.nets := fun before => beyond ⟨before,after⟩
      simp only [if_pos after,if_neg before,Option.bind_eq_bind,Option.bind_none,Option.bind_fun_none]
    · simp only [if_neg after,Option.bind_eq_bind,Option.bind_none,Option.bind_fun_none]
  simp [stopped] at defined

def StatFits (p : PidStat) : Prop := p.utime.toNat + p.stime.toNat < 2^64 ∧ ResidentFits sys p

private theorem procRate?_eq (secs : F64) (key : ProcKey) {p : Option ProcSample} {c : ProcSample}
    (before : ∀ q, p = some q → StatFits sys q.stat) (after : StatFits sys c.stat) :
    procRate? R sys secs key p c = some (procRate R sys secs key p c) := by
  unfold procRate?
  rw [rssBytes?_eq,if_pos after.2]
  cases p with
  | none => rfl
  | some q =>
    by_cases running : .fin 0 < secs
    · simp only [if_pos running,tickRate?,cpuTicks?_eq,if_pos after.1,if_pos (before q rfl).1,Option.bind_eq_bind,
        Option.bind_some,Option.pure_def,procRate]
    · simp only [if_neg running,Option.bind_eq_bind,Option.bind_some,Option.pure_def,procRate]

private theorem diff?_eq (before : ∀ c ∈ cpuTimes prev.cpu, accounted c < 2^64)
    (after : ∀ c ∈ cpuTimes cur.cpu, accounted c < 2^64) (netBefore : NetFits prev.nets)
    (netAfter : NetFits cur.nets) (procsBefore : ∀ key p, prev.procs.lookup key = some p → StatFits sys p.stat)
    (procsAfter : ∀ key p, cur.procs.lookup key = some p → StatFits sys p.stat) :
    diff? R sys order prev cur = some (diff R sys order prev cur) := by
  have rates := mapM_some (f := fun e => procRate? R sys (asSecsF64 R (cur.instant-prev.instant)) e.1
      (prev.procs.lookup e.1) e.2) (order.visit cur.procs.entries)
    (g := fun e => procRate R sys (asSecsF64 R (cur.instant-prev.instant)) e.1 (prev.procs.lookup e.1) e.2) (by
      intro e member
      have entry : cur.procs.lookup e.1 = some e.2 :=
        (Table.lookup_eq_some _ _ _).mpr ((order.perm _).mem_iff.mp member)
      exact procRate?_eq R sys _ e.1 (fun q found => procsBefore e.1 q found) (procsAfter e.1 e.2 entry))
  simp only [diff?,systemRate?_eq R before after netBefore netAfter,rates,Option.bind_eq_bind,Option.bind_some]
  rfl

private theorem netFits_of_diff? (defined : (diff? R sys order prev cur).isSome) :
    NetFits prev.nets ∧ NetFits cur.nets := by
  apply netFits_of_systemRate? R
  cases system : systemRate? R prev cur with
  | none => simp [diff?,system] at defined
  | some _ => rfl

/-- The texts one scan reads; `pids` are the process files. -/
structure Texts where
  stat : Str
  meminfo : Str
  netDev : Str
  pids : List Str

structure BuiltFrom (t : Texts) (s : Sample) : Prop where
  cpu : s.cpu = parseProcStat t.stat
  mem : s.mem = parseMeminfo t.meminfo
  nets : s.nets = parseNetDev t.netDev
  procs : ∀ key p, s.procs.lookup key = some p → ∃ text ∈ t.pids, parsePidStat text = some p.stat

/-- Nothing that is worked out from the texts leaves 64 bits. -/
structure Defined (t : Texts) : Prop where
  meminfo : (parseMeminfo? t.meminfo).isSome
  cpu : ∀ c ∈ cpuTimes (parseProcStat t.stat), c.total?.isSome ∧ c.busy?.isSome
  procs : ∀ text ∈ t.pids, ∀ p, parsePidStat text = some p → p.cpuTicks?.isSome ∧ (p.rssBytes? sys).isSome

structure Fits (t : Texts) : Prop where
  meminfo : EstimateFits t.meminfo
  cpu : ∀ c ∈ cpuTimes (parseProcStat t.stat), accounted c < 2^64
  procs : ∀ text ∈ t.pids, ∀ p, parsePidStat text = some p → StatFits sys p
  nets : NetFits (parseNetDev t.netDev)

private theorem defined_iff (t : Texts) : Defined sys t ∧ NetFits (parseNetDev t.netDev) ↔ Fits sys t := by
  refine ⟨?_,?_⟩
  · intro defined
    obtain ⟨⟨meminfo,cpu,procs⟩,nets⟩ := defined
    refine ⟨?_,?_,?_,nets⟩
    · rw [parseMeminfo?_eq] at meminfo
      exact Option.isSome_ite.mp meminfo
    · intro c member
      have total := (cpu c member).1
      rw [total?_eq] at total
      exact Option.isSome_ite.mp total
    · intro text member p read
      obtain ⟨ticks,resident⟩ := procs text member p read
      rw [cpuTicks?_eq] at ticks
      rw [rssBytes?_eq] at resident
      exact ⟨Option.isSome_ite.mp ticks,Option.isSome_ite.mp resident⟩
  · intro fits
    refine ⟨⟨?_,?_,?_⟩,fits.nets⟩
    · rw [parseMeminfo?_eq,if_pos fits.meminfo]
      rfl
    · intro c member
      have sum := fits.cpu c member
      rw [total?_eq,busy?_eq,if_pos sum,if_pos sum]
      exact ⟨rfl,rfl⟩
    · intro text member p read
      obtain ⟨ticks,resident⟩ := fits.procs text member p read
      rw [cpuTicks?_eq,rssBytes?_eq,if_pos ticks,if_pos resident]
      exact ⟨rfl,rfl⟩

/-- A scan stays within 64 bits exactly as long as the sums of the numbers it reads do. -/
theorem arithmetic_exact {t t' : Texts} (before : BuiltFrom t prev) (after : BuiltFrom t' cur) :
    (Defined sys t ∧ Defined sys t' ∧ (diff? R sys order prev cur).isSome) ↔ (Fits sys t ∧ Fits sys t') := by
  have procsFit {t : Texts} {s : Sample} (built : BuiltFrom t s) (fits : Fits sys t) :
      ∀ key p, s.procs.lookup key = some p → StatFits sys p.stat := by
    intro key p found
    obtain ⟨text,member,read⟩ := built.procs key p found
    exact fits.procs text member p.stat read
  refine ⟨?_,?_⟩
  · intro safe
    obtain ⟨defined,defined',diffed⟩ := safe
    obtain ⟨nets,nets'⟩ := netFits_of_diff? R sys order diffed
    exact ⟨(defined_iff sys t).mp ⟨defined,before.nets ▸ nets⟩,(defined_iff sys t').mp ⟨defined',after.nets ▸ nets'⟩⟩
  · intro fits
    obtain ⟨fits,fits'⟩ := fits
    refine ⟨((defined_iff sys t).mpr fits).1,((defined_iff sys t').mpr fits').1,?_⟩
    rw [diff?_eq R sys order (before.cpu ▸ fits.cpu) (after.cpu ▸ fits'.cpu) (before.nets ▸ fits.nets)
      (after.nets ▸ fits'.nets) (procsFit before fits) (procsFit after fits')]
    rfl

end

def sampleOf (t : Texts) : Sample :=
  ⟨0,parseProcStat t.stat,parseMeminfo t.meminfo,parseNetDev t.netDev,∅,0,0,0⟩

private theorem sampleOf_built (t : Texts) : BuiltFrom t (sampleOf t) := by
  refine ⟨rfl,rfl,rfl,?_⟩
  intro key p found
  cases found

def busyTexts : Texts where
  stat := "cpu  10 0 5 900 1 0 0 0 2 0\ncpu0 10 0 5 900 1 0 0 0 2 0\n".toList
  meminfo := "MemTotal: 1000 kB\nMemFree: 10 kB\nBuffers: 20 kB\nCached: 300 kB\n".toList
  netDev := "|\n|\n lo: 5 1 0 0 0 0 0 0 5 1 0 0 0 0 0 0\neth0: 1500 3 1 0 0 0 0 0 700 2 0 0 0 0 0 0\n".toList
  pids := ["7 (cafe) S 1 7 7 0 -1 0 0 0 0 0 5 6 0 0 20 0 1 0 100 4096 25".toList,"9 (cut".toList]

def cafe : PidStat := ⟨7,"cafe".toList,'S',1,5,6,1,100,4096,25⟩

private theorem cafe_read :
    parsePidStat "7 (cafe) S 1 7 7 0 -1 0 0 0 0 0 5 6 0 0 20 0 1 0 100 4096 25".toList = some cafe := by
  decide +kernel

def busy : Sample := {sampleOf busyTexts with procs := AList.singleton cafe.key ⟨cafe,none,none⟩}

private theorem busy_built : BuiltFrom busyTexts busy := by
  refine ⟨rfl,rfl,rfl,?_⟩
  intro key p found
  obtain ⟨_,value⟩ := Sigma.mk.inj (List.mem_singleton.mp ((Table.lookup_eq_some _ key p).mp found))
  obtain rfl := eq_of_heq value
  exact ⟨_,List.mem_cons_self,cafe_read⟩

theorem arithmetic_exact_busy : Defined (sysConst none none) busyTexts ∧ Defined (sysConst none none) busyTexts ∧
    (diff? .exact (sysConst none none) (.stored _) busy busy).isSome := by
  have fits : Fits (sysConst none none) busyTexts := by
    refine ⟨by decide +kernel,by decide +kernel,?_,?_⟩
    · intro text member p read
      rcases List.mem_pair.mp member with rfl | rfl
      · obtain rfl := Option.some.inj (cafe_read.symm.trans read)
        exact ⟨by decide,fun _ => by decide⟩
      · have malformed : parsePidStat "9 (cut".toList = none := by decide +kernel
        cases malformed.symm.trans read
    · unfold NetFits
      decide +kernel
  exact (arithmetic_exact .exact (sysConst none none) (.stored _) busy_built busy_built).mpr ⟨fits,fits⟩

def fullTexts : Texts := ⟨"cpu  18446744073709551615 1\n".toList,[],[],[]⟩

theorem arithmetic_overflows : (sysConst none none).pageSize.toNat ≤ 2^16 ∧ BuiltFrom fullTexts (sampleOf fullTexts) ∧
    ¬ (Defined (sysConst none none) fullTexts ∧ Defined (sysConst none none) fullTexts ∧
      (diff? .exact (sysConst none none) (.stored _) (sampleOf fullTexts) (sampleOf fullTexts)).isSome) := by
  refine ⟨by decide,sampleOf_built fullTexts,?_⟩
  intro safe
  have total := (safe.1.cpu _ List.mem_cons_self).1
  exact absurd total (by decide +kernel)

end Vitals.ArithmeticRange
