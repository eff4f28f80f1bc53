import Vitals.DeltaRates
import Vitals.EngineRound

/-! What the I/O rules look at. A rate needs two readings of a process's own counter; the
engine sees one as soon as the later reading is there. -/
namespace Vitals.RuleRates
open Kernel Semantics EngineRound DeltaRates

theorem asSecsF64_pos (R : Rounding) {duration : Nat} (positive : 0 < duration) :
    .fin 0 < asSecsF64 R duration := by
  have scale : ((10^9 : Nat) : ℚ) ≠ 0 := by norm_num
  have part : R.div (R.ofNat (duration % 10^9)) (R.ofNat (10^9)) =
      R.round ((duration % 10^9 : Nat)/(10^9 : Nat)) := by
    rw [Rounding.ofNat,Rounding.ofNat,R.integers _ (by omega),R.integers _ (by norm_num),Rounding.div,if_neg scale]
  rw [asSecsF64,part]
  apply Rounding.pos_of_tiny_le
  have tiny : (1/2^1074 : ℚ) ≤ 1/10^9 :=
    one_div_le_one_div_of_le (by positivity) (le_trans (b := (2 : ℚ)^30) (by norm_num)
      (pow_le_pow_right₀ (by norm_num) (by norm_num)))
  apply R.tiny_le_add (R.round_nonneg (by positivity)) (R.round_nonneg (by positivity))
  -- whole seconds or not, one of the two terms is at least a nanosecond
  by_cases whole : duration / 10^9 = 0
  · right
    have rest : 1 ≤ duration % 10^9 := by omega
    refine R.tiny_le_round (le_trans tiny ?_)
    rw [Nat.cast_pow,Nat.cast_ofNat]
    gcongr
    exact_mod_cast rest
  · left
    refine R.tiny_le_round (le_trans tiny (le_trans (b := (1 : ℚ)) (by norm_num) ?_))
    exact_mod_cast Nat.one_le_iff_ne_zero.mpr whole

theorem rate_pos (R : Rounding) (cur prev : UInt64) {secs : F64} (running : .fin 0 < secs) :
    rate R cur prev secs = R.div (R.ofNat (cur.toNat-prev.toNat)) secs := by
  rw [rate,if_neg (F64.not_le_of_lt running),Word.toNat_saturatingSub]

def counterOf : Metric → PidIo → UInt64
  | .writeBps => PidIo.writeBytes
  | _ => PidIo.readBytes

private theorem procValue_io (R : Rounding) (sys : SysConst) (secs : F64) (rule : Rule) (key : ProcKey)
    (p : Option ProcSample) (c : ProcSample) (metric : rule.metric = .readBps ∨ rule.metric = .writeBps) (v : F64) :
    procValue R rule (procRate R sys secs key p c) = some v ↔
      rule.target.isMatch c.stat.comm = true ∧ ∃ old ci, p = some old ∧ c.io = some ci ∧
        v = match old.io with
          | some pi => rate R (counterOf rule.metric ci) (counterOf rule.metric pi) secs
          | none => .fin 0 := by
  unfold procValue procRate
  cases matching : rule.target.isMatch c.stat.comm with
  | false => simp
  | true =>
    cases p with
    | none => simp
    | some old =>
      rcases metric with metric | metric <;> cases before : old.io <;> cases c.io <;>
        simp [metric,before,counterOf,eq_comm]

section
variable (R : Rounding) (sys : SysConst) (order : Iteration (Σ _ : ProcKey, ProcSample)) (prev cur : Sample)

private theorem identity_injective {a b : ProcKey} (same : (a.pid,a.starttime) = (b.pid,b.starttime)) : a = b := by
  obtain ⟨pid,starttime⟩ := Prod.mk.inj same
  cases a
  cases b
  simp_all

theorem diff_identities : ((diff R sys order prev cur).procs.map identity).Nodup := by
  have keys := (diff_distinct R sys order prev cur).map
    (f := fun key : ProcKey => (key.pid,key.starttime)) (fun _ _ same => identity_injective same)
  rwa [List.map_map] at keys

private theorem reading_diff (rule : Rule) (process : rule.target.isProcess = true) (key : ProcKey) (v : F64)
    (l : Text.Str) :
    reading R rule (diff R sys order prev cur) (some (key.pid,key.starttime)) = some (v,l) ↔
      ∃ c, cur.procs.lookup key = some c ∧
        let p := procRate R sys (asSecsF64 R (cur.instant-prev.instant)) key (prev.procs.lookup key) c
        procValue R rule p = some v ∧ procLabel p = l := by
  cases target : rule.target with
  | system => simp [target,Target.isProcess] at process
  | process pattern =>
    simp only [reading,target,Option.bind_eq_some_iff,find_identity (diff_identities R sys order prev cur),
      mem_diff,Option.map_eq_some_iff,Prod.mk.injEq]
    refine ⟨?_,?_⟩
    · intro told
      obtain ⟨p,⟨⟨k,c,found,rfl⟩,same⟩,_,read,rfl,rfl⟩ := told
      obtain rfl := identity_injective same
      exact ⟨c,found,read,rfl⟩
    · intro told
      obtain ⟨c,found,read,rfl⟩ := told
      exact ⟨_,⟨⟨key,c,found,rfl⟩,rfl⟩,v,read,rfl,rfl⟩

/-- The value is the growth of the process's own counter over the interval. -/
def IsRate (metric : Metric) (key : ProcKey) (v : F64) : Prop :=
  ∃ p c pi ci, prev.procs.lookup key = some p ∧ cur.procs.lookup key = some c ∧
    p.io = some pi ∧ c.io = some ci ∧
    v = R.div (R.ofNat ((counterOf metric ci).toNat-(counterOf metric pi).toNat))
      (asSecsF64 R (cur.instant-prev.instant))

/-- An old process whose counters have become readable in between. -/
def Appears (rule : Rule) (key : ProcKey) : Prop :=
  ∃ p c, prev.procs.lookup key = some p ∧ cur.procs.lookup key = some c ∧
    rule.target.isMatch c.stat.comm = true ∧ p.io = none ∧ c.io.isSome

end

/-- A process is stepped on its rates alone exactly unless its counters have just become
readable, when it is stepped on a zero in their place. -/
theorem rates_defined_exact (R : Rounding) (sys : SysConst) (order : Iteration (Σ _ : ProcKey, ProcSample))
    (rules : List Rule) (prev cur : Sample) (later : prev.instant < cur.instant) (r : Nat) (rule : Rule)
    (indexed : rules[r]? = some rule) (process : rule.target.isProcess = true)
    (metric : rule.metric = .readBps ∨ rule.metric = .writeBps) (key : ProcKey) :
    (∀ v l, (⟨r,some (key.pid,key.starttime)⟩,(v,l)) ∈ stepCalls R rules (diff R sys order prev cur) →
      IsRate R prev cur rule.metric key v) ↔ ¬ Appears prev cur rule key := by
  have running := asSecsF64_pos R (Nat.sub_pos_of_lt later)
  have stepped (v : F64) (l : Text.Str) :
      (⟨r,some (key.pid,key.starttime)⟩,(v,l)) ∈ stepCalls R rules (diff R sys order prev cur) ↔
        reading R rule (diff R sys order prev cur) (some (key.pid,key.starttime)) = some (v,l) := by
    rw [mem_stepCalls R rules (diff_identities R sys order prev cur)]
    simp [indexed]
  simp only [stepped,reading_diff R sys order prev cur rule process key,procValue_io _ _ _ _ _ _ _ metric]
  refine ⟨?_,?_⟩
  · intro sound appears
    obtain ⟨p,c,before,after,matching,unread,readable⟩ := appears
    obtain ⟨ci,io⟩ := Option.isSome_iff_exists.mp readable
    obtain ⟨p',_,pi,_,before',_,io',_⟩ := sound (.fin 0) _
      ⟨c,after,⟨matching,p,ci,before,io,by rw [unread]⟩,rfl⟩
    rw [Option.some.inj (before'.symm.trans before),unread] at io'
    cases io'
  · intro steady v l told
    obtain ⟨c,after,⟨matching,p,ci,before,io,value⟩,_⟩ := told
    cases old : p.io with
    | none => exact absurd ⟨p,c,before,after,matching,old,by simp [io]⟩ steady
    | some pi =>
      rw [old] at value
      exact ⟨p,c,pi,ci,before,after,old,io,value.trans (rate_pos R _ _ running)⟩

def idleDisk : Rule := ⟨"idle_disk".toList,.process "*".toList,.readBps,.lt,.fin 10,0,.fin 10,false,false⟩

def oneSecond (before after : Option PidIo) : Snapshot :=
  diff .exact (sysConst none none) (.stored _) (oneProcess 0 0 before) (oneProcess (10^9) 0 after)

private theorem idle_stepped {before : Option PidIo} {after : PidIo} {v : F64}
    (told : reading .exact idleDisk (oneSecond before (some after)) (some (7,100)) = some (v,"worker (pid 7)".toList)) :
    (⟨0,some (7,100)⟩,(v,"worker (pid 7)".toList)) ∈ stepCalls .exact [idleDisk] (oneSecond before (some after)) :=
  (mem_stepCalls .exact [idleDisk] (diff_identities .exact _ _ _ _) ⟨0,some (7,100)⟩ _).mpr ⟨idleDisk,rfl,told⟩

def readSoFar (bytes : UInt64) : PidIo := ⟨7000,900,bytes,0⟩

theorem rates_defined_exact_readable : IsRate .exact (oneProcess 0 0 (some (readSoFar 4096)))
    (oneProcess (10^9) 0 (some (readSoFar 4101))) .readBps ⟨7,100⟩ (.fin 5) := by
  have told : reading .exact idleDisk (oneSecond (some (readSoFar 4096)) (some (readSoFar 4101))) (some (7,100)) =
      some (.fin 5,"worker (pid 7)".toList) :=
    (reading_diff .exact _ _ _ _ idleDisk rfl ⟨7,100⟩ _ _).mpr ⟨_,rfl,by decide +kernel⟩
  refine (rates_defined_exact .exact (sysConst none none) (.stored _) [idleDisk]
    (oneProcess 0 0 (some (readSoFar 4096))) (oneProcess (10^9) 0 (some (readSoFar 4101))) (by decide) 0 idleDisk rfl rfl
    (.inl rfl) ⟨7,100⟩).mpr ?_ _ _ (idle_stepped told)
  intro appears
  obtain ⟨p,_,before,_,_,unread,_⟩ := appears
  obtain rfl := Option.some.inj before
  cases unread

theorem zero_in_place_of_rate : ¬ ∀ v l,
    (⟨0,some (7,100)⟩,(v,l)) ∈ stepCalls .exact [idleDisk] (oneSecond none (some {})) →
      IsRate .exact (oneProcess 0 0 none) (oneProcess (10^9) 0 (some {})) .readBps ⟨7,100⟩ v := by
  intro sound
  have told : reading .exact idleDisk (oneSecond none (some {})) (some (7,100)) =
      some (.fin 0,"worker (pid 7)".toList) :=
    (reading_diff .exact _ _ _ _ idleDisk rfl ⟨7,100⟩ _ _).mpr ⟨_,rfl,by decide +kernel⟩
  obtain ⟨p,_,_,_,before,_,read,_⟩ := sound _ _ (idle_stepped told)
  obtain rfl := Option.some.inj before
  cases read

end Vitals.RuleRates
