import Vitals.StatFormat
import Vitals.Kernel.Delta

/-! Per-core rates: cores are paired by their position in the two texts, which is right
as long as no core goes away or comes back in front of another. -/
namespace Vitals.CoreRates
open Kernel Semantics Text Word StatFormat

def cores (s : Str) : List Nat := (coreLines s).map Prod.fst

section
variable (R : Rounding) (sys : SysConst) (order : Iteration (Σ _ : ProcKey, ProcSample))

def entry (prev cur : Sample) (i : Nat) : Option F64 := (diff R sys order prev cur).system.perCpuPct[i]?

def corePct (c p : CpuTimes) : F64 :=
  pct R (saturatingSub c.busy p.busy) (saturatingSub c.total p.total)

/-- A core that is in both texts is compared with itself, and an entry depends on the
earlier counters of no other core. -/
def OwnCores (s t : Str) : Prop :=
  ∀ prev cur, prev.cpu = parseProcStat s → cur.cpu = parseProcStat t →
    ∀ i N c, (coreLines t)[i]? = some (N,c) →
      (∀ p, (N,p) ∈ coreLines s → entry R sys order prev cur i = some (corePct R c p)) ∧
      ∀ s' prev', prev'.cpu = parseProcStat s' → cores s' = cores s →
        (∀ p, (N,p) ∈ coreLines s' ↔ (N,p) ∈ coreLines s) →
          entry R sys order prev' cur i = entry R sys order prev cur i

/-- A line whose every rate is zero: no tick of it was busy, or they add up to nothing. -/
def Silent (c : CpuTimes) : Prop := c.busy = 0 ∨ c.total = 0

/-- Each line of the later text stands where the earlier one has its core's line, or beyond
the end of the earlier one where that has none, or its rate is zero in any case. -/
def Paired (s t : Str) : Prop :=
  ∀ (i N : Nat) c, (coreLines t)[i]? = some (N,c) → (cores s)[i]? = some N ∨
    ((cores s)[i]? = none ∧ N ∉ cores s) ∨ ((cores s)[i]? ≠ none ∧ Silent c)

variable {s t : Str} {prev cur : Sample}

private theorem entry_eq (before : prev.cpu = parseProcStat s) (after : cur.cpu = parseProcStat t) (i : Nat) :
    entry R sys order prev cur i =
      (coreLines t)[i]?.bind (fun c => (coreLines s)[i]?.map (fun p => corePct R c.2 p.2)) := by
  change ((cur.cpu.perCpu.zip prev.cpu.perCpu).map (fun e => corePct R e.1 e.2))[i]? = _
  rw [before,after,perCpu_eq,perCpu_eq,List.getElem?_map,List.zip_eq_zipWith,List.getElem?_zipWith,
    List.getElem?_map,List.getElem?_map]
  cases (coreLines t)[i]? with
  | none => rfl
  | some c => cases (coreLines s)[i]? <;> rfl

private theorem entry_of_lines (before : prev.cpu = parseProcStat s) (after : cur.cpu = parseProcStat t) {i : Nat}
    {N M : Nat} {c p : CpuTimes} (new : (coreLines t)[i]? = some (N,c)) (old : (coreLines s)[i]? = some (M,p)) :
    entry R sys order prev cur i = some (corePct R c p) := by
  rw [entry_eq R sys order before after,new,old]
  rfl

private theorem entry_beyond (before : prev.cpu = parseProcStat s) (after : cur.cpu = parseProcStat t) {i : Nat}
    (beyond : (cores s)[i]? = none) : entry R sys order prev cur i = none := by
  have none : (coreLines s)[i]? = none := by simpa [cores] using beyond
  rw [entry_eq R sys order before after,none]
  cases (coreLines t)[i]? <;> rfl

private theorem core_of_line {i M : Nat} (listed : (cores s)[i]? = some M) : ∃ p, (coreLines s)[i]? = some (M,p) := by
  rw [cores,List.getElem?_map] at listed
  obtain ⟨⟨N,p⟩,line,rfl⟩ := Option.map_eq_some_iff.mp listed
  exact ⟨p,line⟩

/-- A core has one line. -/
theorem line_unique (distinct : (cores s).Nodup) {i N : Nat} {p q : CpuTimes} (line : (coreLines s)[i]? = some (N,p))
    (member : (N,q) ∈ coreLines s) : q = p := by
  have same := List.inj_on_of_nodup_map distinct member (List.mem_of_getElem? line) rfl
  exact congrArg Prod.snd same

private theorem pct_zero (d : UInt64) : pct R 0 d = .fin 0 := by
  have hundred : R.ofNat 100 = .fin 100 := R.integers 100 (by omega)
  have scaled : R.mul (.fin 0) (.fin 100) = .fin 0 := by rw [Rounding.mul,zero_mul,R.round_zero]
  unfold pct
  split_ifs with still
  · rfl
  · rw [UInt64.toNat_zero,R.ofNat_zero,R.zero_div_ofNat (toNat_pos still),hundred,scaled]
    decide

private theorem corePct_silent {c : CpuTimes} (silent : Silent c) (p : CpuTimes) : corePct R c p = .fin 0 := by
  have nothing (x : UInt64) : saturatingSub 0 x = 0 := by
    apply UInt64.toNat_inj.mp
    simp
  rcases silent with busy | total
  · rw [corePct,busy,nothing,pct_zero]
  · rw [corePct,total,nothing,pct,if_pos rfl]

private theorem corePct_self (c : CpuTimes) : corePct R c c = .fin 0 := by
  have nothing : saturatingSub c.total c.total = 0 := by
    apply UInt64.toNat_inj.mp
    simp
  rw [corePct,nothing,pct,if_pos rfl]

private theorem pct_whole : pct R 1 1 = .fin 100 := by
  have hundred : R.ofNat 100 = .fin 100 := R.integers 100 (by omega)
  have ratio : R.div (.fin 1) (.fin 1) = .fin 1 := by rw [Rounding.div,if_neg one_ne_zero,div_one,R.round_one]
  have scaled : R.mul (.fin 1) (.fin 100) = .fin 100 := by
    rw [Rounding.mul,one_mul]
    exact hundred
  rw [pct,if_neg (by decide),UInt64.toNat_one,R.ofNat_one,ratio,hundred,scaled]
  decide

/-- The counters one busy tick ago. -/
def tickAgo (c : CpuTimes) : CpuTimes := {c with user := c.user - 1}

private theorem corePct_tickAgo {c : CpuTimes} (busy : c.busy ≠ 0) (total : c.total ≠ 0) :
    corePct R c (tickAgo c) = .fin 100 := by
  have one {x : UInt64} (some_ : x ≠ 0) : saturatingSub x (x - 1) = 1 := by
    have first : (1 : UInt64) ≤ x := UInt64.le_iff_toNat_le.mpr (toNat_pos some_)
    have positive := toNat_pos some_
    have less : (x - 1).toNat = x.toNat - 1 := UInt64.toNat_sub_of_le x 1 first
    apply UInt64.toNat_inj.mp
    rw [toNat_saturatingSub,less]
    change x.toNat - (x.toNat - 1) = 1
    omega
  have before : (tickAgo c).total = c.total - 1 := by
    unfold tickAgo CpuTimes.total
    grind
  have busyBefore : (tickAgo c).busy = c.busy - 1 := by
    unfold CpuTimes.busy
    rw [before]
    unfold tickAgo
    grind
  rw [corePct,before,busyBefore,one busy,one total,pct_whole]

/-- A whole text of `stat` with the given cores. -/
def rendering (entries : List (Nat × CpuTimes)) : List StatLine :=
  .cpu [] :: entries.map (fun e => .core e.1 (columnsOf e.2)) ++ [.ctxt 0,.procsRunning 0,.procsBlocked 0]

def statText (entries : List (Nat × CpuTimes)) : Str := unlines ((rendering entries).map StatLine.text)

private theorem lines_statText (entries : List (Nat × CpuTimes)) :
    lines (statText entries) = (rendering entries).map StatLine.text := by
  apply lines_unlines
  intro line member
  obtain ⟨item,inside,rfl⟩ := List.mem_map.mp member
  apply plain_of_unbroken
  apply text_unbroken
  intro line same
  subst same
  simp [rendering] at inside

private theorem coreLines_statText (entries : List (Nat × CpuTimes)) : coreLines (statText entries) = entries := by
  have read (c : CpuTimes) : parseCpuLine (spaced (columnsOf c)) = c := parseCpuLine_shown (split_numbers _) rfl
  have selected : (rendering entries).filterMap StatLine.core? = entries.map (fun e => (e.1,columnsOf e.2)) := by
    change (entries.map (fun e => StatLine.core e.1 (columnsOf e.2)) ++ _).filterMap StatLine.core? = _
    rw [List.filterMap_append,List.filterMap_map]
    exact (List.append_nil _).trans (congrFun List.filterMap_eq_map entries)
  rw [coreLines_text (lines_statText entries),selected,List.map_map]
  exact (List.map_congr_left (fun e _ => by simp [read])).trans (List.map_id _)

/-- The earlier text with other counters for one core. -/
def withCore (s : Str) (M : Nat) (q : CpuTimes) : Str :=
  statText ((coreLines s).map (fun e => if e.1 = M then (M,q) else e))

private theorem cores_withCore (M : Nat) (q : CpuTimes) : cores (withCore s M q) = cores s := by
  rw [cores,withCore,coreLines_statText,List.map_map,cores]
  apply List.map_congr_left
  intro e _
  by_cases own : e.1 = M <;> simp [own]

private theorem line_withCore {i M : Nat} {p : CpuTimes} (q : CpuTimes) (line : (coreLines s)[i]? = some (M,p)) :
    (coreLines (withCore s M q))[i]? = some (M,q) := by
  rw [withCore,coreLines_statText,List.getElem?_map,line]
  simp

private theorem mem_withCore {M N : Nat} (other : N ≠ M) (q p : CpuTimes) :
    (N,p) ∈ coreLines (withCore s M q) ↔ (N,p) ∈ coreLines s := by
  rw [withCore,coreLines_statText,List.mem_map]
  refine ⟨?_,?_⟩
  · intro kept
    obtain ⟨e,member,same⟩ := kept
    split_ifs at same with own
    · exact absurd (congrArg Prod.fst same).symm other
    · exact same ▸ member
  · intro member
    exact ⟨(N,p),member,if_neg other⟩

def unsampled (s : Str) : Sample := ⟨0,parseProcStat s,{},[],∅,0,0,0⟩

private theorem cpu_unsampled (s : Str) : (unsampled s).cpu = parseProcStat s := rfl

private theorem entry_unsampled {i N M : Nat} {c p : CpuTimes} (new : (coreLines t)[i]? = some (N,c))
    (old : (coreLines s)[i]? = some (M,p)) : entry R sys order (unsampled s) (unsampled t) i = some (corePct R c p) :=
  entry_of_lines R sys order (cpu_unsampled s) (cpu_unsampled t) new old

/-- A line that is compared with another core's is told apart from that core one tick ago. -/
theorem silent_of_ownCores (own : OwnCores R sys order s t) {i M N : Nat} {c p : CpuTimes}
    (new : (coreLines t)[i]? = some (N,c)) (old : (coreLines s)[i]? = some (M,p)) (other : N ≠ M) : Silent c := by
  by_contra loud
  obtain ⟨busy,total⟩ := not_or.mp loud
  have same (q : CpuTimes) : corePct R c q = corePct R c p := by
    have independent := (own (unsampled s) (unsampled t) (cpu_unsampled s) (cpu_unsampled t) i N c new).2
      (withCore s M q) (unsampled (withCore s M q)) (cpu_unsampled _) (cores_withCore M q) (mem_withCore other q)
    rw [entry_unsampled R sys order new (line_withCore q old),entry_unsampled R sys order new old] at independent
    exact Option.some.inj independent
  have shown : F64.fin 0 = .fin 100 := calc
    F64.fin 0 = corePct R c c := (corePct_self R c).symm
    _ = corePct R c p := same c
    _ = corePct R c (tickAgo c) := (same (tickAgo c)).symm
    _ = .fin 100 := corePct_tickAgo R busy total
  exact absurd shown (by decide)

private theorem ownCores_of_paired (distinct : (cores s).Nodup) (paired : Paired s t) : OwnCores R sys order s t := by
  intro prev cur before after i N c new
  rcases paired i N c new with own | ⟨beyond,missing⟩ | ⟨inside,silent⟩
  · -- the line of the core itself
    obtain ⟨p,old⟩ := core_of_line own
    refine ⟨?_,?_⟩
    · intro q member
      rw [line_unique distinct old member]
      exact entry_of_lines R sys order before after new old
    · intro s' prev' before' same agree
      obtain ⟨p',old'⟩ := core_of_line (same ▸ own)
      have kept := line_unique distinct old ((agree p').mp (List.mem_of_getElem? old'))
      rw [entry_of_lines R sys order before' after new old',entry_of_lines R sys order before after new old,kept]
  · -- beyond the earlier text there is no entry, whatever it counted
    refine ⟨?_,?_⟩
    · intro q member
      exact absurd (List.mem_map_of_mem member) missing
    · intro s' prev' before' same _
      rw [entry_beyond R sys order before' after (same ▸ beyond),entry_beyond R sys order before after beyond]
  · obtain ⟨M,listed⟩ := Option.ne_none_iff_exists'.mp inside
    have rate {s' : Str} {prev' : Sample} (before' : prev'.cpu = parseProcStat s') (same : cores s' = cores s) :
        entry R sys order prev' cur i = some (.fin 0) := by
      obtain ⟨p',old'⟩ := core_of_line (same ▸ listed)
      rw [entry_of_lines R sys order before' after new old',corePct_silent R silent]
    refine ⟨?_,?_⟩
    · intro q _
      rw [rate before rfl,corePct_silent R silent]
    · intro s' prev' before' same _
      rw [rate before' same,rate before rfl]

private theorem paired_of_ownCores (own : OwnCores R sys order s t) : Paired s t := by
  intro i N c new
  cases listed : (cores s)[i]? with
  | none =>
    refine .inr (.inl ⟨rfl,?_⟩)
    intro member
    obtain ⟨⟨M,p⟩,line,rfl⟩ := List.mem_map.mp member
    have shown := (own (unsampled s) (unsampled t) (cpu_unsampled s) (cpu_unsampled t) i M c new).1 p line
    rw [entry_beyond R sys order (cpu_unsampled s) (cpu_unsampled t) listed] at shown
    cases shown
  | some M =>
    obtain ⟨p,old⟩ := core_of_line listed
    by_cases same : N = M
    · exact .inl (congrArg some same.symm)
    · exact .inr (.inr ⟨by simp,silent_of_ownCores R sys order own new old same⟩)

/-- Cores are compared with themselves exactly as long as the line of each stands in the
same place as before, lines that show no work apart. -/
theorem core_rates_exact (distinct : (cores s).Nodup) : OwnCores R sys order s t ↔ Paired s t :=
  ⟨paired_of_ownCores R sys order,ownCores_of_paired R sys order distinct⟩

end

def allOnline : Str :=
  "cpu  300 0 0 700\ncpu0 100 0 0 200\ncpu1 150 0 0 100\ncpu2 50 0 0 400\nctxt 10\nprocs_running 1\nprocs_blocked 0\n".toList

def oneOffline : Str :=
  "cpu  320 0 0 880\ncpu0 110 0 0 290\ncpu2 60 0 0 490\nctxt 20\nprocs_running 1\nprocs_blocked 0\n".toList

private theorem coreLines_allOnline : coreLines allOnline =
    [(0,{user := 100,idle := 200}),(1,{user := 150,idle := 100}),(2,{user := 50,idle := 400})] := by
  have characters : allOnline = _ := String.toList_ofList
  rw [characters]
  decide +kernel

private theorem coreLines_oneOffline : coreLines oneOffline =
    [(0,{user := 110,idle := 290}),(2,{user := 60,idle := 490})] := by
  have characters : oneOffline = _ := String.toList_ofList
  rw [characters]
  decide +kernel

private theorem distinct_allOnline : (cores allOnline).Nodup := by
  rw [cores,coreLines_allOnline]
  decide

def lastOffline : Str :=
  "cpu  280 0 0 480\ncpu0 110 0 0 290\ncpu1 170 0 0 190\nctxt 20\nprocs_running 1\nprocs_blocked 0\n".toList

theorem core_rates_exact_last : OwnCores .exact (sysConst none none) (.stored _) allOnline lastOffline := by
  have characters : lastOffline = _ := String.toList_ofList
  have listed : coreLines lastOffline = [(0,{user := 110,idle := 290}),(1,{user := 170,idle := 190})] := by
    rw [characters]
    decide +kernel
  apply (core_rates_exact .exact (sysConst none none) (.stored _) distinct_allOnline).mpr
  intro i N c new
  left
  rw [listed] at new
  rw [cores,coreLines_allOnline]
  rcases i with _ | _ | i
  · obtain ⟨rfl,_⟩ := Prod.mk.inj (Option.some.inj new)
    rfl
  · obtain ⟨rfl,_⟩ := Prod.mk.inj (Option.some.inj new)
    rfl
  · cases new

/-- The third core was busy for a tenth of its time, and is shown idle. -/
theorem core_rates_crossed : (cores allOnline).Nodup ∧ (cores oneOffline).Nodup ∧
    ¬ OwnCores .exact (sysConst none none) (.stored _) allOnline oneOffline := by
  refine ⟨distinct_allOnline,?_,?_⟩
  · rw [cores,coreLines_oneOffline]
    decide
  · intro own
    have old : (coreLines allOnline)[1]? = some (1,{user := 150,idle := 100}) := by rw [coreLines_allOnline]; rfl
    have new : (coreLines oneOffline)[1]? = some (2,{user := 60,idle := 490}) := by rw [coreLines_oneOffline]; rfl
    have member : (2,{user := 50,idle := 400}) ∈ coreLines allOnline := by rw [coreLines_allOnline]; decide
    have claimed := (own (unsampled allOnline) (unsampled oneOffline) (cpu_unsampled _) (cpu_unsampled _)
      1 2 _ new).1 _ member
    rw [entry_of_lines .exact (sysConst none none) (.stored _) (cpu_unsampled _) (cpu_unsampled _) new old] at claimed
    exact absurd claimed (by decide +kernel)

end Vitals.CoreRates
