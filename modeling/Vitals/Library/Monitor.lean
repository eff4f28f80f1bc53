import Mathlib.Data.List.Forall2
import Mathlib.Data.Nat.Init
import Mathlib.Tactic.Common

/-! A debounced alarm with a deadband, over arbitrary observations. It goes off once
its condition has held for long enough and stays on until a wider condition fails or
the observed thing disappears. -/
namespace Vitals

structure Monitor (V : Type) where
  trips : V → Bool
  holds : V → Bool
  sustain : Nat

/-- What one call tells an alarm: the clock, and a labelled value unless there is
nothing to see. -/
structure Observation (V L : Type) where
  now : Nat
  seen : Option (V × L)

namespace Monitor
variable {V L : Type}

inductive Phase (L : Type) where
  | inactive
  | pending (since : Nat) (label : L)
  | firing (since : Nat) (label : L)

inductive Signal (V L : Type) where
  | fired (value : V) (label : L) (held : Nat)
  | cleared (value : V) (label : L) (held : Nat)
  | gone (label : L) (held : Nat)

def Phase.isFiring : Phase L → Bool
  | .firing _ _ => true
  | _ => false

def Phase.label : Phase L → Option L
  | .inactive => none
  | .pending _ label => some label
  | .firing _ label => some label

def Signal.isFired : Signal V L → Bool
  | .fired _ _ _ => true
  | _ => false

def next (m : Monitor V) (o : Observation V L) : Phase L → Phase L × Option (Signal V L)
  | .inactive => match o.seen with
    | none => (.inactive,none)
    | some (v,l) =>
      if m.trips v then
        if m.sustain = 0 then (.firing o.now l,some (.fired v l 0)) else (.pending o.now l,none)
      else (.inactive,none)
  | .pending since _ => match o.seen with
    | none => (.inactive,none)
    | some (v,l) =>
      if m.trips v then
        if m.sustain ≤ o.now-since then (.firing o.now l,some (.fired v l (o.now-since)))
        else (.pending since l,none)
      else (.inactive,none)
  | .firing since label => match o.seen with
    | none => (.inactive,some (.gone label (o.now-since)))
    | some (v,l) =>
      if m.holds v then (.firing since l,none) else (.inactive,some (.cleared v l (o.now-since)))

/-- Everything a call can do, with what it is conditional on. -/
inductive Move (m : Monitor V) (o : Observation V L) : Phase L → Phase L → Option (Signal V L) → Prop
  | rest (quiet : ∀ v l, o.seen = some (v,l) → m.trips v = false) : Move m o .inactive .inactive none
  | arm (v l) (seen : o.seen = some (v,l)) (trip : m.trips v = true) (delay : m.sustain ≠ 0) :
      Move m o .inactive (.pending o.now l) none
  | fireNow (v l) (seen : o.seen = some (v,l)) (trip : m.trips v = true) (prompt : m.sustain = 0) :
      Move m o .inactive (.firing o.now l) (some (.fired v l 0))
  | relax (since label) (quiet : ∀ v l, o.seen = some (v,l) → m.trips v = false) :
      Move m o (.pending since label) .inactive none
  | wait (since label v l) (seen : o.seen = some (v,l)) (trip : m.trips v = true)
      (early : o.now-since < m.sustain) : Move m o (.pending since label) (.pending since l) none
  | fire (since label v l) (seen : o.seen = some (v,l)) (trip : m.trips v = true)
      (due : m.sustain ≤ o.now-since) :
      Move m o (.pending since label) (.firing o.now l) (some (.fired v l (o.now-since)))
  | hold (since label v l) (seen : o.seen = some (v,l)) (still : m.holds v = true) :
      Move m o (.firing since label) (.firing since l) none
  | clear (since label v l) (seen : o.seen = some (v,l)) (back : m.holds v = false) :
      Move m o (.firing since label) .inactive (some (.cleared v l (o.now-since)))
  | vanish (since label) (absent : o.seen = none) :
      Move m o (.firing since label) .inactive (some (.gone label (o.now-since)))

theorem next_move (m : Monitor V) (o : Observation V L) (phase : Phase L) :
    Move m o phase (m.next o phase).1 (m.next o phase).2 := by
  have quiet {v : V} {l : L} (seen : o.seen = some (v,l)) (trip : m.trips v = false) :
      ∀ w k, o.seen = some (w,k) → m.trips w = false := by
    intro w k other
    rw [seen] at other
    cases other
    exact trip
  cases phase with
  | inactive =>
    simp only [next]
    split
    · rename_i absent
      exact .rest (by simp [absent])
    · rename_i v l seen
      split_ifs with trip prompt
      · exact .fireNow v l seen trip prompt
      · exact .arm v l seen trip prompt
      · exact .rest (quiet seen (by simpa using trip))
  | pending since label =>
    simp only [next]
    split
    · rename_i absent
      exact .relax since label (by simp [absent])
    · rename_i v l seen
      split_ifs with trip due
      · exact .fire since label v l seen trip due
      · exact .wait since label v l seen trip (by omega)
      · exact .relax since label (quiet seen (by simpa using trip))
  | firing since label =>
    simp only [next]
    split
    · rename_i absent
      exact .vanish since label absent
    · rename_i v l seen
      split_ifs with still
      · exact .hold since label v l seen still
      · exact .clear since label v l seen (by simpa using still)

theorem next_balance (m : Monitor V) (o : Observation V L) (phase : Phase L) :
    (if (m.next o phase).1.isFiring then 1 else 0 : Int) = (if phase.isFiring then 1 else 0) +
      ((m.next o phase).2.map (fun s => if s.isFired then (1 : Int) else -1)).getD 0 := by
  have move := next_move m o phase
  generalize (m.next o phase).1 = after at move
  generalize (m.next o phase).2 = signal at move
  cases move <;> rfl

section Runs
variable (m : Monitor V) (run : Nat → Observation V L)

/-- The phase before call `k` of an endless run; every finite run is a prefix of one. -/
def phaseAt : Nat → Phase L
  | 0 => .inactive
  | k+1 => (m.next (run k) (phaseAt k)).1

def signalAt (k : Nat) : Option (Signal V L) := (m.next (run k) (phaseAt m run k)).2

theorem move_at (k : Nat) :
    Move m (run k) (phaseAt m run k) (phaseAt m run (k+1)) (signalAt m run k) :=
  next_move m (run k) (phaseAt m run k)

variable {m run} in
/-- An alarm that is not at rest is labelled by what its last call has seen. -/
theorem label_seen {k : Nat} {l : L} (labelled : (phaseAt m run (k+1)).label = some l) :
    ∃ v, (run k).seen = some (v,l) := by
  have move := move_at m run k
  generalize phaseAt m run (k+1) = after at move labelled
  generalize phaseAt m run k = before at move
  generalize signalAt m run k = signal at move
  cases move with
  | rest quiet | relax since label quiet | clear since label v l seen back
  | vanish since label absent => cases labelled
  | arm v l seen trip delay | fireNow v l seen trip prompt | wait since label v l seen trip early
  | fire since label v l seen trip due | hold since label v l seen still =>
    cases labelled
    exact ⟨v,seen⟩

variable {run} in
theorem phaseAt_congr {other : Nat → Observation V L} (k : Nat) (same : ∀ i, i < k → run i = other i) :
    phaseAt m run k = phaseAt m other k := by
  induction k with
  | zero => rfl
  | succ k ih =>
    have before := ih (fun i inside => same i (by omega))
    simp only [phaseAt,before,same k (by omega)]

variable {run} in
theorem signalAt_congr {other : Nat → Observation V L} (k : Nat) (same : ∀ i, i ≤ k → run i = other i) :
    signalAt m run k = signalAt m other k := by
  have before := phaseAt_congr m k (fun i inside => same i (by omega))
  rw [signalAt,signalAt,before,same k (Nat.le_refl k)]

def TripsAt (k : Nat) : Prop := ∃ v l, (run k).seen = some (v,l) ∧ m.trips v = true

def HoldsAt (k : Nat) : Prop := ∃ v l, (run k).seen = some (v,l) ∧ m.holds v = true

/-- `j` is the first call of the uninterrupted streak of tripping calls ending at `k`. -/
structure StreakFrom (j k : Nat) : Prop where
  ordered : j ≤ k
  trips : ∀ i, j ≤ i → i ≤ k → TripsAt m run i
  first : ∀ i, i+1 = j → ¬ TripsAt m run i

variable {m run}

theorem StreakFrom.unique {i j k : Nat} (left : StreakFrom m run i k) (right : StreakFrom m run j k) :
    i = j := by
  rcases Nat.lt_trichotomy i j with before | same | after
  · exact absurd (left.trips (j-1) (by omega) (by have := right.ordered; omega)) (right.first (j-1) (by omega))
  · exact same
  · exact absurd (right.trips (i-1) (by omega) (by have := left.ordered; omega)) (left.first (i-1) (by omega))

theorem StreakFrom.single {k : Nat} (trip : TripsAt m run k) (fresh : ∀ i, i+1 = k → ¬ TripsAt m run i) :
    StreakFrom m run k k where
  ordered := Nat.le_refl k
  trips := by
    intro i low high
    rwa [Nat.le_antisymm high low]
  first := fresh

theorem StreakFrom.extend {j k : Nat} (streak : StreakFrom m run j k) (trip : TripsAt m run (k+1)) :
    StreakFrom m run j (k+1) where
  ordered := Nat.le_succ_of_le streak.ordered
  trips := by
    intro i low high
    rcases Nat.lt_or_eq_of_le high with before | rfl
    · exact streak.trips i low (by omega)
    · exact trip
  first := streak.first

/-- The conditions are nested: whatever sets the alarm off also keeps it on. -/
def Nested (m : Monitor V) : Prop := ∀ v, m.trips v = true → m.holds v = true

theorem active_of_trips (nested : Nested m) {k : Nat} (trip : TripsAt m run k) :
    phaseAt m run (k+1) ≠ .inactive := by
  obtain ⟨v,l,seen,trip⟩ := trip
  have move := move_at m run k
  intro rest
  rw [rest] at move
  generalize phaseAt m run k = before at move
  generalize signalAt m run k = signal at move
  cases move with
  | rest quiet => simp [quiet v l seen] at trip
  | relax since label quiet => simp [quiet v l seen] at trip
  | clear since label w k' other back =>
    cases seen.symm.trans other
    simp [nested v trip] at back
  | vanish since label absent => simp [absent] at seen

/-- A pending phase remembers the start of the current streak, no call of which has
been due yet. -/
theorem pending_streak (nested : Nested m) (k since : Nat) (label : L)
    (pending : phaseAt m run (k+1) = .pending since label) :
    ∃ j, StreakFrom m run j k ∧ since = (run j).now ∧
      ∀ i, j ≤ i → i ≤ k → (run i).now-(run j).now < m.sustain := by
  induction k generalizing since label with
  | zero =>
    have move := move_at m run 0
    rw [pending] at move
    simp only [phaseAt] at move
    generalize signalAt m run 0 = signal at move
    cases move with
    | arm v l seen trip delay =>
      refine ⟨0,.single ⟨v,label,seen,trip⟩ (by omega),rfl,?_⟩
      intro i _ high
      obtain rfl : i = 0 := by omega
      omega
  | succ k ih =>
    have move := move_at m run (k+1)
    rw [pending] at move
    generalize before : phaseAt m run (k+1) = phase at move
    generalize signalAt m run (k+1) = signal at move
    cases move with
    | arm v l seen trip delay =>
      -- a tripping call just before would have left the alarm active
      refine ⟨k+1,.single ⟨v,label,seen,trip⟩ ?_,rfl,?_⟩
      · intro i same tripped
        obtain rfl : i = k := by omega
        exact active_of_trips nested tripped before
      · intro i low high
        obtain rfl : i = k+1 := by omega
        omega
    | wait _ old v l seen trip early =>
      obtain ⟨j,streak,start,undue⟩ := ih since old before
      refine ⟨j,streak.extend ⟨v,label,seen,trip⟩,start,?_⟩
      intro i low high
      rcases Nat.lt_or_eq_of_le high with inside | rfl
      · exact undue i low (by omega)
      · rwa [← start]

/-- The alarm goes off in a call exactly when it was not already on and this call is
the first of its streak to be due, and it reports how long the streak has lasted. -/
theorem fired_iff (nested : Nested m) (k held : Nat) :
    (∃ v l, signalAt m run k = some (.fired v l held)) ↔
      (phaseAt m run k).isFiring = false ∧ ∃ j, StreakFrom m run j k ∧
        held = (run k).now-(run j).now ∧ m.sustain ≤ held ∧
        ∀ i, j ≤ i → i < k → (run i).now-(run j).now < m.sustain := by
  have idle (i : Nat) (same : i+1 = k) (rest : phaseAt m run k = .inactive) : ¬ TripsAt m run i := by
    subst same
    exact fun tripped => active_of_trips nested tripped rest
  refine ⟨?_,?_⟩
  · intro emitted
    obtain ⟨v,l,fired⟩ := emitted
    have move := move_at m run k
    rw [fired] at move
    generalize before : phaseAt m run k = phase at move
    generalize phaseAt m run (k+1) = after at move
    cases move with
    | fireNow v l seen trip prompt =>
      exact ⟨rfl,k,.single ⟨v,l,seen,trip⟩ (fun i same => idle i same before),by omega,by omega,by omega⟩
    | fire since label v l seen trip due =>
      refine ⟨rfl,?_⟩
      cases k with
      | zero => cases before
      | succ k =>
        obtain ⟨j,streak,start,undue⟩ := pending_streak nested k since label before
        subst start
        exact ⟨j,streak.extend ⟨v,l,seen,trip⟩,rfl,due,fun i low high => undue i low (by omega)⟩
  · intro streak
    obtain ⟨quiet,j,streak,rfl,due,undue⟩ := streak
    obtain ⟨v,l,seen,trip⟩ := streak.trips k streak.ordered (Nat.le_refl k)
    refine ⟨v,l,?_⟩
    cases before : phaseAt m run k with
    | firing since label => simp [before,Phase.isFiring] at quiet
    | inactive =>
      have start : j = k := by
        rcases Nat.lt_or_eq_of_le streak.ordered with inside | same
        · exact absurd (streak.trips (k-1) (by omega) (by omega)) (idle (k-1) (by omega) before)
        · exact same
      subst start
      have prompt : m.sustain = 0 := by omega
      simp [signalAt,before,next,seen,trip,prompt]
    | pending since label =>
      cases k with
      | zero => cases before
      | succ k =>
        obtain ⟨j',streak',start,_⟩ := pending_streak nested k since label before
        obtain rfl : j' = j := (streak'.extend ⟨v,l,seen,trip⟩).unique streak
        subst start
        simp [signalAt,before,next,seen,trip,due]

/-- A streak that has lasted long enough by call `k` has set the alarm off. -/
theorem firing_by (nested : Nested m) {j k : Nat} (clock : ∀ i, i ≤ j → (run i).now ≤ (run j).now)
    (ordered : j ≤ k) (trips : ∀ i, j ≤ i → i ≤ k → TripsAt m run i)
    (due : m.sustain ≤ (run k).now-(run j).now) : (phaseAt m run (k+1)).isFiring = true := by
  cases after : phaseAt m run (k+1) with
  | inactive => exact absurd after (active_of_trips nested (trips k ordered (Nat.le_refl k)))
  | firing since label => rfl
  | pending since label =>
    -- the streak a pending phase remembers reaches back to `j`, so it would be due by now
    obtain ⟨j',streak,_,undue⟩ := pending_streak nested k since label after
    have earlier : j' ≤ j := by
      by_contra later
      exact streak.first (j'-1) (by omega) (trips (j'-1) (by omega) (by have := streak.ordered; omega))
    have early := undue k streak.ordered (Nat.le_refl k)
    have before := clock j' earlier
    omega

theorem firing_when_due (nested : Nested m) (clock : ∀ i j, i ≤ j → (run i).now ≤ (run j).now)
    {j k : Nat} (ordered : j ≤ k) (trips : ∀ i, j ≤ i → i ≤ k → TripsAt m run i)
    (due : m.sustain ≤ (run k).now-(run j).now) : (phaseAt m run (k+1)).isFiring = true :=
  firing_by nested (fun i earlier => clock i j earlier) ordered trips due

variable (m run)

def history (k : Nat) : List (Signal V L) := (List.range k).filterMap (signalAt m run)

variable {m run}

theorem history_succ (k : Nat) :
    history m run (k+1) = history m run k ++ (signalAt m run k).toList := by
  rw [history,List.range_succ,List.filterMap_append]
  cases signal : signalAt m run k <;> simp [history,signal]

theorem silent_phase {k : Nat} (silent : signalAt m run k = none) :
    (phaseAt m run (k+1)).isFiring = (phaseAt m run k).isFiring := by
  have move := move_at m run k
  rw [silent] at move
  generalize phaseAt m run k = before at move
  generalize phaseAt m run (k+1) = after at move
  cases move <;> rfl

theorem signal_phase {k : Nat} {s : Signal V L} (signal : signalAt m run k = some s) :
    (phaseAt m run k).isFiring = !s.isFired ∧ (phaseAt m run (k+1)).isFiring = s.isFired := by
  have move := move_at m run k
  rw [signal] at move
  generalize phaseAt m run k = before at move
  generalize phaseAt m run (k+1) = after at move
  cases move <;> exact ⟨rfl,rfl⟩

theorem signal_of_fired {k : Nat} {v : V} {l : L} {held : Nat}
    (signal : signalAt m run k = some (.fired v l held)) :
    (run k).seen = some (v,l) ∧ m.trips v = true := by
  have move := move_at m run k
  rw [signal] at move
  generalize phaseAt m run k = before at move
  generalize phaseAt m run (k+1) = after at move
  cases move with
  | fireNow v l seen trip prompt => exact ⟨seen,trip⟩
  | fire since label v l seen trip due => exact ⟨seen,trip⟩

theorem signal_of_cleared {k : Nat} {v : V} {l : L} {held : Nat}
    (signal : signalAt m run k = some (.cleared v l held)) :
    (run k).seen = some (v,l) ∧ m.holds v = false := by
  have move := move_at m run k
  rw [signal] at move
  generalize phaseAt m run k = before at move
  generalize phaseAt m run (k+1) = after at move
  cases move with
  | clear since label v l seen back => exact ⟨seen,back⟩

/-- Signals alternate, beginning with a fired one, and the alarm is on exactly after
an odd number of them. -/
theorem alternation (k : Nat) :
    (∀ i s, (history m run k)[i]? = some s → (s.isFired = true ↔ i % 2 = 0)) ∧
      ((phaseAt m run k).isFiring = true ↔ (history m run k).length % 2 = 1) := by
  induction k with
  | zero => simp [history,phaseAt,Phase.isFiring]
  | succ k ih =>
    obtain ⟨alternate,parity⟩ := ih
    rw [history_succ]
    cases signal : signalAt m run k with
    | none =>
      rw [silent_phase signal]
      simpa using ⟨alternate,parity⟩
    | some s =>
      obtain ⟨before,after⟩ := signal_phase signal
      have turn : s.isFired = true ↔ (history m run k).length % 2 = 0 := by
        rw [before] at parity
        cases fired : s.isFired <;> simp [fired] at parity ⊢ <;> omega
      refine ⟨?_,?_⟩
      · intro i t entry
        rw [Option.toList_some,List.getElem?_append] at entry
        split at entry
        · exact alternate i t entry
        · obtain ⟨inside,rfl⟩ := List.getElem?_eq_some_iff.mp entry
          have last : i = (history m run k).length := by simp at inside; omega
          subst last
          simpa using turn
      · rw [after,turn]
        simp
        omega

theorem latest_fired_iff (k : Nat) :
    (∃ s, (history m run k).getLast? = some s ∧ s.isFired = true) ↔
      (phaseAt m run k).isFiring = true := by
  induction k with
  | zero => simp [history,phaseAt,Phase.isFiring]
  | succ k ih =>
    rw [history_succ]
    cases signal : signalAt m run k with
    | none => simpa [silent_phase signal] using ih
    | some s => simp [(signal_phase signal).2]

theorem holds_of_firing (nested : Nested m) {k : Nat}
    (firing : (phaseAt m run (k+1)).isFiring = true) : HoldsAt m run k := by
  have move := move_at m run k
  generalize phaseAt m run k = before at move
  generalize phaseAt m run (k+1) = after at move firing
  generalize signalAt m run k = signal at move
  cases move with
  | rest quiet | arm v l seen trip delay | relax since label quiet | wait since label v l seen trip early
  | clear since label v l seen back | vanish since label absent => simp [Phase.isFiring] at firing
  | fireNow v l seen trip prompt => exact ⟨v,l,seen,nested v trip⟩
  | fire since label v l seen trip due => exact ⟨v,l,seen,nested v trip⟩
  | hold since label v l seen still => exact ⟨v,l,seen,still⟩

theorem firing_of_holds {k : Nat} (firing : (phaseAt m run k).isFiring = true)
    (holds : HoldsAt m run k) : (phaseAt m run (k+1)).isFiring = true := by
  obtain ⟨v,l,seen,holds⟩ := holds
  cases before : phaseAt m run k with
  | inactive => simp [before,Phase.isFiring] at firing
  | pending since label => simp [before,Phase.isFiring] at firing
  | firing since label => simp [phaseAt,before,next,seen,holds,Phase.isFiring]

theorem holds_while_on (nested : Nested m) {i k : Nat} {s : Signal V L}
    (fired : signalAt m run i = some s) (isFired : s.isFired = true)
    (unended : ∀ j t, i < j → j ≤ k → signalAt m run j = some t → t.isFired = true)
    (j : Nat) (low : i ≤ j) (high : j ≤ k) :
    (phaseAt m run (j+1)).isFiring = true ∧ HoldsAt m run j := by
  have on : (phaseAt m run (j+1)).isFiring = true := by
    induction j, low using Nat.le_induction with
    | base => rw [(signal_phase fired).2,isFired]
    | succ j low ih =>
      cases signal : signalAt m run (j+1) with
      | none => rw [silent_phase signal,ih (by omega)]
      | some t => rw [(signal_phase signal).2,unended (j+1) t (by omega) high signal]
  exact ⟨on,holds_of_firing nested on⟩

theorem fired_separated {i k : Nat} {s t : Signal V L} (ordered : i < k)
    (first : signalAt m run i = some s) (firstFired : s.isFired = true)
    (second : signalAt m run k = some t) (secondFired : t.isFired = true) :
    ∃ j, i < j ∧ j < k ∧ ¬ HoldsAt m run j := by
  by_contra none
  have holds : ∀ j, i < j → j < k → HoldsAt m run j := by
    intro j low high
    by_contra not
    exact none ⟨j,low,high,not⟩
  have on : ∀ j, i < j → j ≤ k → (phaseAt m run j).isFiring = true := by
    intro j low
    induction j, low using Nat.le_induction with
    | base => exact fun _ => (signal_phase first).2.trans firstFired
    | succ j low ih => exact fun high => firing_of_holds (ih (by omega)) (holds j low (by omega))
  have resting := (signal_phase second).1
  rw [on k ordered (Nat.le_refl k),secondFired] at resting
  cases resting

theorem fired_before_firing {k : Nat} (firing : (phaseAt m run k).isFiring = true) :
    ∃ i v l held, i < k ∧ signalAt m run i = some (.fired v l held) := by
  obtain ⟨s,last,fired⟩ := (latest_fired_iff k).mpr firing
  obtain ⟨i,inside,signal⟩ := List.mem_filterMap.mp (List.mem_of_getLast? last)
  cases s with
  | fired v l held => exact ⟨i,v,l,held,List.mem_range.mp inside,signal⟩
  | cleared v l held => cases fired
  | gone l held => cases fired

/-- A firing phase remembers the call it fired in, at the end of a streak that was due, and has
held ever since. -/
theorem firing_started (nested : Nested m) (k since : Nat) (label : L)
    (firing : phaseAt m run (k+1) = .firing since label) :
    ∃ i j, j ≤ i ∧ i ≤ k ∧ since = (run i).now ∧ (∀ n, j ≤ n → n ≤ i → TripsAt m run n) ∧
      m.sustain ≤ (run i).now-(run j).now ∧ ∀ n, i ≤ n → n ≤ k → HoldsAt m run n := by
  induction k generalizing since label with
  | zero =>
    have on : (phaseAt m run 1).isFiring = true := by rw [firing]; rfl
    have move := move_at m run 0
    rw [firing] at move
    simp only [phaseAt] at move
    generalize signalAt m run 0 = signal at move
    cases move with
    | fireNow v l seen trip prompt =>
      refine ⟨0,0,Nat.le_refl 0,Nat.le_refl 0,rfl,?_,by omega,?_⟩
      · intro n _ high
        obtain rfl : n = 0 := by omega
        exact ⟨v,label,seen,trip⟩
      · intro n _ high
        obtain rfl : n = 0 := by omega
        exact holds_of_firing nested on
  | succ k ih =>
    have on : (phaseAt m run (k+1+1)).isFiring = true := by rw [firing]; rfl
    have holding := holds_of_firing nested on
    have move := move_at m run (k+1)
    rw [firing] at move
    generalize before : phaseAt m run (k+1) = phase at move
    generalize signalAt m run (k+1) = signal at move
    have last (n : Nat) (low : k+1 ≤ n) (high : n ≤ k+1) : HoldsAt m run n := by
      obtain rfl : n = k+1 := by omega
      exact holding
    cases move with
    | fireNow v l seen trip prompt =>
      refine ⟨k+1,k+1,Nat.le_refl _,Nat.le_refl _,rfl,?_,by omega,last⟩
      intro n low high
      obtain rfl : n = k+1 := by omega
      exact ⟨v,label,seen,trip⟩
    | fire pending _ v l seen trip due =>
      obtain ⟨j,streak,start,_⟩ := pending_streak nested k pending _ before
      refine ⟨k+1,j,Nat.le_succ_of_le streak.ordered,Nat.le_refl _,rfl,?_,?_,last⟩
      · intro n low high
        rcases Nat.lt_or_eq_of_le high with inside | rfl
        · exact streak.trips n low (by omega)
        · exact ⟨v,label,seen,trip⟩
      · rwa [← start]
    | hold _ old v l seen still =>
      obtain ⟨i,j,ordered,inside,start,trips,due,holds⟩ := ih since old before
      refine ⟨i,j,ordered,Nat.le_succ_of_le inside,start,trips,due,?_⟩
      intro n low high
      rcases Nat.lt_or_eq_of_le high with earlier | rfl
      · exact holds n low (by omega)
      · exact holding

end Runs
section Likeness
variable {V L : Type} (m : Monitor V) (S : V → V → Prop)

/-- Two sightings of the same thing at the same time, with values that the alarm judges alike. -/
structure Alike (o o' : Observation V L) : Prop where
  now : o.now = o'.now
  seen : Option.Rel (fun a b => S a.1 b.1 ∧ a.2 = b.2 ∧ m.trips a.1 = m.trips b.1 ∧ m.holds a.1 = m.holds b.1)
    o.seen o'.seen

inductive Signal.Like : Signal V L → Signal V L → Prop
  | fired {v w : V} (label : L) (held : Nat) (related : S v w) : Like (.fired v label held) (.fired w label held)
  | cleared {v w : V} (label : L) (held : Nat) (related : S v w) : Like (.cleared v label held) (.cleared w label held)
  | gone (label : L) (held : Nat) : Like (.gone label held) (.gone label held)

variable {m S}

theorem next_alike {o o' : Observation V L} (alike : Alike m S o o') (phase : Phase L) :
    (m.next o phase).1 = (m.next o' phase).1 ∧ Option.Rel (Signal.Like S) (m.next o phase).2 (m.next o' phase).2 := by
  obtain ⟨now,seen⟩ := o
  obtain ⟨now',seen'⟩ := o'
  obtain ⟨same,seen⟩ := alike
  dsimp only at same seen
  subst same
  cases seen with
  | none =>
    cases phase with
    | inactive => exact ⟨rfl,.none⟩
    | pending since label => exact ⟨rfl,.none⟩
    | firing since label => exact ⟨rfl,.some (.gone label _)⟩
  | @some a b judged =>
    obtain ⟨v,l⟩ := a
    obtain ⟨w,k⟩ := b
    obtain ⟨related,same,trips,holds⟩ := judged
    dsimp only at related same trips holds
    subst same
    cases phase with
    | inactive =>
      simp only [next,trips]
      split_ifs
      · exact ⟨rfl,.some (.fired l _ related)⟩
      · exact ⟨rfl,.none⟩
      · exact ⟨rfl,.none⟩
    | pending since label =>
      simp only [next,trips]
      split_ifs
      · exact ⟨rfl,.some (.fired l _ related)⟩
      · exact ⟨rfl,.none⟩
      · exact ⟨rfl,.none⟩
    | firing since label =>
      simp only [next,holds]
      split_ifs
      · exact ⟨rfl,.none⟩
      · exact ⟨rfl,.some (.cleared l _ related)⟩

variable {run run' : Nat → Observation V L}

theorem phaseAt_alike (k : Nat) (alike : ∀ i, i < k → Alike m S (run i) (run' i)) :
    phaseAt m run k = phaseAt m run' k := by
  induction k with
  | zero => rfl
  | succ k ih =>
    have before := ih (fun i inside => alike i (by omega))
    rw [phaseAt,phaseAt,before]
    exact (next_alike (alike k (by omega)) _).1

theorem history_alike (k : Nat) (alike : ∀ i, i < k → Alike m S (run i) (run' i)) :
    List.Forall₂ (Signal.Like S) (history m run k) (history m run' k) := by
  induction k with
  | zero => exact .nil
  | succ k ih =>
    have earlier := ih (fun i inside => alike i (by omega))
    have phases := phaseAt_alike k (fun i inside => alike i (by omega))
    have last : Option.Rel (Signal.Like S) (signalAt m run k) (signalAt m run' k) := by
      rw [signalAt,signalAt,phases]
      exact (next_alike (alike k (by omega)) _).2
    rw [history_succ,history_succ]
    refine List.rel_append earlier ?_
    generalize signalAt m run k = signal at last
    generalize signalAt m run' k = signal' at last
    cases last with
    | none => exact .nil
    | some related => exact .cons related .nil

end Likeness
end Monitor
end Vitals
