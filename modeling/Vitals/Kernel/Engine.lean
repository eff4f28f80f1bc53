import Vitals.Kernel.Rules
import Vitals.Kernel.Delta

/-! The alert engine: the second half of `rules.rs`. -/
namespace Vitals.Kernel
open Text Decimal

structure SubjectId where
  rule : Nat
  procKey : Option (Int32 × UInt64)
deriving DecidableEq

inductive Phase where
  | pending
  | firing
deriving DecidableEq

structure State where
  phase : Phase
  since : Nat
  seen : UInt64
  label : Str
deriving DecidableEq

inductive EventKind where
  | fired
  | cleared
  | clearedGone
deriving DecidableEq

/-- `minus` is the sign of a threshold that is zero. -/
structure Event where
  kind : EventKind
  ruleName : Str
  subject : Str
  metric : Metric
  value : F64
  threshold : F64
  heldFor : Nat
  minus : Bool
deriving DecidableEq

structure Engine where
  rules : List Rule
  states : Table SubjectId State
  tick : UInt64

/-- The states and the events of a call under way. Every event is kept together with
the subject it is pushed for, which the source leaves out. -/
abbrev Progress := Table SubjectId State × List (SubjectId × Event)

section
variable (R : Rounding)

def breaching (rule : Rule) (value : F64) : Bool :=
  match rule.op with
  | .gt => rule.threshold < value
  | .lt => value < rule.threshold

def stillActive (rule : Rule) (value : F64) : Bool :=
  match rule.op with
  | .gt => rule.clear < value
  | .lt => value < rule.clear

def systemValue (rule : Rule) (s : Snapshot) : Option F64 :=
  match rule.metric with
  | .cpuPct => some s.system.cpuPct
  | .memPct => some (s.system.mem.usedPct R)
  | .netRxBps => some s.system.netRxBps
  | .netTxBps => some s.system.netTxBps
  | .procCount => some (R.ofNat s.system.procCount)
  | _ => none

/-- The value read for one process, `none` on every path that skips it. -/
def procValue (rule : Rule) (p : ProcRate) : Option F64 :=
  if !rule.target.isMatch p.comm then none
  else if p.isNew then none
  else match rule.metric with
    | .cpuPct => some p.cpuPct
    | .rss => some (R.ofNat p.rssBytes.toNat)
    | .readBps => p.readBps
    | .writeBps => p.writeBps
    | .threads => some (R.ofInt p.threads.toInt)
    | _ => none

def procLabel (p : ProcRate) : Str := p.comm ++ " (pid ".toList ++ renderInt p.pid.toInt ++ ")".toList

def step (progress : Progress) (id : SubjectId) (rule : Rule) (label : Str) (value : F64)
    (now : Nat) (tick : UInt64) : Progress :=
  let states := progress.1
  let events := progress.2
  match states.lookup id with
  | none =>
    if breaching rule value then
      if rule.sustain = 0 then
        (states.insert id ⟨.firing,now,tick,label⟩,
        events ++ [(id,⟨.fired,rule.name,label,rule.metric,value,rule.threshold,0,rule.thresholdMinus⟩)])
      else (states.insert id ⟨.pending,now,tick,label⟩,events)
    else (states,events)
  | some st =>
    let st := {st with seen := tick,label := label}
    let states := states.insert id st
    match st.phase with
    | .pending =>
      if !breaching rule value then (states.erase id,events)
      else if now-st.since ≥ rule.sustain then
        (states.insert id {st with phase := .firing,since := now},
        events ++ [(id,⟨.fired,rule.name,label,rule.metric,value,rule.threshold,now-st.since,rule.thresholdMinus⟩)])
      else (states,events)
    | .firing =>
      if !stillActive rule value then
        (states.erase id,
        events ++ [(id,⟨.cleared,rule.name,label,rule.metric,value,rule.clear,now-st.since,rule.clearMinus⟩)])
      else (states,events)

def evaluateRule (snap : Snapshot) (now : Nat) (tick : UInt64) (progress : Progress)
    (ri : Nat) (rule : Rule) : Progress :=
  match rule.target with
  | .system => match systemValue R rule snap with
    | some v => step progress ⟨ri,none⟩ rule "system".toList v now tick
    | none => progress
  | .process _ => snap.procs.foldl (fun progress p => match procValue R rule p with
    | some v => step progress ⟨ri,some (p.key.pid,p.key.starttime)⟩ rule (procLabel p) v now tick
    | none => progress) progress

/-- Entries not seen in this call are dropped, the firing ones with an event. An entry's
rule index is always in range, see `rule_of_entry`. -/
def reap (rules : List Rule) (now : Nat) (tick : UInt64) (order : Iteration (Σ _ : SubjectId, State))
    (progress : Progress) : Progress :=
  (progress.1.retain (fun st => st.seen == tick),
  progress.2 ++ ((order.visit progress.1.entries).filter
      (fun e => e.2.seen != tick && e.2.phase == .firing)).map (fun e =>
    let rule := rules.getD e.1.rule default
    (e.1,⟨.clearedGone,rule.name,e.2.label,rule.metric,.fin 0,rule.threshold,now-e.2.since,rule.thresholdMinus⟩)))

end

namespace Engine

def new (rules : List Rule) : Engine := ⟨rules,∅,0⟩

def activeCount (e : Engine) : Nat := e.states.entries.countP (fun s => s.2.phase == .firing)

/-- Rule name, subject, elapsed time and start of everything that fires, the longest
first; `clock` is what the clock reads as each entry is visited. -/
def active (e : Engine) (order : Iteration (Σ _ : SubjectId, State)) (clock : SubjectId → Nat) :
    List (Str × Str × Nat × Nat) :=
  (((order.visit e.states.entries).filter (fun s => s.2.phase == .firing)).map (fun s =>
    ((e.rules.getD s.1.rule default).name,s.2.label,clock s.1-s.2.since,s.2.since))).mergeSort
      (fun a b => b.2.2.1 ≤ a.2.2.1)

def evaluate (R : Rounding) (e : Engine) (snap : Snapshot) (now : Nat)
    (order : Iteration (Σ _ : SubjectId, State)) : Engine × List (SubjectId × Event) :=
  let tick := e.tick + 1
  let visited := e.rules.zipIdx.foldl (fun progress (rule,ri) =>
    evaluateRule R snap now tick progress ri rule) (e.states,[])
  let reaped := reap e.rules now tick order visited
  (⟨e.rules,reaped.1,tick⟩,reaped.2)

end Engine
end Vitals.Kernel
