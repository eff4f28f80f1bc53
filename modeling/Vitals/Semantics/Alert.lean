import Vitals.Kernel.Engine
import Vitals.Library.Monitor

/-! What the alert engine is for: every rule watches every subject on its own. A
subject's alarm knows the rule's two bounds and its sustain, the clock, and what is
read for the subject; it knows neither the table nor the other subjects. -/
namespace Vitals.Semantics
open Kernel

/-- The process identity of a subject, or none for the system as a whole. -/
abbrev Subject := Option (Int32 × UInt64)

def identity (p : ProcRate) : Int32 × UInt64 := (p.key.pid,p.key.starttime)

def alarm (rule : Rule) : Monitor F64 where
  trips v := match rule.op with
    | .gt => rule.threshold < v
    | .lt => v < rule.threshold
  holds v := match rule.op with
    | .gt => rule.clear < v
    | .lt => v < rule.clear
  sustain := rule.sustain

@[simp] theorem alarm_trips (rule : Rule) (v : F64) : (alarm rule).trips v = breaching rule v := rfl
@[simp] theorem alarm_holds (rule : Rule) (v : F64) : (alarm rule).holds v = stillActive rule v := rfl
@[simp] theorem alarm_sustain (rule : Rule) : (alarm rule).sustain = rule.sustain := rfl

/-- The subject label that goes with a value, and the value, if one is read. -/
def reading (R : Rounding) (rule : Rule) (snap : Snapshot) : Subject → Option (F64 × Text.Str)
  | none => match rule.target with
    | .system => (systemValue R rule snap).map (fun v => (v,"system".toList))
    | .process _ => none
  | some key => match rule.target with
    | .system => none
    | .process _ => (snap.procs.find? (fun p => identity p = key)).bind
        (fun p => (procValue R rule p).map (fun v => (v,procLabel p)))

def entry (tick : UInt64) : Monitor.Phase Text.Str → Option State
  | .inactive => none
  | .pending since label => some ⟨.pending,since,tick,label⟩
  | .firing since label => some ⟨.firing,since,tick,label⟩

def report (rule : Rule) : Monitor.Signal F64 Text.Str → Event
  | .fired v label held => ⟨.fired,rule.name,label,rule.metric,v,rule.threshold,held,rule.thresholdMinus⟩
  | .cleared v label held => ⟨.cleared,rule.name,label,rule.metric,v,rule.clear,held,rule.clearMinus⟩
  | .gone label held => ⟨.clearedGone,rule.name,label,rule.metric,.fin 0,rule.threshold,held,rule.thresholdMinus⟩

/-- One call of the engine. A snapshot lists a process identity once. -/
structure Call where
  snap : Snapshot
  now : Nat
  order : Iteration (Σ _ : SubjectId, State)
  distinct : (snap.procs.map identity).Nodup

section
variable (R : Rounding) (rules : List Rule) (calls : Nat → Call)

/-- The engine before call `k`. -/
def engineAt : Nat → Engine
  | 0 => .new rules
  | k+1 => ((engineAt k).evaluate R (calls k).snap (calls k).now (calls k).order).1

def emittedAt (k : Nat) : List (SubjectId × Event) :=
  ((engineAt R rules calls k).evaluate R (calls k).snap (calls k).now (calls k).order).2

def emittedBefore (k : Nat) : List (SubjectId × Event) := (List.range k).flatMap (emittedAt R rules calls)

/-- What the alarm of a rule is told about a subject, call by call. -/
def observed (rule : Rule) (subject : Subject) (k : Nat) : Observation F64 Text.Str :=
  ⟨(calls k).now,reading R rule (calls k).snap subject⟩

def phaseOf (rule : Rule) (subject : Subject) (k : Nat) : Monitor.Phase Text.Str :=
  (alarm rule).phaseAt (observed R calls rule subject) k

def signalOf (rule : Rule) (subject : Subject) (k : Nat) : Option (Monitor.Signal F64 Text.Str) :=
  (alarm rule).signalAt (observed R calls rule subject) k

end
end Vitals.Semantics
