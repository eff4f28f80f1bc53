import Vitals.Kernel.Sampler
import Vitals.Semantics.Alert

/-! What a run of the sampler has met so far: the scans that succeeded, what each shows
against the one before it, and what the rules have said about that. -/
namespace Vitals.Semantics
open Kernel

section
variable (R : Rounding) (sys : SysConst) (display : IoError → Text.Str)

def scanned (c : Cycle) : Option (Cycle × Sample) :=
  match c.result with
  | .ok sample => some (c,sample)
  | .error _ => none

/-- The successful turns with their samples, in order. -/
def successes (cycles : List Cycle) : List (Cycle × Sample) := cycles.filterMap scanned

/-- Each success after the first with its immediate predecessor. -/
def consecutive (cycles : List Cycle) : List ((Cycle × Sample) × (Cycle × Sample)) :=
  (successes cycles).zip (successes cycles).tail

def compared (step : (Cycle × Sample) × (Cycle × Sample)) : Snapshot :=
  diff R sys step.2.1.procOrder step.1.2 step.2.2

def snapshots (cycles : List Cycle) : List Snapshot := (consecutive cycles).map (compared R sys)

/-- All events of a run that begins in the given state, each with its subject. -/
def eventsFrom (s : Sampler) : List Cycle → List (SubjectId × Event)
  | [] => []
  | c :: cycles => (s.work R sys display c).events ++ eventsFrom (s.cycle R sys display c) cycles

/-- The rule of a subject and the subject's name in a snapshot. -/
def named (rules : List Rule) (snap : Option Snapshot) (id : SubjectId) : Option (Text.Str × Text.Str) := do
  let rule ← rules[id.rule]?
  let (_,label) ← reading R rule (← snap) id.procKey
  return (rule.name,label)

variable (rules : List Rule) (historyLen eventLogLen : Nat)

def samplerAfter (cycles : List Cycle) : Sampler :=
  cycles.foldl (Sampler.cycle R sys display) (.new rules historyLen eventLogLen)

def eventsOf (cycles : List Cycle) : List (SubjectId × Event) :=
  eventsFrom R sys display (.new rules historyLen eventLogLen) cycles

end
end Vitals.Semantics
