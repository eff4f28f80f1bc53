import Vitals.Kernel.SamplerThread
import Vitals.Semantics.Cycles

/-! What an observer of the thread can tell from the steps taken so far: the turns whose scan is
done, those handed over to the readers, when turns began and how long they took. -/
namespace Vitals.Semantics
open Kernel Library

section
variable {ρ : Type}

def Action.scanned : Action ρ → Option Cycle
  | .scan c => some c
  | _ => none

def Action.accessed : Action ρ → Option (Access Shared ρ)
  | .access a => some a
  | _ => none

def Action.began : Action ρ → Option Nat
  | .begin cycleStart => some cycleStart
  | _ => none

def Action.finished : Action ρ → Option Nat
  | .finish spent => some spent
  | _ => none

def scans (actions : List (Action ρ)) : List Cycle := actions.filterMap Action.scanned

def accesses (actions : List (Action ρ)) : List (Access Shared ρ) := actions.filterMap Action.accessed

def starts (actions : List (Action ρ)) : List Nat := actions.filterMap Action.began

def spent (actions : List (Action ρ)) : List Nat := actions.filterMap Action.finished

/-- The turns whose results have been published as a whole. -/
def handed (actions : List (Action ρ)) : List Cycle :=
  (scans actions).take (Guarded.published (accesses actions)).length

/-- The turn under way: when it began, how long its work took once that is done, and how much
sleep has been asked for since. -/
structure Turn where
  began : Option Nat
  spent : Option Nat
  slept : Nat

def Turn.note (t : Turn) : Action ρ → Turn
  | .begin cycleStart => ⟨some cycleStart,none,0⟩
  | .finish spent => ⟨t.began,some spent,0⟩
  | .sleep request => ⟨t.began,t.spent,t.slept+request⟩
  | _ => t

def turnOf (actions : List (Action ρ)) : Turn := actions.foldl Turn.note ⟨none,none,0⟩

end

section
variable (R : Rounding) (sys : SysConst) (display : IoError → Text.Str)

/-- What a turn does to the shared state, move by move. -/
def sectionOf (s : Sampler) (c : Cycle) : List (Shared → Shared) :=
  swaps R (s.work R sys display c) (activeOf (s.work R sys display c).engine c)

def sections (s : Sampler) : List Cycle → List (List (Shared → Shared))
  | [] => []
  | c :: cycles => sectionOf R sys display s c :: sections (s.cycle R sys display c) cycles

end
end Vitals.Semantics
