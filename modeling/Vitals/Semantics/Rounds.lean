import Vitals.Kernel.Main
import Vitals.Semantics.Interleaving

/-! What an observer of the program can tell from the steps taken so far: what has happened to
the shared world, and when the rounds of the loop began. -/
namespace Vitals.Semantics
open Kernel Library Text

def MainAction.onWorld : MainAction → Option (Action Unit)
  | .world a => some a
  | _ => none

def MainAction.began : MainAction → Option Nat
  | .round instant => some instant
  | _ => none

def worldActions (actions : List MainAction) : List (Action Unit) := actions.filterMap MainAction.onWorld

def rounds (actions : List MainAction) : List Nat := actions.filterMap MainAction.began

/-- How many looks have been taken at the shared state. -/
def looks (actions : List MainAction) : Nat :=
  (worldActions actions).countP (fun a => match a with
    | .access (.read _ _) => true
    | _ => false)

section
variable (R : Rounding) (P : Fixed3) (sys : SysConst) (display : IoError → Str) (o : Options) (rules : List Rule)

/-- What the readers see after a number of whole turns of the sampler. -/
def sharedAfter (turns : List Cycle) : Shared := (samplerAfter R sys display rules 300 200 turns).shared

/-- The texts that looks at growing numbers of whole turns come to. -/
structure Renders (views : List (List Cycle)) (p : Program) : Prop where
  grows : views.Pairwise (· <+: ·)
  frames : ∃ texts, List.Forall₂ (fun turns text => frame R P o (sharedAfter R sys display rules turns) = some text)
    views texts ∧ p.out = texts.flatten
  complaints : p.err = views.flatMap (fun turns => complaints (sharedAfter R sys display rules turns))

end
end Vitals.Semantics
