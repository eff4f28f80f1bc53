import Mathlib.Data.List.Induction
import Vitals.Library.Runs

/-! A value behind a lock that one writer holds alone or any number of readers hold together.
The writer changes the value piece by piece; what a reader sees is what whole critical sections
of the writer have left. -/
namespace Vitals.Library

/-- Who is inside. A writer and a reader can not be inside together, nor can two writers. -/
inductive Hold (ρ : Type) where
  | readers (inside : List ρ)
  | writer

structure Guarded (σ ρ : Type) where
  value : σ
  hold : Hold ρ

inductive Access (σ ρ : Type) where
  | lock
  | write (change : σ → σ)
  | unlock
  | enter (reader : ρ)
  | read (reader : ρ) (seen : σ)
  | leave (reader : ρ)

namespace Guarded
variable {σ ρ : Type}

inductive Step : Guarded σ ρ → Access σ ρ → Guarded σ ρ → Prop
  | lock (v : σ) : Step ⟨v,.readers []⟩ .lock ⟨v,.writer⟩
  | write (v : σ) (change : σ → σ) : Step ⟨v,.writer⟩ (.write change) ⟨change v,.writer⟩
  | unlock (v : σ) : Step ⟨v,.writer⟩ .unlock ⟨v,.readers []⟩
  | enter (v : σ) (inside : List ρ) (r : ρ) : Step ⟨v,.readers inside⟩ (.enter r) ⟨v,.readers (r :: inside)⟩
  | read (v : σ) (inside : List ρ) (r : ρ) (entered : r ∈ inside) :
      Step ⟨v,.readers inside⟩ (.read r v) ⟨v,.readers inside⟩
  | leave (v : σ) (before after : List ρ) (r : ρ) :
      Step ⟨v,.readers (before ++ r :: after)⟩ (.leave r) ⟨v,.readers (before ++ after)⟩

/-- What an access finds the lock to be, and leaves it as. -/
theorem Step.holds {g h : Guarded σ ρ} {a : Access σ ρ} (step : Step g a h) : match a with
    | .lock => g.hold = .readers [] ∧ h.hold = .writer
    | .write _ => g.hold = .writer ∧ h.hold = .writer
    | .unlock => g.hold = .writer ∧ h.hold = .readers []
    | .enter _ | .read _ _ | .leave _ => g.hold ≠ .writer ∧ h.hold ≠ .writer := by
  cases step with
  | lock | write | unlock => exact ⟨rfl,rfl⟩
  | enter | read | leave => exact ⟨nofun,nofun⟩

theorem Step.value {g h : Guarded σ ρ} {a : Access σ ρ} (step : Step g a h) :
    h.value = match a with
      | .write change => change g.value
      | _ => g.value := by
  cases step <;> rfl

theorem write_possible {g : Guarded σ ρ} (held : g.hold = .writer) (change : σ → σ) :
    Step g (.write change) ⟨change g.value,.writer⟩ := by
  obtain ⟨v,hold⟩ := g
  cases held
  exact .write v change

theorem unlock_possible {g : Guarded σ ρ} (held : g.hold = .writer) :
    Step g .unlock ⟨g.value,.readers []⟩ := by
  obtain ⟨v,hold⟩ := g
  cases held
  exact .unlock v

theorem lock_possible {g : Guarded σ ρ} (free : g.hold = .readers []) : Step g .lock ⟨g.value,.writer⟩ := by
  obtain ⟨v,hold⟩ := g
  cases free
  exact .lock v

theorem enter_possible {g : Guarded σ ρ} {inside : List ρ} (open_ : g.hold = .readers inside) (r : ρ) :
    Step g (.enter r) ⟨g.value,.readers (r :: inside)⟩ := by
  obtain ⟨v,hold⟩ := g
  cases open_
  exact .enter v inside r

theorem read_possible {g : Guarded σ ρ} {inside : List ρ} {r : ρ} (open_ : g.hold = .readers inside)
    (entered : r ∈ inside) : Step g (.read r g.value) g := by
  obtain ⟨v,hold⟩ := g
  cases open_
  exact .read v inside r entered

theorem leave_possible {g : Guarded σ ρ} (before after : List ρ) {r : ρ}
    (open_ : g.hold = .readers (before ++ r :: after)) : Step g (.leave r) ⟨g.value,.readers (before ++ after)⟩ := by
  obtain ⟨v,hold⟩ := g
  cases open_
  exact .leave v before after r

theorem enter_hold {g h : Guarded σ ρ} {r : ρ} (step : Step g (.enter r) h) :
    ∃ inside, g.hold = .readers inside ∧ h.hold = .readers (r :: inside) := by
  cases step with
  | enter v inside r => exact ⟨inside,rfl,rfl⟩

theorem read_hold {g h : Guarded σ ρ} {r : ρ} {seen : σ} (step : Step g (.read r seen) h) : h.hold = g.hold := by
  cases step with
  | read v inside r entered => rfl

theorem leave_hold {g h : Guarded σ ρ} {r : ρ} (step : Step g (.leave r) h) :
    ∃ before after, g.hold = .readers (before ++ r :: after) ∧ h.hold = .readers (before ++ after) := by
  cases step with
  | leave v before after r => exact ⟨before,after,rfl,rfl⟩

/-- The changes of the finished critical sections, and of the one under way. -/
structure Ledger (σ : Type) where
  done : List (List (σ → σ))
  pending : List (σ → σ)

def Ledger.note (l : Ledger σ) : Access σ ρ → Ledger σ
  | .lock => ⟨l.done,[]⟩
  | .write change => ⟨l.done,l.pending ++ [change]⟩
  | .unlock => ⟨l.done ++ [l.pending],[]⟩
  | _ => l

def ledger (accesses : List (Access σ ρ)) : Ledger σ := accesses.foldl Ledger.note ⟨[],[]⟩

def published (accesses : List (Access σ ρ)) : List (List (σ → σ)) := (ledger accesses).done

def apply (changes : List (σ → σ)) (v : σ) : σ := changes.foldl (fun v change => change v) v

def applyAll (sections : List (List (σ → σ))) (v : σ) : σ := sections.foldl (fun v s => apply s v) v

theorem apply_snoc (changes : List (σ → σ)) (change : σ → σ) (v : σ) :
    apply (changes ++ [change]) v = change (apply changes v) := by simp [apply]

theorem applyAll_snoc (sections : List (List (σ → σ))) (s : List (σ → σ)) (v : σ) :
    applyAll (sections ++ [s]) v = apply s (applyAll sections v) := by simp [applyAll]

theorem ledger_snoc (accesses : List (Access σ ρ)) (a : Access σ ρ) :
    ledger (accesses ++ [a]) = (ledger accesses).note a := by simp [ledger]

theorem published_note (l : Ledger σ) (a : Access σ ρ) : l.done <+: (l.note a).done := by
  cases a with
  | unlock => exact List.prefix_append _ _
  | lock | write | enter | read | leave => exact List.prefix_refl _

theorem published_prefix (accesses more : List (Access σ ρ)) :
    published accesses <+: published (accesses ++ more) := by
  induction more using List.reverseRecOn with
  | nil => exact (List.append_nil accesses).symm ▸ List.prefix_refl _
  | append_singleton more a ih =>
    rw [← List.append_assoc,published,published,ledger_snoc]
    exact ih.trans (published_note _ a)

/-- The value is what the finished sections made of it, and the section under way on top while
the writer is inside. -/
def Accounts (v : σ) (l : Ledger σ) (g : Guarded σ ρ) : Prop :=
  match g.hold with
  | .readers _ => g.value = applyAll l.done v
  | .writer => g.value = apply l.pending (applyAll l.done v)

theorem accounts_step {v : σ} {l : Ledger σ} {g h : Guarded σ ρ} {a : Access σ ρ}
    (held : Accounts v l g) (step : Step g a h) : Accounts v (l.note a) h := by
  cases step with
  | lock | enter | read | leave => exact held
  | write w change => exact (congrArg change held).trans (apply_snoc l.pending change _).symm
  | unlock w => exact held.trans (applyAll_snoc l.done l.pending v).symm

variable {v : σ} {accesses : List (Access σ ρ)} {g : Guarded σ ρ}

theorem accounts (run : Run Step ⟨v,.readers []⟩ accesses g) : Accounts v (ledger accesses) g := by
  induction run with
  | refl => rfl
  | snoc accesses m a h _ step ih =>
    rw [ledger_snoc]
    exact accounts_step ih step

/-- A reader sees exactly the sections finished by then, each of them whole. -/
theorem read_published {earlier later : List (Access σ ρ)} {r : ρ} {seen : σ}
    (run : Run Step ⟨v,.readers []⟩ (earlier ++ .read r seen :: later) g) :
    seen = applyAll (published earlier) v := by
  obtain ⟨before,after,first,taken,_⟩ := run.split_at
  have held := accounts first
  cases taken
  exact held

def Inside (r : ρ) (g : Guarded σ ρ) : Prop := ∃ inside, g.hold = .readers inside ∧ r ∈ inside

theorem inside_step {r : ρ} {h : Guarded σ ρ} {a : Access σ ρ} (here : Inside r g) (step : Step g a h)
    (stays : a ≠ .leave r) : Inside r h ∧ ∀ l : Ledger σ, (l.note a).done = l.done := by
  obtain ⟨inside,held,member⟩ := here
  cases step with
  | lock w =>
    cases held
    cases member
  | write w change | unlock w => cases held
  | enter w others s =>
    cases held
    exact ⟨⟨_,rfl,List.mem_cons_of_mem _ member⟩,fun _ => rfl⟩
  | read w others s entered => exact ⟨⟨inside,held,member⟩,fun _ => rfl⟩
  | leave w before after s =>
    cases held
    refine ⟨⟨_,rfl,?_⟩,fun _ => rfl⟩
    have other : r ≠ s := by
      rintro rfl
      exact stays rfl
    simpa [other] using member

/-- Nothing is published while a reader is inside, so all it sees there is one state. -/
theorem published_inside {r : ρ} {earlier inside : List (Access σ ρ)}
    (run : Run Step ⟨v,.readers []⟩ (earlier ++ .enter r :: inside) g) (stays : .leave r ∉ inside) :
    published (earlier ++ .enter r :: inside) = published earlier := by
  obtain ⟨before,after,first,entering,rest⟩ := run.split_at
  have here : Inside r after := by
    cases entering with
    | enter w others _ => exact ⟨_,rfl,List.mem_cons_self⟩
  have kept : Inside r g ∧ ∀ l : Ledger σ, (inside.foldl Ledger.note l).done = l.done := by
    clear run
    induction rest with
    | refl => exact ⟨here,fun _ => rfl⟩
    | snoc labels m a u _ step ih =>
      rw [List.mem_append,not_or,List.mem_singleton] at stays
      obtain ⟨there,same⟩ := ih stays.1
      obtain ⟨still,quiet⟩ := inside_step there step (fun leaves => stays.2 leaves.symm)
      refine ⟨still,?_⟩
      intro l
      rw [List.foldl_append]
      exact (quiet _).trans (same l)
  rw [published,ledger,List.foldl_append]
  exact kept.2 _

end Guarded
end Vitals.Library
