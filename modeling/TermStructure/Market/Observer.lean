/-!
# Observers

Observers are told when something they watch has changed. A registry holds them in the order in which
they registered. Being registered does not keep an observer alive: those that have gone are passed
over, and are forgotten the next time the registry notifies.
-/

namespace TermStructure

/-- Quotes are numbered in the order in which they were made. -/
abbrev QuoteId := Nat

/-- A controller stands for itself or belongs to a curve. -/
inductive ControllerId where
  | own (index : Nat)
  | curve (index : Nat)
deriving DecidableEq, Repr

/-- Something that can be told of a change. -/
inductive Observer where
  | counter (index : Nat)
  /-- Marks what it controls as changed and tells its own observers. -/
  | controller (id : ControllerId)
  /-- Tells the observers of a controller, which it leaves as it is. -/
  | relay (id : ControllerId)
deriving DecidableEq, Repr

/-- The observers of one thing. -/
structure Registry where
  observers : List Observer := []
deriving DecidableEq, Repr

namespace Registry

/-- Adds an observer at the end, unless it is there. -/
def register (r : Registry) (o : Observer) : Registry :=
  if o ∈ r.observers then r else ⟨r.observers ++ [o]⟩

/-- Takes an observer out, if it is there. -/
def unregister (r : Registry) (o : Observer) : Registry := ⟨r.observers.filter (· ≠ o)⟩

def live (r : Registry) (alive : Observer → Bool) : List Observer := r.observers.filter alive

def prune (r : Registry) (alive : Observer → Bool) : Registry := ⟨r.live alive⟩

def count (r : Registry) (alive : Observer → Bool) : Nat := (r.live alive).length

@[simp] theorem mem_register {r : Registry} {o p : Observer} :
    p ∈ (r.register o).observers ↔ p ∈ r.observers ∨ p = o := by
  unfold register
  split
  · simp only [iff_self_or]
    rintro rfl
    assumption
  · simp

@[simp] theorem mem_unregister {r : Registry} {o p : Observer} :
    p ∈ (r.unregister o).observers ↔ p ∈ r.observers ∧ p ≠ o := by
  simp [unregister]

@[simp] theorem live_prune (r : Registry) (alive : Observer → Bool) : (r.prune alive).live alive = r.live alive := by
  simp [prune, live]

end Registry

end TermStructure
