import TermStructure.Error.Message
import TermStructure.Scalar

/-!
# Search intervals

The interval a root is searched in. A search that fails is repeated on a wider interval, which stays
within fixed limits.
-/

namespace TermStructure

/-- The interval from `lower` to `upper`. -/
structure Bracket (α : Type) where
  lower : α
  upper : α
deriving Repr

namespace Bracket

variable {α : Type} [Scalar α]

/-- The interval between two finite ends that increase. -/
def make (lower upper : α) : Except (NumericError α) (Bracket α) :=
  if !Scalar.isFinite lower || !Scalar.isFinite upper || decide (lower ≥ upper) then
    .error (.invalidInput (.bracket lower upper))
  else .ok ⟨lower, upper⟩

def width (b : Bracket α) : α := b.upper - b.lower

def midpoint (b : Bracket α) : α := 0.5 * (b.lower + b.upper)

/-- The point lies between the ends or is one of them. -/
def contains (b : Bracket α) (x : α) : Bool := decide (x ≥ b.lower) && decide (x ≤ b.upper)

/-- The point of the interval nearest to `x`. -/
def nearest (b : Bracket α) (x : α) : α := Scalar.nearest b.lower b.upper x

/-- Moves `x` into the interval, unless its ends are not in order. -/
def clamp? (b : Bracket α) (x : α) : Option α := Scalar.clamp? b.lower b.upper x

theorem clamp?_of_le {b : Bracket α} (h : b.lower ≤ b.upper) (x : α) : b.clamp? x = some (b.nearest x) := if_pos h

theorem clamp?_of_not_le {b : Bracket α} (h : ¬b.lower ≤ b.upper) (x : α) : b.clamp? x = none := if_neg h

/-- Scales the interval about its midpoint; a factor below one leaves its size. -/
def widen (b : Bracket α) (factor : α) : Bracket α :=
  let half := 0.5 * b.width * Scalar.larger factor 1
  ⟨b.midpoint - half, b.midpoint + half⟩

/-- Cuts the interval to `[low, high]`, unless nothing would be left. -/
def restrict (b : Bracket α) (low high : α) : Bracket α :=
  let lower := Scalar.larger b.lower low
  let upper := Scalar.smaller b.upper high
  if lower < upper then ⟨lower, upper⟩ else b

def text (b : Bracket Float) : String := "[" ++ number b.lower ++ ", " ++ number b.upper ++ "]"

end Bracket

end TermStructure
