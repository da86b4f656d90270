import TermStructure.Market.Observer
import TermStructure.Scalar

/-!
# Market quotes

A quote has a value or none, and tells its observers when that changes.
-/

namespace TermStructure

/-- A market quote. -/
structure Quote (α : Type) where
  value : Option α
  observers : Registry := {}

namespace Quote

variable {α : Type} [Scalar α]

/-- The value would change: what is not a number does not differ from itself, and the two zeros differ. -/
def changes (q : Quote α) (value : Option α) : Bool :=
  match q.value, value with
  | some x, some y => !Scalar.same x y
  | none, none => false
  | _, _ => true

end Quote

end TermStructure
