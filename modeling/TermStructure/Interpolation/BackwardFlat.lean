import TermStructure.Interpolation.Interpolant

/-!
# Backward-flat interpolation

A step function: between two nodes, and at the later one, the value of the later node holds. Before
the first node its value holds, after the last node that of the last.
-/

namespace TermStructure.BackwardFlat

variable {α : Type} [Scalar α]

/-- The first node that is not before `x`, or the last node. -/
def nodeFor (k : Knots α) (x : α) : Nat := min (k.xs.findIdx fun node => !decide (node < x)) k.last

/-- The first node after `x`, or the last node. -/
def nodeAfter (k : Knots α) (x : α) : Nat := min (k.xs.findIdx fun node => !decide (node ≤ x)) k.last

def value (k : Knots α) (x : α) : α := k.y (nodeFor k x)

/-- The area over `[a, b]`, nothing if `b` is not greater than `a`. -/
def area (k : Knots α) (a b : α) : α :=
  if a < b then
    (pieces k.xs a b).foldl (fun total (left, right) => total + k.y (nodeAfter k left) * (right - left)) 0
  else 0

/-- The integral from `a` to `b`, the negated area if the limits are reversed. -/
def integral (k : Knots α) (a b : α) : α := if a ≤ b then 1 * area k a b else -1 * area k b a

/-- The step function over the nodes; its slope is zero throughout. -/
def interpolant (k : Knots α) : Interpolant α where
  xs := k.xs
  ys := k.ys
  value := value k
  slope _ := 0
  integral := integral k

def build (xs ys : List α) : Except (NumericError α) (Interpolant α) := do
  return interpolant (← Knots.make xs ys)

end TermStructure.BackwardFlat
