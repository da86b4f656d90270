import TermStructure.Interpolation.Interpolant

/-!
# Linear interpolation

Straight lines between neighbouring nodes; the lines of the end segments go on outward. The integral
adds up trapezoids between the nodes.
-/

namespace TermStructure.Linear

variable {α : Type} [Scalar α]

def segmentSlope (k : Knots α) (i : Nat) : α := (k.y (i + 1) - k.y i) / k.width i

def value (k : Knots α) (x : α) : α :=
  let i := k.segment x
  k.y i + (x - k.x i) * segmentSlope k i

def slope (k : Knots α) (x : α) : α := segmentSlope k (k.segment x)

/-- The area over `[a, b]`, nothing if `b` is not greater than `a`. -/
def area (k : Knots α) (a b : α) : α :=
  if a < b then
    (pieces k.interior a b).foldl
      (fun total (left, right) => total + 0.5 * (value k left + value k right) * (right - left)) 0
  else 0

/-- The integral from `a` to `b`, the negated area if the limits are reversed. -/
def integral (k : Knots α) (a b : α) : α := if a ≤ b then 1 * area k a b else -1 * area k b a

def interpolant (k : Knots α) : Interpolant α where
  xs := k.xs
  ys := k.ys
  value := value k
  slope := slope k
  integral := integral k

def build (xs ys : List α) : Except (NumericError α) (Interpolant α) := do
  return interpolant (← Knots.make xs ys)

end TermStructure.Linear
