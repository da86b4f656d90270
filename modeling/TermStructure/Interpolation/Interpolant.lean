import TermStructure.Interpolation.Knots

/-!
# Interpolants

A function built over nodes. Reading it outside the nodes is either refused or answered by the
scheme's own extension, as each query says.
-/

namespace TermStructure

/-- A function over nodes, with its derivative and its integral; all three extend beyond the nodes. -/
structure Interpolant (α : Type) where
  xs : List α
  ys : List α
  value : α → α
  slope : α → α
  integral : α → α → α

namespace Interpolant

variable {α : Type} [Scalar α]

def low (f : Interpolant α) : α := f.xs.headD 0

def high (f : Interpolant α) : α := f.xs.getLastD 0

def inRange (f : Interpolant α) (x : α) : Bool := decide (x ≥ f.low) && decide (x ≤ f.high)

/-- Refuses what is not a number, and what lies outside the nodes unless that is allowed. -/
def checkRange (f : Interpolant α) (x : α) (extrapolates : Bool) : Except (NumericError α) Unit :=
  if Scalar.isNaN x then .error (.invalidInput .abscissa)
  else if extrapolates || f.inRange x then .ok ()
  else .error (.extrapolation x f.low f.high)

def evaluate (f : Interpolant α) (x : α) (extrapolates : Bool) : Except (NumericError α) α := do
  f.checkRange x extrapolates
  return f.value x

def derivative (f : Interpolant α) (x : α) (extrapolates : Bool) : Except (NumericError α) α := do
  f.checkRange x extrapolates
  return f.slope x

def integrate (f : Interpolant α) (a b : α) (extrapolates : Bool) : Except (NumericError α) α := do
  f.checkRange a extrapolates
  f.checkRange b extrapolates
  return f.integral a b

end Interpolant

end TermStructure
