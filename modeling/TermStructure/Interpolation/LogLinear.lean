import TermStructure.Interpolation.Interpolant
import TermStructure.Interpolation.Simpson

/-!
# Log-linear interpolation

Linear in the logarithm of positive values. On discount factors the forward rate is constant on each
segment, and the last forward goes on beyond the last node.
-/

namespace TermStructure.LogLinear

variable {α : Type} [Scalar α]

def logValue (k : Knots α) (i : Nat) : α := Scalar.ln (k.y i)

def logSlope (k : Knots α) (i : Nat) : α := (logValue k (i + 1) - logValue k i) / k.width i

def value (k : Knots α) (x : α) : α :=
  let i := k.segment x
  Scalar.exp (logValue k i + (x - k.x i) * logSlope k i)

def slope (k : Knots α) (x : α) : α := value k x * logSlope k (k.segment x)

def interpolant (k : Knots α) : Interpolant α where
  xs := k.xs
  ys := k.ys
  value := value k
  slope := slope k
  integral := Simpson.integral (value k) k.xs

/-- The first value that is not positive, with its number. -/
def firstNonPositive? (ys : List α) : Option (Nat × α) :=
  match ys.findIdx? (fun y => decide (y ≤ 0)) with
  | some i => some (i, ys.getD i 0)
  | none => none

/-- The curve through nodes that are checked first; every value has to be positive. -/
def build (xs ys : List α) : Except (NumericError α) (Interpolant α) := do
  let k ← Knots.make xs ys
  match firstNonPositive? ys with
  | some (i, y) => .error (.invalidInput (.sign i y))
  | none => return interpolant k

end TermStructure.LogLinear
