import TermStructure.Interpolation.Interpolant
import TermStructure.Interpolation.Simpson

/-!
# Natural cubic spline

A cubic on each segment, smooth to the second derivative at the nodes and without curvature at both
ends. The second derivatives at the nodes solve a tridiagonal system: a sweep from the left expresses
each by the next one, and going back from the right end gives their values.
-/

namespace TermStructure.CubicSpline

variable {α : Type} [Scalar α]

/-- A second derivative in terms of the one at the next node: `factor * next + offset`. -/
structure Row (α : Type) where
  factor : α
  offset : α

/-- The row of an interior node, from the row before and the nodes on both sides. -/
def eliminate (previous : Row α) (left node right : α × α) : Row α :=
  let span := right.1 - left.1
  let share := (node.1 - left.1) / span
  let pivot := share * previous.factor + 2.0
  let bend := (right.2 - node.2) / (right.1 - node.1) - (node.2 - left.2) / (node.1 - left.1)
  ⟨(share - 1) / pivot, (6.0 * bend / span - share * previous.offset) / pivot⟩

/-- The rows of the interior nodes of a list. -/
def sweep (previous : Row α) : List (α × α) → List (Row α)
  | left :: node :: right :: rest =>
    let row := eliminate previous left node right
    row :: sweep row (node :: right :: rest)
  | _ => []

/-- The second derivatives that the rows determine; the one at the last node is zero. -/
def backSubstitute (rows : List (Row α)) : List α :=
  rows.foldr (fun row later => (row.factor * later.headD 0 + row.offset) :: later) [0]

def curvatures (k : Knots α) : List α :=
  backSubstitute (⟨0, 0⟩ :: sweep ⟨0, 0⟩ (k.xs.zip k.ys))

/-- The share of the left node in segment `i` at `x`. -/
def leftShare (k : Knots α) (i : Nat) (x : α) : α := (k.x (i + 1) - x) / k.width i

/-- The share of the right node in segment `i` at `x`. -/
def rightShare (k : Knots α) (i : Nat) (x : α) : α := (x - k.x i) / k.width i

/-- The value at `x`, given the second derivatives `m` at the nodes. -/
def value (k : Knots α) (m : List α) (x : α) : α :=
  let i := k.segment x
  let h := k.width i
  let a := leftShare k i x
  let b := rightShare k i x
  a * k.y i + b * k.y (i + 1) +
    ((a * a * a - a) * m.getD i 0 + (b * b * b - b) * m.getD (i + 1) 0) * (h * h) / 6.0

/-- The slope at `x`, given the second derivatives `m` at the nodes. -/
def slope (k : Knots α) (m : List α) (x : α) : α :=
  let i := k.segment x
  let h := k.width i
  let a := leftShare k i x
  let b := rightShare k i x
  (k.y (i + 1) - k.y i) / h - (3.0 * a * a - 1) / 6.0 * h * m.getD i 0 +
    (3.0 * b * b - 1) / 6.0 * h * m.getD (i + 1) 0

def interpolant (k : Knots α) : Interpolant α :=
  let m := curvatures k
  { xs := k.xs
    ys := k.ys
    value := value k m
    slope := slope k m
    integral := Simpson.integral (value k m) k.xs }

def build (xs ys : List α) : Except (NumericError α) (Interpolant α) := do
  return interpolant (← Knots.make xs ys)

end TermStructure.CubicSpline
