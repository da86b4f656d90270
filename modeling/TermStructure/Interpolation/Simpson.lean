import TermStructure.Interpolation.Knots

/-!
# Simpson's rule

An integral over nodes is split at the nodes, and each piece is integrated by Simpson's rule on eight
parts, which is exact for cubics.
-/

namespace TermStructure.Simpson

variable {α : Type} [Scalar α]

/-- The number of parts of a piece. -/
def parts : Nat := 8

/-- The rule on one piece: inner points of odd number count four times, those of even number twice. -/
def rule (f : α → α) (a b : α) : α :=
  let h := (b - a) / (parts : α)
  let inner := Scalar.sum ((List.range' 1 (parts - 1)).map fun (i : Nat) =>
    (if i % 2 = 1 then 4.0 else 2.0) * f (a + h * (i : α)))
  h / 3.0 * (f a + inner + f b)

/-- The sum of the rule over the pieces of `[a, b]`. -/
def total (f : α → α) (nodes : List α) (a b : α) : α :=
  Scalar.sum ((pieces nodes a b).map fun (left, right) => rule f left right)

/-- The integral from `a` to `b`, negated if the limits are reversed. -/
def integral (f : α → α) (nodes : List α) (a b : α) : α :=
  if a > b then -total f nodes b a else total f nodes a b

end TermStructure.Simpson
