import TermStructure.Error
import TermStructure.Scalar

/-!
# Knots

The nodes a curve passes through: abscissas that increase, and a finite value at each. The segment
that answers for an abscissa is the last one that starts no later; the first and the last segment
also answer for everything before and after the nodes.
-/

namespace TermStructure

variable {α : Type} [Scalar α]

/-- No number is followed by one that is as small or smaller. -/
def isIncreasing (xs : List α) : Bool := (xs.zip xs.tail).all fun (a, b) => !decide (b ≤ a)

/-- The segment, counted from zero, that answers for `x`. -/
def segmentIndex (xs : List α) (x : α) : Nat :=
  min (xs.findIdx (fun node => decide (x < node)) - 1) (xs.length - 2)

/-- Splits `[a, b]` at the nodes strictly inside. -/
def pieces (nodes : List α) (a b : α) : List (α × α) :=
  let breaks := nodes.filter fun x => decide (x > a) && decide (x < b)
  (a :: breaks).zip (breaks ++ [b])

/-- Nodes that a scheme may pass through. -/
structure Knots (α : Type) [Scalar α] where
  xs : List α
  ys : List α
  two_le : 2 ≤ xs.length
  length_eq : xs.length = ys.length
  finite : (xs ++ ys).all Scalar.isFinite = true
  increasing : isIncreasing xs = true

namespace Knots

/-- Checks nodes for a scheme: their number, their pairing, that they are finite, and their order. -/
def make (xs ys : List α) : Except (NumericError α) (Knots α) :=
  if two_le : 2 ≤ xs.length then
    if length_eq : xs.length = ys.length then
      if finite : (xs ++ ys).all Scalar.isFinite = true then
        if increasing : isIncreasing xs = true then
          .ok ⟨xs, ys, two_le, length_eq, finite, increasing⟩
        else .error (.invalidInput .order)
      else .error (.invalidInput .nodes)
    else .error (.invalidInput (.lengths xs.length ys.length))
  else .error (.insufficientData 2 xs.length)

def x (k : Knots α) (i : Nat) : α := k.xs.getD i 0

def y (k : Knots α) (i : Nat) : α := k.ys.getD i 0

def segment (k : Knots α) (x : α) : Nat := segmentIndex k.xs x

def width (k : Knots α) (i : Nat) : α := k.x (i + 1) - k.x i

def last (k : Knots α) : Nat := k.xs.length - 1

def interior (k : Knots α) : List α := k.xs.tail.dropLast

end Knots

end TermStructure
