/-!
# Scalars

Curves are computed over a `Scalar`: arithmetic, comparisons that may be false both ways round, the
transcendental functions a curve needs, and the questions one asks of a number that may not be
finite. Binary floating point is one scalar and an exact ordered field is another; every rule of the
library is stated once, for both.

Operations are applied in the order they are written, so a floating point run is reproducible to the
last bit.
-/

namespace TermStructure

/-- A number type that curves can be computed over. -/
class Scalar (α : Type) extends Add α, Sub α, Mul α, Div α, Neg α, Zero α, One α, NatCast α,
    OfScientific α, LT α, LE α, BEq α where
  decLt : DecidableLT α
  decLe : DecidableLE α
  /-- The year fraction that `days` days make on a basis of so many days a year. -/
  yearFraction : (days : Int) → (basis : Nat) → α
  abs : α → α
  /-- The larger of two numbers; an operand that is not a number gives way to the other. -/
  larger : α → α → α
  /-- The smaller of two numbers; an operand that is not a number gives way to the other. -/
  smaller : α → α → α
  /-- The magnitude of the first number with the sign of the second. -/
  withSignOf : α → α → α
  exp : α → α
  ln : α → α
  sqrt : α → α
  /-- A number, and not an infinite one. -/
  isFinite : α → Bool
  /-- Not a number at all. -/
  isNaN : α → Bool
  /-- The linear order in which what is not a number has a place too. -/
  totalLe : α → α → Bool
  /-- The same representation: zeros of two signs differ, and what is not a number equals itself. -/
  same : α → α → Bool
  /-- The distance from one to the next number. -/
  epsilon : α
  /-- The smallest positive number of full precision. -/
  minPositive : α

namespace Scalar

variable {α : Type} [Scalar α]

instance : DecidableLT α := decLt

instance : DecidableLE α := decLe

/-- The number nearest to `x` in `[low, high]`; what is not a number stays. -/
def nearest (low high x : α) : α :=
  if x < low then low else if x > high then high else x

/-- Moves `x` into `[low, high]`, unless the ends are not in order. -/
def clamp? (low high x : α) : Option α := if low ≤ high then some (nearest low high x) else none

/-- Adds up from negative zero, so that an empty sum carries its sign. -/
def sum (xs : List α) : α := xs.foldl (· + ·) (-0)

end Scalar

end TermStructure
