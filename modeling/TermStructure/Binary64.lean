import TermStructure.Scalar
import TermStructure.Decimal.Quotient

/-!
# Binary floating point as a scalar

Comparisons with what is not a number are false, and the larger and the smaller of two numbers pass
over such an operand.
-/

namespace TermStructure.Binary64

def isNegative (x : Float) : Bool := x.toBits.toNat / 9223372036854775808 == 1

/-- The place of a number in the total order: by sign, then by magnitude. -/
def rank (x : Float) : Int :=
  let magnitude : Int := (x.toBits.toNat % 9223372036854775808 : Nat)
  if isNegative x then -magnitude - 1 else magnitude

end Binary64

open Binary64 in
instance : Scalar Float where
  add x y := x + y
  sub x y := x - y
  mul x y := x * y
  div x y := x / y
  neg x := -x
  zero := 0.0
  one := 1.0
  natCast := Float.ofNat
  ofScientific := Float.ofScientific
  lt x y := x < y
  le x y := x ≤ y
  beq x y := x == y
  decLt _ _ := inferInstance
  decLe _ _ := inferInstance
  yearFraction days basis := (Decimal.Quotient.divide days basis).toFloat
  abs := Float.abs
  larger x y := if x.isNaN then y else if x < y then y else x
  smaller x y := if x.isNaN then y else if y < x then y else x
  withSignOf x y := if isNegative y then -x.abs else x.abs
  exp := Float.exp
  ln := Float.log
  sqrt := Float.sqrt
  isFinite := Float.isFinite
  isNaN := Float.isNaN
  totalLe x y := decide (rank x ≤ rank y)
  same x y := x.toBits == y.toBits
  epsilon := 2.220446049250313e-16
  minPositive := 2.2250738585072014e-308

end TermStructure
