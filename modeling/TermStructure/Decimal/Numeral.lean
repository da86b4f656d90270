import TermStructure.Decimal.Digits

/-!
# Numerals

A decimal number as it is written in a text: its sign, the digits before and after the point, and the
power of ten written after them. Reading one as a binary64 number rounds to nearest.
-/

namespace TermStructure.Decimal

/-- The number `whole.fraction * 10 ^ exponent` with a sign. -/
structure Numeral where
  negative : Bool
  whole : List Char
  fraction : List Char
  exponent : Int
  /-- Neither a decimal point nor an exponent is written. -/
  isWhole : Bool
deriving DecidableEq, Repr

namespace Numeral

def digits (n : Numeral) : Nat := ofDigits (n.whole ++ n.fraction)

/-- The power of ten that the last digit counts. -/
def scale (n : Numeral) : Int := n.exponent - n.fraction.length

/-- The nearest binary64 number; powers far beyond the range are not worked out. -/
def toFloat (n : Numeral) : Float :=
  let size := (Decimal.digits n.digits).length + n.scale
  let magnitude : Float :=
    if n.digits = 0 ∨ size < -400 then 0.0
    else if size > 400 then 1.0 / 0.0
    else Float.ofScientific n.digits (decide (n.scale < 0)) n.scale.natAbs
  if n.negative then -magnitude else magnitude

/-- The integer that is written, if it is written as one. -/
def toInt? (n : Numeral) : Option Int :=
  if n.isWhole then some (if n.negative then -(n.digits : Int) else n.digits) else none

end Numeral

end TermStructure.Decimal
