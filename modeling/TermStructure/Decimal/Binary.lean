/-!
# Binary64 numbers, exactly

A finite binary64 number is a sign and a magnitude `mantissa * 2 ^ (exponent - 1074)`; the texts of a
number are worked out from that exact value in natural numbers.
-/

namespace TermStructure.Decimal

/-- The magnitude `mantissa * 2 ^ (exponent - 1074)` of a finite binary64 number. -/
structure Magnitude where
  mantissa : Nat
  exponent : Nat
deriving DecidableEq, Repr

/-- What a binary64 number stands for. -/
inductive Binary where
  | undefined
  | infinite (negative : Bool)
  | finite (negative : Bool) (magnitude : Magnitude)
deriving DecidableEq, Repr

/-- The bit above the fraction, which is not written. -/
def hiddenBit : Nat := 4503599627370496

/-- Reads sign, exponent field and fraction field; a zero exponent field has no hidden bit. -/
def Binary.ofBits (bits : Nat) : Binary :=
  let negative := bits / 9223372036854775808 % 2 == 1
  let field := bits / hiddenBit % 2048
  let fraction := bits % hiddenBit
  if field == 2047 then
    if fraction == 0 then .infinite negative else .undefined
  else if field == 0 then .finite negative ⟨fraction, 0⟩
  else .finite negative ⟨hiddenBit + fraction, field - 1⟩

def Binary.ofFloat (x : Float) : Binary := .ofBits x.toBits.toNat

namespace Magnitude

/-- The binade starts here, so the next smaller number is only half as far away as the next larger. -/
def isBinadeStart (m : Magnitude) : Bool := m.mantissa == hiddenBit && m.exponent > 0

end Magnitude

end TermStructure.Decimal
