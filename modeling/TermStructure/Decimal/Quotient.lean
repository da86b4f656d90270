import TermStructure.Decimal.Digits
import TermStructure.Decimal.Powers

/-!
# Quotients in ninety-six bits

A quotient of a whole number by a basis is held as a decimal of at most ninety-six bits and at most
twenty-eight places. Digits are produced up to nine at a time for as long as they fit, a last
remainder that does not fit rounds to nearest, and zeros at the end are removed in steps of eight,
four, two and one places, of which all but the first are taken once, so that a few can survive.
-/

namespace TermStructure.Decimal

/-- The decimal `units / 10 ^ scale` with a sign. -/
structure Quotient where
  negative : Bool
  units : Nat
  scale : Nat
deriving DecidableEq, Repr

namespace Quotient

/-- Ninety-six bits hold `units`. -/
def fits (units : Nat) : Bool := decide (units < 79228162514264337593543950336)

/-- How many further digits of `q + r / b` fit, at most nine and at most up to place twenty-eight. -/
def room (b q r scale : Nat) : Nat :=
  ((List.range (min 9 (28 - scale) + 1)).reverse.find? fun p =>
    fits (q * tenTo p) && fits (q * tenTo p + r * tenTo p / b)).getD 0

/-- Produces digits until nothing remains or no more fit. -/
def extend (b : Nat) : (steps q r scale : Nat) → Nat × Nat
  | 0, q, _, scale => (q, scale)
  | steps + 1, q, r, scale =>
    if r = 0 then (q, scale)
    else
      let p := room b q r scale
      if p = 0 then (if 2 * r > b || (2 * r == b && q % 2 == 1) then q + 1 else q, scale)
      else extend b steps (q * tenTo p + r * tenTo p / b) (r * tenTo p % b) (scale + p)

/-- Removes `places` zeros if a cheap test on the last binary digits and the division agree. -/
def dropZeros (modulus places : Nat) : Nat × Nat → Nat × Nat
  | (q, scale) =>
    if q % modulus == 0 && decide (scale ≥ places) && q % tenTo places == 0 then
      (q / tenTo places, scale - places)
    else (q, scale)

/-- Removes eight zeros at a time; three steps reach any scale. -/
def dropEights : Nat → Nat × Nat → Nat × Nat
  | 0, d => d
  | n + 1, d => dropEights n (dropZeros 4294967296 8 d)

def trim (d : Nat × Nat) : Nat × Nat :=
  dropZeros 2 1 (dropZeros 4 2 (dropZeros 16 4 (dropEights 3 d)))

def divide (n : Int) (b : Nat) : Quotient :=
  let q := n.natAbs / b
  let r := n.natAbs % b
  let (units, scale) := if r = 0 then (q, 0) else trim (extend b 29 q r 0)
  ⟨decide (n < 0), units, scale⟩

/-- The quotient in full, with all its places. -/
def text (d : Quotient) : String :=
  let cs := padded (d.scale + 1) d.units
  String.ofList ((if d.negative then ['-'] else []) ++ cs.take (cs.length - d.scale) ++
    (if d.scale = 0 then [] else '.' :: cs.drop (cs.length - d.scale)))

/-- The quotient in binary: whole part and fraction are converted apart, added, and rounded to the
    places of the quotient. -/
def toFloat (d : Quotient) : Float :=
  let sign (x : Float) : Float := if d.negative then -x else x
  if d.scale = 0 then sign (Float.ofNat d.units)
  else
    let p := tenTo d.scale
    let whole := Float.ofNat (d.units / p)
    let fraction := Float.ofNat (d.units % p) / Float.ofNat p
    if fraction == 0.0 then sign whole
    else sign (Float.round ((whole + fraction) * Float.ofNat p) / Float.ofNat p)

end Quotient

end TermStructure.Decimal
