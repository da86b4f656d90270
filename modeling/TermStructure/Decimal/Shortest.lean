import TermStructure.Decimal.Binary
import TermStructure.Decimal.Powers

/-!
# The fewest digits that read back

The reals that round to a binary64 number form an interval around it, with its ends if the mantissa
is even. For one digit, two digits and so on, the neighbours of the number on the grid of decimals
with so many digits are tried; the first grid with a neighbour inside the interval gives the digits,
and of two such neighbours the nearer one. Seventeen digits always suffice.
-/

namespace TermStructure.Decimal

/-- The decimal number `digits * 10 ^ exponent`. -/
structure Scientific where
  digits : Nat
  exponent : Int
deriving DecidableEq, Repr

/-- Which of two equally near decimals is taken. -/
inductive Tie where
  | up
  | even
deriving DecidableEq, Repr

namespace Magnitude

/-- Half of half the distance to the next larger number, as a power of two: `2 ^ quarter`. -/
def quarter (m : Magnitude) : Int := (m.exponent : Int) - 1076

/-- The fraction `2 ^ quarter / 10 ^ place` in natural numbers. -/
def quarterIn (m : Magnitude) (place : Int) : Nat × Nat :=
  (twoTo m.quarter.toNat * tenTo (-place).toNat, twoTo (-m.quarter).toNat * tenTo place.toNat)

/-- The magnitude is `10 ^ place` or more. -/
def reaches (m : Magnitude) (place : Int) : Bool :=
  let (num, den) := m.quarterIn place
  decide (den ≤ 4 * m.mantissa * num)

/-- Moves a place up as long as the magnitude reaches it. -/
def climb (m : Magnitude) : Nat → Int → Int
  | 0, place => place
  | steps + 1, place => if m.reaches place then m.climb steps (place + 1) else place

/-- The position of the decimal point before which the first digit stands: the magnitude lies in
    `[10 ^ (p - 1), 10 ^ p)`. The start is an estimate from below by the binary logarithm. -/
def pointPosition (m : Magnitude) : Int :=
  m.climb 4 ((((Nat.log2 m.mantissa : Int) + m.exponent - 1074) * 30103) / 100000 - 1)

/-- The decimal `candidate * 10 ^ place` rounds to the magnitude. -/
def covers (m : Magnitude) (candidate : Nat) (place : Int) : Bool :=
  let (num, den) := m.quarterIn place
  let low := (4 * m.mantissa - if m.isBinadeStart then 1 else 2) * num
  let high := (4 * m.mantissa + 2) * num
  let x := candidate * den
  if m.mantissa % 2 == 0 then decide (low ≤ x) && decide (x ≤ high)
  else decide (low < x) && decide (x < high)

/-- The neighbour on the grid of multiples of `10 ^ place` that reads back, the nearer one of two. -/
def neighbour? (tie : Tie) (m : Magnitude) (place : Int) : Option Nat :=
  let (num, den) := m.quarterIn place
  let exact := 4 * m.mantissa * num
  let below := exact / den
  let above := below + 1
  match m.covers below place, m.covers above place with
  | true, true =>
    let down := exact - below * den
    let up := above * den - exact
    if down < up then some below
    else if up < down then some above
    else match tie with
      | .up => some above
      | .even => some (if below % 2 == 0 then below else above)
  | true, false => some below
  | false, true => some above
  | false, false => none

/-- Tries grids of more and more digits. -/
def search (tie : Tie) (m : Magnitude) (position : Int) : (tries : Nat) → (count : Int) → Scientific
  | 0, count => ⟨4 * m.mantissa * (m.quarterIn (position - count)).1 / (m.quarterIn (position - count)).2,
      position - count⟩
  | tries + 1, count =>
    match m.neighbour? tie (position - count) with
    | some d => ⟨d, position - count⟩
    | none => m.search tie position tries (count + 1)

/-- The shortest decimal that reads back as the magnitude, which is not zero. -/
def shortest (tie : Tie) (m : Magnitude) : Scientific := m.search tie m.pointPosition 17 1

end Magnitude

end TermStructure.Decimal
