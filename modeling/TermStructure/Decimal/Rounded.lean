import TermStructure.Decimal.Digits
import TermStructure.Decimal.Shortest

/-!
# Numbers rounded to some digits

A number is rounded to a count of places after the point, or to a count of significant digits, from
its exact value; a tie goes to the even neighbour. The sign of a number that rounds to zero is kept.
-/

namespace TermStructure.Decimal

/-- The natural number nearest to `num / den`, the even one of two equally near. -/
def roundDiv (num den : Nat) : Nat :=
  let q := num / den
  let rest := 2 * (num % den)
  if rest < den then q else if den < rest then q + 1 else if q % 2 == 0 then q else q + 1

namespace Magnitude

/-- The multiple of `10 ^ place` nearest to the magnitude. -/
def roundAt (m : Magnitude) (place : Int) : Nat :=
  let (num, den) := m.quarterIn place
  roundDiv (4 * m.mantissa * num) den

/-- The text of a magnitude with `places` digits after the point. -/
def fixed (m : Magnitude) (places : Nat) : List Char :=
  let cs := padded (places + 1) (m.roundAt (-places))
  cs.take (cs.length - places) ++ (if places = 0 then [] else '.' :: cs.drop (cs.length - places))

/-- The text of a magnitude with one digit before the point, `places` after it, and an exponent. -/
def scientific (m : Magnitude) (places : Nat) : List Char :=
  let set (cs : List Char) (exponent : Int) : List Char :=
    cs.take 1 ++ (if places = 0 then [] else '.' :: cs.drop 1) ++ 'e' :: signed exponent
  if m.mantissa == 0 then set (List.replicate (places + 1) '0') 0
  else
    let point := m.pointPosition
    let n := m.roundAt (point - 1 - places)
    if n < tenTo (places + 1) then set (digits n) (point - 1) else set (digits (n / 10)) point

end Magnitude

/-- Puts the sign in front, or names what is not a finite number. -/
def signedWith (write : Magnitude → List Char) : Binary → String
  | .undefined => "NaN"
  | .infinite negative => if negative then "-inf" else "inf"
  | .finite negative m => String.ofList ((if negative then ['-'] else []) ++ write m)

def fixedText (places : Nat) (x : Float) : String :=
  signedWith (·.fixed places) (.ofFloat x)

/-- The text of `x` with one digit before the point, `places` after it, and an exponent. -/
def scientificText (places : Nat) (x : Float) : String :=
  signedWith (·.scientific places) (.ofFloat x)

end TermStructure.Decimal
