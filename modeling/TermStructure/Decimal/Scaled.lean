import TermStructure.Decimal.Numeral

/-!
# Scaled words

The quick reading of a numeral: as many leading digits as a word of sixty-four bits holds are taken
into it, the others only count as places, and the word is multiplied or divided by a power of ten. The
word, the power and the result are each rounded, so the number read can miss the nearest one by a few
of its last places.
-/

namespace TermStructure.Decimal

/-- The number `word * 10 ^ exponent`. -/
structure ScaledWord where
  word : Nat
  exponent : Int
deriving DecidableEq, Repr

namespace ScaledWord

/-- Sixty-four bits hold `word`. -/
def Fits (word : Nat) : Prop := word < 18446744073709551616

instance (word : Nat) : Decidable (Fits word) := inferInstanceAs (Decidable (_ < _))

/-- Appends digits to a word up to the first that does not fit; returns the word and the digits left
    over. -/
def gather (word : Nat) : List Char → Nat × List Char
  | [] => (word, [])
  | c :: rest =>
    if Fits (10 * word + digitValue c) then gather (10 * word + digitValue c) rest else (word, c :: rest)

/-- The leading digits of a numeral. A digit left over before the point multiplies by ten; one left
    over after it does nothing. The digits after the point are tried even if some before it are left
    over, and can still fit if they are smaller. -/
def ofNumeral (n : Numeral) : ScaledWord :=
  let (whole, wholeLeft) := gather 0 n.whole
  let (word, fractionLeft) := gather whole n.fraction
  ⟨word, n.exponent + wholeLeft.length - (n.fraction.length - fractionLeft.length : Nat)⟩

/-- The binary64 number nearest to a power of ten. -/
def power (n : Nat) : Float := Float.ofScientific 1 false n

/-- The binary64 number of the word; it is missing if it is too large. Powers beyond `10 ^ 308` are
    divided by in two steps, and beyond `10 ^ 616` nothing is left of any word. -/
def toFloat? (s : ScaledWord) : Option Float :=
  let x := Float.ofNat s.word
  if s.word = 0 then some 0.0
  else if s.exponent > 308 then none
  else if s.exponent ≥ 0 then
    let y := x * power s.exponent.toNat
    if y.isInf then none else some y
  else if s.exponent ≥ -308 then some (x / power (-s.exponent).toNat)
  else if s.exponent ≥ -616 then some (x / power 308 / power (-s.exponent - 308).toNat)
  else some 0.0

end ScaledWord

/-- The quick reading of a numeral as a binary64 number; it is missing if it is too large. -/
def Numeral.quickFloat? (n : Numeral) : Option Float :=
  (ScaledWord.ofNumeral n).toFloat?.map fun x => if n.negative then -x else x

end TermStructure.Decimal
