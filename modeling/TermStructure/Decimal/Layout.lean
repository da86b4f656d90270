import TermStructure.Decimal.Digits
import TermStructure.Decimal.Shortest

/-!
# How a number is laid out

The digits of a number are chosen by `Magnitude.shortest`; a `Layout` says how they are set: which
numbers are written with an exponent, whether a whole number keeps a fraction, and how an exponent is
signed.
-/

namespace TermStructure.Decimal

/-- How the digits of a number are set. -/
structure Layout where
  /-- The lowest and the highest position of the decimal point written without an exponent; none is
      set aside if the number is always written so. -/
  positional : Option (Int × Int)
  /-- A whole number written without an exponent ends in `.0`. -/
  marksWhole : Bool
  /-- A positive exponent carries a plus sign. -/
  plus : Bool
  /-- Which of two equally near decimals is written. -/
  tie : Tie
  /-- What is written for something that is not a number. -/
  undefined : String := "NaN"

/-- In messages: never an exponent, and a whole number without a fraction. -/
def Layout.plain : Layout := ⟨none, false, false, .up, "NaN"⟩

/-- In inspected values: an exponent below `1e-4` and from `1e16` on, otherwise always a fraction. -/
def Layout.inspected : Layout := ⟨some (-3, 16), true, false, .up, "NaN"⟩

/-- In data texts: an exponent with its sign below `1e-5` and from `1e16` on, otherwise always a
    fraction. -/
def Layout.data : Layout := ⟨some (-4, 16), true, true, .even, "null"⟩

/-- In configuration texts: never an exponent, and always a fraction. -/
def Layout.configuration : Layout := ⟨none, true, false, .up, "nan"⟩

/-- Removes the zeros at the end of a row of digits. -/
def trimZeros (cs : List Char) : List Char := (cs.reverse.dropWhile (· == '0')).reverse

/-- Sets the digits `cs`, whose decimal point stands at `point`, without an exponent. -/
def setPositional (marksWhole : Bool) (cs : List Char) (point : Int) : List Char :=
  if point ≤ 0 then '0' :: '.' :: (List.replicate (-point).toNat '0' ++ cs)
  else if cs.length ≤ point.toNat then
    cs ++ List.replicate (point.toNat - cs.length) '0' ++ (if marksWhole then ['.', '0'] else [])
  else cs.take point.toNat ++ '.' :: cs.drop point.toNat

/-- Sets the digits `cs`, whose decimal point stands at `point`, with one digit before the point and
    an exponent. -/
def setExponential (plus : Bool) (cs : List Char) (point : Int) : List Char :=
  cs.take 1 ++ (if cs.length > 1 then '.' :: cs.drop 1 else []) ++ 'e' ::
    ((if plus && decide (point - 1 ≥ 0) then ['+'] else []) ++ signed (point - 1))

namespace Layout

def magnitude (layout : Layout) (m : Magnitude) : List Char :=
  if m.mantissa == 0 then setPositional layout.marksWhole ['0'] 1
  else
    let s := m.shortest layout.tie
    let point := (digits s.digits).length + s.exponent
    let cs := trimZeros (digits s.digits)
    match layout.positional with
    | none => setPositional layout.marksWhole cs point
    | some (low, high) =>
      if low ≤ point && point ≤ high then setPositional layout.marksWhole cs point
      else setExponential layout.plus cs point

def characters (layout : Layout) : Binary → List Char
  | .undefined => layout.undefined.toList
  | .infinite negative => (if negative then ['-'] else []) ++ ['i', 'n', 'f']
  | .finite negative m => (if negative then ['-'] else []) ++ layout.magnitude m

def write (layout : Layout) (x : Float) : String :=
  String.ofList (layout.characters (.ofFloat x))

end Layout

end TermStructure.Decimal
