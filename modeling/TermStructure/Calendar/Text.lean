import TermStructure.Calendar.Date
import TermStructure.Text.Blank

/-!
# Dates in text

A date is written as year, month and day with hyphens between. The year has four digits; outside the
years 0 to 9999 it carries its sign. Reading is more generous: months and days may have one digit,
a year fewer than four, and blanks may stand before each number. Of two ways of reading the loose one
also takes blanks before the hyphens and after the day.
-/

namespace TermStructure.Date

def characters (d : Date) : List Char :=
  let year :=
    if d.year < 0 then '-' :: Decimal.padded 4 d.year.natAbs
    else if d.year > 9999 then '+' :: Decimal.padded 4 d.year.natAbs
    else Decimal.padded 4 d.year.natAbs
  year ++ '-' :: (Decimal.padded 2 d.month ++ '-' :: Decimal.padded 2 d.day)

def text (d : Date) : String := String.ofList d.characters

def readDigits (most : Nat) (cs : List Char) : Option (Nat × List Char) :=
  let ds := (cs.take most).takeWhile Decimal.isDigit
  if ds.isEmpty then none else some (Decimal.ofDigits ds, cs.drop ds.length)

/-- A 32-bit count holds `n`. -/
def fitsCount (n : Int) : Bool := decide (-2147483648 ≤ n) && decide (n < 2147483648)

/-- Reads a year: after a sign any number of digits, without one at most four. -/
def readYear (cs : List Char) : Option (Int × List Char) :=
  let (sign, ds) : Option Bool × List Char :=
    match Text.skipBlanks cs with
    | '-' :: r => (some true, r)
    | '+' :: r => (some false, r)
    | r => (none, r)
  match readDigits (if sign.isSome then ds.length else 4) ds with
  | none => none
  | some (n, rest) =>
    let year : Int := if sign = some true then -(n : Int) else n
    if fitsCount year then some (year, rest) else none

def readHyphen (loose : Bool) (cs : List Char) : Option (List Char) :=
  match if loose then Text.skipBlanks cs else cs with
  | '-' :: rest => some rest
  | _ => none

def readPart (cs : List Char) : Option (Nat × List Char) := readDigits 2 (Text.skipBlanks cs)

/-- Reads a date that takes up all of the characters. -/
def read? (loose : Bool) (cs : List Char) : Option Date := do
  let (year, cs) ← readYear cs
  let cs ← readHyphen loose cs
  let (month, cs) ← readPart cs
  let cs ← readHyphen loose cs
  let (day, cs) ← readPart cs
  if (if loose then Text.skipBlanks cs else cs).isEmpty then ofParts? year month day else none

/-- Reads a date from a text, without regard to blanks at both ends. -/
def parse (s : String) : Except CalendarError Date :=
  match read? false (Text.trim s.toList) with
  | some d => .ok d
  | none => .error (.invalidDate (.unreadable s))

end TermStructure.Date
