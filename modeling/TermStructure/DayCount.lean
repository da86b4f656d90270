import TermStructure.Calendar.Date
import TermStructure.Decimal.Quotient
import TermStructure.Scalar
import TermStructure.Text.Blank
import TermStructure.Text.Upper

/-!
# Day counts

A day count turns a period into a year fraction: the days of the period over the days of a year.
-/

namespace TermStructure

/-- A day count convention. -/
inductive DayCount where
  | act360
  | act365Fixed
deriving DecidableEq, Repr

namespace DayCount

/-- Curves measure time by the fixed year of 365 days unless told otherwise. -/
instance : Inhabited DayCount := ⟨act365Fixed⟩

/-- The name a market knows the convention by. -/
def name : DayCount → String
  | act360 => "ACT/360"
  | act365Fixed => "ACT/365F"

def identifier : DayCount → String
  | act360 => "Act360"
  | act365Fixed => "Act365Fixed"

def all : List DayCount := [act360, act365Fixed]

def ofIdentifier? (s : String) : Option DayCount := all.find? (·.identifier == s)

def basis : DayCount → Nat
  | act360 => 360
  | act365Fixed => 365

/-- The exact year fraction of a period. -/
def quotient (c : DayCount) (start finish : Date) : Decimal.Quotient :=
  .divide (start.daysUntil finish) c.basis

def yearFraction {α : Type} [Scalar α] (c : DayCount) (start finish : Date) : α :=
  Scalar.yearFraction (start.daysUntil finish) c.basis

/-- The spellings of the conventions, in upper case and without spaces. -/
def spellings : List (String × DayCount) :=
  [("ACT/360", act360), ("A360", act360), ("ACT360", act360),
   ("ACT/365F", act365Fixed), ("ACT/365FIXED", act365Fixed), ("ACT/365", act365Fixed),
   ("A365F", act365Fixed), ("ACT365F", act365Fixed)]

/-- The convention that a text names, without regard to case, to blanks at both ends and to spaces. -/
def parse (s : String) : Except CalendarError DayCount :=
  let key := String.ofList ((Text.upper (Text.trim s.toList)).filter (· != ' '))
  match spellings.lookup key with
  | some c => .ok c
  | none => .error (.unknownName (.dayCount s))

end DayCount

end TermStructure
