import TermStructure.Decimal.Digits

/-!
# What can go wrong with a date

The causes for which a date or a day count is refused, and their wording.
-/

namespace TermStructure

/-- Why there is no such date. -/
inductive DateFault where
  /-- The calendar has no such day. -/
  | missing (year : Int) (month day : Nat)
  /-- The text writes no date. -/
  | unreadable (text : String)
  | other (reason : String)
deriving DecidableEq, Repr

/-- Why a text names nothing. -/
inductive NameFault where
  | dayCount (text : String)
  | other (reason : String)
deriving DecidableEq, Repr

/-- An error of dates and day counts. -/
inductive CalendarError where
  | invalidDate (fault : DateFault)
  | unknownName (fault : NameFault)
deriving DecidableEq, Repr

/-- The wording of a fault; the month and the day have two places. -/
def DateFault.message : DateFault → String
  | .missing year month day =>
    String.ofList (Decimal.signed year ++ '-' :: (Decimal.padded 2 month ++ '-' :: Decimal.padded 2 day))
  | .unreadable text => "Cannot parse: " ++ text
  | .other reason => reason

def NameFault.message : NameFault → String
  | .dayCount text => "unknown day count: " ++ text
  | .other reason => reason

def CalendarError.message : CalendarError → String
  | .invalidDate fault => "Invalid date: " ++ fault.message
  | .unknownName fault => "Parse error: " ++ fault.message

end TermStructure
