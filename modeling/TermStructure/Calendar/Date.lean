import TermStructure.Calendar.Error

/-!
# Dates

Days of the proleptic Gregorian calendar within a fixed range of years. Months and years are added on
32-bit counts, and the day is cut to the length of the month that is reached.
-/

namespace TermStructure

def isLeapYear (year : Int) : Bool :=
  year % 4 == 0 && (year % 100 != 0 || year % 400 == 0)

/-- The length of a month; zero if there is no such month. -/
def monthLength (year : Int) (month : Nat) : Nat :=
  match month with
  | 1 | 3 | 5 | 7 | 8 | 10 | 12 => 31
  | 4 | 6 | 9 | 11 => 30
  | 2 => if isLeapYear year then 29 else 28
  | _ => 0

def firstYear : Int := -262143

def lastYear : Int := 262142

def IsYear (year : Int) : Prop := firstYear ≤ year ∧ year ≤ lastYear

instance (year : Int) : Decidable (IsYear year) := inferInstanceAs (Decidable (_ ∧ _))

def IsDay (year : Int) (month day : Nat) : Prop :=
  IsYear year ∧ 1 ≤ day ∧ day ≤ monthLength year month

instance (year : Int) (month day : Nat) : Decidable (IsDay year month day) :=
  inferInstanceAs (Decidable (_ ∧ _))

/-- A date. -/
@[ext]
structure Date where
  year : Int
  month : Nat
  day : Nat
  isDay : IsDay year month day
deriving DecidableEq, Repr

namespace Date

instance : Inhabited Date := ⟨⟨1, 1, 1, by decide⟩⟩

/-- The date of a year, month and day, if there is one. -/
def ofParts? (year : Int) (month day : Nat) : Option Date :=
  if h : IsDay year month day then some ⟨year, month, day, h⟩ else none

def ofParts (year : Int) (month day : Nat) : Except CalendarError Date :=
  match ofParts? year month day with
  | some d => .ok d
  | none => .error (.invalidDate (.missing year month day))

/-- An earlier year, month or day comes first. -/
def le (a b : Date) : Bool :=
  a.year < b.year || a.year == b.year && (a.month < b.month || a.month == b.month && a.day ≤ b.day)

instance : LE Date := ⟨fun a b => a.le b⟩

instance : LT Date := ⟨fun a b => ¬ b ≤ a⟩

instance : DecidableLE Date := fun a b => inferInstanceAs (Decidable (a.le b = true))

instance : DecidableLT Date := fun a b => inferInstanceAs (Decidable (¬ b ≤ a))

def later (a b : Date) : Date := if a ≤ b then b else a

/-- The days of the years from year one up to, and without, `year`. -/
def daysBeforeYear (year : Int) : Int :=
  365 * (year - 1) + (year - 1) / 4 - (year - 1) / 100 + (year - 1) / 400

def daysBeforeMonth (year : Int) : (month : Nat) → Nat
  | 0 => 0
  | month + 1 => daysBeforeMonth year month + monthLength year month

/-- The number of a day, counted from 1 on the first day of year one. -/
def number (d : Date) : Int := daysBeforeYear d.year + daysBeforeMonth d.year d.month + d.day

/-- The days from one date to another, negative if the other is earlier. -/
def daysUntil (a b : Date) : Int := b.number - a.number

/-- Finds month and day of a day of the year, counted from 1; `months` of them are left to try. -/
def ofYearDay (year : Int) (month day : Nat) : (months : Nat) → Option Date
  | 0 => none
  | months + 1 =>
    if day ≤ monthLength year month then ofParts? year month day
    else ofYearDay year (month + 1) (day - monthLength year month) months

/-- The day with a number: whole spans of 400, 100, 4 and 1 years are taken off in turn; the last
    century and the last year of a span can be a day longer. -/
def ofNumber? (n : Int) : Option Date :=
  let z := n - 1
  let r := z % 146097
  let centuries := min (r / 36524) 3
  let r := r - centuries * 36524
  let fours := r / 1461
  let r := r - fours * 1461
  let ones := min (r / 365) 3
  let year := 400 * (z / 146097) + 100 * centuries + 4 * fours + ones + 1
  ofYearDay year 1 (r - ones * 365 + 1).toNat 12

/-- The day so many days later, if the calendar reaches so far. -/
def addDays? (d : Date) (days : Int) : Option Date := ofNumber? (d.number + days)

/-- An integer as a 32-bit count holds it. -/
def count32 (n : Int) : Int := n.bmod 4294967296

/-- The day cut to the length of a month; a year outside the calendar has no leap day. -/
def cutDay (day : Nat) (year : Int) (month : Nat) : Nat :=
  min day (if IsYear year then monthLength year month else monthLength 1 month)

/-- The same day so many months later, or the last day of a shorter month. -/
def addMonths (d : Date) (months : Int) : Except CalendarError Date :=
  let total := count32 (d.year * 12 + d.month - 1 + months)
  let year := total / 12
  let month := (total % 12 + 1).toNat
  ofParts year month (cutDay d.day year month)

/-- The same day so many years later; a leap day becomes the day before in a common year. -/
def addYears (d : Date) (years : Int) : Except CalendarError Date :=
  let year := count32 (d.year + years)
  ofParts year d.month (cutDay d.day year d.month)

def endOfYear (d : Date) : Except CalendarError Date := ofParts d.year 12 31

end Date

end TermStructure
