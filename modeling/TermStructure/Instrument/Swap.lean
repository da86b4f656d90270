import TermStructure.Instrument.Basic

/-!
# Swaps

A par swap priced off one curve. The fixed leg pays at dates rolled from the start by whole months,
as long as they come before maturity, and last at maturity; the floating leg is worth the difference
of the discount factors at start and maturity.
-/

namespace TermStructure

/-- A par swap, with the payment dates of its fixed leg. -/
structure Swap where
  start : Date
  maturity : Date
  dayCount : DayCount
  payments : List Date
deriving Repr

/-- Why a swap cannot be made: its terms are refused, or its dates leave the calendar. -/
inductive SwapError where
  | terms (fault : InstrumentFault)
  | dates (error : CalendarError)
deriving Repr

/-- A swap that cannot be made is an invalid helper, unless its dates are at fault. -/
def SwapError.toCurveError {α : Type} : SwapError → CurveError α
  | terms fault => .invalidHelper fault
  | dates error => .calendar error

namespace Swap

/-- The date `k` periods of `months` months after the start. -/
def roll (start : Date) (months k : Nat) : Except CalendarError Date :=
  start.addMonths (Date.count32 (months * k))

/-- The number of the first roll, from `k` on, that is not before maturity; `tries` are left. -/
def firstLateRoll (start maturity : Date) (months : Nat) : (tries k : Nat) → Except CalendarError Nat
  | 0, k => .ok k
  | tries + 1, k =>
    match roll start months k with
    | .error e => .error e
    | .ok date => if date ≥ maturity then .ok k else firstLateRoll start maturity months tries (k + 1)

/-- The months that lie between two dates, the first and the last included. -/
def monthsSpanned (start maturity : Date) : Nat :=
  (12 * (maturity.year - start.year) + maturity.month - start.month + 1).toNat

def schedule (start maturity : Date) (months : Nat) : Except CalendarError (List Date) := do
  let late ← firstLateRoll start maturity months (monthsSpanned start maturity) 1
  return (List.range' 1 (late - 1)).filterMap (fun k => (roll start months k).toOption) ++ [maturity]

/-- The swap that pays every so many months. -/
def make (start maturity : Date) (months : Nat) (dayCount : DayCount) : Except SwapError Swap :=
  if maturity ≤ start then .error (.terms (.swapPeriod start maturity))
  else if months = 0 ∨ months ≥ 2147483648 then .error (.terms (.couponPeriod months))
  else
    match schedule start maturity months with
    | .ok payments => .ok ⟨start, maturity, dayCount, payments⟩
    | .error e => .error (.dates e)

variable {α : Type} [Scalar α]

/-- The length of each period of the fixed leg in years. -/
def accruals (s : Swap) : List α := List.zipWith s.dayCount.yearFraction (s.start :: s.payments) s.payments

/-- The value of the fixed leg at a rate of one. -/
def annuity (s : Swap) (f : Frame) : Reading α α :=
  (s.payments.zip s.accruals).foldlM (fun total (date, accrual) => do
    let d ← Reading.discountAt f date
    return total + accrual * d) 0

def rate (s : Swap) (f : Frame) : Reading α α := do
  let atStart ← Reading.discountAt f s.start
  let atMaturity ← Reading.discountAt f s.maturity
  let annuity ← s.annuity f
  return (atStart - atMaturity) / annuity

def instrument (s : Swap) : Instrument α where
  pillar := s.maturity
  latest := s.maturity
  description := "Swap " ++ s.start.text ++ " to " ++ s.maturity.text ++ " (" ++
    Decimal.text s.payments.length ++ " periods, " ++ s.dayCount.name ++ ")"
  implied := s.rate

end Swap

end TermStructure
