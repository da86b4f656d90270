import TermStructure.Instrument.Basic

/-!
# Deposits

A simply compounded rate over a period, which may start later than today.
-/

namespace TermStructure

/-- A deposit, whose end is after its start. -/
structure Deposit where
  start : Date
  finish : Date
  dayCount : DayCount
deriving Repr

namespace Deposit

def make (start finish : Date) (dayCount : DayCount) : Except InstrumentFault Deposit :=
  if finish ≤ start then .error (.depositPeriod start finish) else .ok ⟨start, finish, dayCount⟩

variable {α : Type} [Scalar α]

def accrual (d : Deposit) : α := d.dayCount.yearFraction d.start d.finish

def rate (d : Deposit) (f : Frame) : Reading α α := do
  let atStart ← Reading.discountAt f d.start
  let atFinish ← Reading.discountAt f d.finish
  return (atStart / atFinish - 1) / d.accrual

def instrument (d : Deposit) : Instrument α where
  pillar := d.finish
  latest := d.finish
  description := "Deposit " ++ d.start.text ++ " to " ++ d.finish.text ++ " (" ++ d.dayCount.name ++ ")"
  implied := d.rate

end Deposit

end TermStructure
