import TermStructure.Curve.Reading
import TermStructure.Market.Observer

/-!
# Turn of the year

Funding is dear over the end of a year, which shows as a jump in discount factors. A quoted factor
multiplies every value after the jump. The factor is read anew each time; the time of the jump is kept
for the reference date it was worked out for.
-/

namespace TermStructure

/-- A jump at one date, the last day of the reference date's year unless it is given. -/
structure TurnOfYear (α : Type) where
  quote : QuoteId
  given : Option Date := none
  /-- The reference date last asked for, with the time of the jump from there. -/
  window : Option (Date × α) := none
  /-- How often the time of the jump was worked out. -/
  recomputations : Nat := 0

namespace TurnOfYear

variable {α : Type}

def withJumpDate (e : TurnOfYear α) (date : Date) : TurnOfYear α := { e with given := some date }

/-- The date of the jump of a curve with a reference date. -/
def jumpDate (e : TurnOfYear α) (reference : Date) : Except CalendarError Date :=
  match e.given with
  | some date => .ok date
  | none => reference.endOfYear

def kept? (e : TurnOfYear α) (reference : Date) : Option α :=
  e.window.bind fun (date, time) => if date = reference then some time else none

variable [Scalar α]

/-- The time of the jump of a curve with a reference date. -/
def jumpTime (e : TurnOfYear α) (reference : Date) (dayCount : DayCount) :
    Except (CurveError α) α × TurnOfYear α :=
  match e.kept? reference with
  | some time => (.ok time, e)
  | none =>
    match e.jumpDate reference with
    | .error error => (.error (.calendar error), e)
    | .ok date =>
      let time := dayCount.yearFraction reference date
      (.ok time, { e with window := some (reference, time), recomputations := e.recomputations + 1 })

/-- The factor, which has to lie in `(0, 1]`. -/
def factor (e : TurnOfYear α) (quotes : QuoteId → Option α) : Except (CurveError α) α :=
  match quotes e.quote with
  | none => .error (.invalidAdjustment .missing)
  | some x => if x > 0 ∧ x ≤ 1 then .ok x else .error (.invalidAdjustment (.factor x))

def apply (e : TurnOfYear α) (quotes : QuoteId → Option α) (t value : α) (reference : Date)
    (dayCount : DayCount) : Except (CurveError α) α × TurnOfYear α :=
  match e.jumpTime reference dayCount with
  | (.error error, e) => (.error error, e)
  | (.ok jump, e) => (if t > jump then (e.factor quotes).map (value * ·) else .ok value, e)

end TurnOfYear

end TermStructure
