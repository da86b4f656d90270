import TermStructure.Curve.NodeCurve
import TermStructure.Instrument.Basic

/-!
# Repricing

Each helper is repriced on the finished curve. A check compares the implied with the market quote, and
a report sums up the checks of all helpers.
-/

namespace TermStructure

/-- The repricing of one helper. Helpers are numbered from 1, in the order of their pillars. -/
structure RepricingCheck (α : Type) where
  index : Nat
  description : String
  market : α
  implied : α
  residual : α
  error : α
  tolerance : α
  passed : Bool
deriving Repr

namespace RepricingCheck

variable {α : Type} [Scalar α]

/-- Compares two quotes. An error that is not a number does not pass. -/
def make (index : Nat) (description : String) (market implied tolerance : α) : RepricingCheck α :=
  let residual := implied - market
  let error := Scalar.abs residual
  ⟨index, description, market, implied, residual, error, tolerance, decide (error ≤ tolerance)⟩

def evaluate (index : Nat) (h : Helper α) (curve : NodeCurve α) (tolerance : α) :
    Except (CurveError α) (RepricingCheck α) := do
  let market ← h.marketQuote
  let implied ← curve.read (h.instrument.implied curve.frame)
  return make index h.instrument.description market implied tolerance

end RepricingCheck

/-- The checks of all helpers, with the largest and the root mean square error. -/
structure RepricingReport (α : Type) where
  checks : List (RepricingCheck α)
  maxError : α
  rmsError : α
  allPassed : Bool
  worstIndex : Option Nat
deriving Repr

namespace RepricingReport

variable {α : Type} [Scalar α]

/-- The check with the largest error, the last of several. -/
def worst? (checks : List (RepricingCheck α)) : Option (RepricingCheck α) :=
  checks.foldl (fun worst check =>
    match worst with
    | some w => if Scalar.totalLe w.error check.error then some check else some w
    | none => some check) none

def rootMeanSquare (checks : List (RepricingCheck α)) : α :=
  if checks.isEmpty then 0
  else Scalar.sqrt (Scalar.sum (checks.map fun c => c.error * c.error) / (checks.length : α))

def make (checks : List (RepricingCheck α)) : RepricingReport α where
  checks := checks
  maxError := ((worst? checks).map (·.error)).getD 0
  rmsError := rootMeanSquare checks
  allPassed := checks.all (·.passed)
  worstIndex := (worst? checks).map (·.index)

def failed (r : RepricingReport α) : List (RepricingCheck α) := r.checks.filter (!·.passed)

/-- The error to report if a check did not pass. -/
def failure? (r : RepricingReport α) : Option (CurveError α) :=
  if r.allPassed then none
  else (worst? r.checks).map fun worst => .globalCheckFailure worst.index worst.residual

end RepricingReport

end TermStructure
