import TermStructure.Calendar.Date

/-!
# Errors

Numeric errors are raised by root finding and interpolation, curve errors by everything that builds
or reads a curve. Both say the cause; what they are called in words is in `Error.Message`.
-/

namespace TermStructure

/-- An input that a numeric routine refuses. -/
inductive NumericFault (α : Type) where
  /-- Nodes need as many values as abscissas. -/
  | lengths (abscissas values : Nat)
  /-- A node coordinate is not finite. -/
  | nodes
  /-- The abscissas do not increase. -/
  | order
  /-- A node value is not positive where a logarithm is taken. -/
  | sign (index : Nat) (value : α)
  /-- The abscissa of a query is not a number. -/
  | abscissa
  /-- The ends of a search interval are not finite and increasing. -/
  | bracket (lower upper : α)
  /-- A forward period ends no later than it starts. -/
  | period (start finish : α)
  | other (reason : String)
deriving DecidableEq, Repr

/-- An error of root finding or interpolation. -/
inductive NumericError (α : Type) where
  /-- The evaluations ran out; the smallest residual reached is told. -/
  | convergenceFailed (evaluations : Nat) (residual : α)
  /-- The ends of the search interval show no change of sign. -/
  | invalidBracket (a b fa fb : α)
  /-- The objective has no finite value at a point. -/
  | nonFiniteValue (x : α)
  | extrapolation (x min max : α)
  | insufficientData (required actual : Nat)
  | invalidInput (fault : NumericFault α)
  /-- A point was to be moved into an interval whose ends are not in order. This is no answer: the computation
      breaks off. -/
  | disordered (lower upper : α)
deriving DecidableEq, Repr

/-- A wider search interval can mend the error. -/
def NumericError.isSearchFailure {α : Type} : NumericError α → Bool
  | convergenceFailed .. | invalidBracket .. => true
  | _ => false

/-- Why an instrument cannot be made. -/
inductive InstrumentFault where
  | depositPeriod (start finish : Date)
  | swapPeriod (start maturity : Date)
  | couponPeriod (months : Nat)
  | other (reason : String)
deriving DecidableEq, Repr

/-- Why a quote cannot be used. -/
inductive QuoteFault where
  | missing (description : String)
  | other (reason : String)
deriving DecidableEq, Repr

/-- Why a jump cannot be applied. -/
inductive JumpFault (α : Type) where
  | missing
  /-- The factor does not lie in `(0, 1]`. -/
  | factor (value : α)
  | other (reason : String)
deriving DecidableEq, Repr

/-- The formats a configuration is read from. -/
inductive DataFormat where
  | toml
  | json
deriving DecidableEq, Repr

/-- Why a configuration, or a set of nodes, is refused. -/
inductive ConfigFault (α : Type) where
  | accuracy (value : α)
  | maxEvaluations
  | bracketWidening (value : α)
  /-- The scheme cannot carry nodes of the kind. -/
  | unsupported (scheme kind : String)
  /-- The scheme needs more nodes than the first trial curve has. -/
  | minPoints (scheme : String) (required : Nat)
  /-- The same, where the nodes of the first trial curve are told too. -/
  | trialNodes (scheme : String) (required available : Nat)
  /-- Nodes need as many values as times, and at least one. -/
  | nodeCounts (times values : Nat)
  /-- The first node is not at time zero. -/
  | firstNode
  /-- The text is not of the format, or not of the shape of a configuration. -/
  | unreadable (format : DataFormat)
  | other (reason : String)
deriving DecidableEq, Repr

/-- An error of building or reading a curve. Pillars are numbered from 1. -/
inductive CurveError (α : Type) where
  /-- There is nothing to calibrate to. -/
  | emptyHelperSet
  /-- Two pillars, or a pillar and the anchor, share a time. -/
  | duplicatePillar (time : α)
  /-- A pillar lies before the reference date. -/
  | invalidPillar (index : Nat) (time : α)
  /-- The search failed at a pillar, on the wider interval too. -/
  | pillarFailure (index : Nat) (lastResidual : α)
  /-- The finished curve misses a quote. -/
  | globalCheckFailure (index : Nat) (residual : α)
  /-- The root finder failed in a way that a wider interval cannot mend. -/
  | rootFind (index : Nat) (source : NumericError α)
  /-- The scheme refused the trial nodes at a pillar. -/
  | interpolation (index : Nat) (source : NumericError α)
  | helper (index : Nat) (source : CurveError α)
  | invalidHelper (fault : InstrumentFault)
  | invalidQuote (fault : QuoteFault)
  | extrapolation (t min max : α)
  | invalidAdjustment (fault : JumpFault α)
  | invalidConfig (fault : ConfigFault α)
  | numeric (source : NumericError α)
  | calendar (source : CalendarError)
deriving DecidableEq, Repr

namespace CurveError

variable {α : Type}

/-- A numeric error met while a curve is read; leaving the nodes is an error of the curve itself. -/
def ofNumeric : NumericError α → CurveError α
  | .extrapolation x min max => .extrapolation x min max
  | e => .numeric e

/-- An attempt to solve a curve can end with the error. -/
def isBootstrapFailure : CurveError α → Bool
  | emptyHelperSet | duplicatePillar .. | invalidPillar .. | pillarFailure .. | globalCheckFailure ..
  | rootFind .. | interpolation .. | helper .. => true
  | _ => false

/-- Instead of an error to be answered it says that the search at a pillar broke off, and all that waited for it. -/
def breaksOff : CurveError α → Bool
  | rootFind _ (.disordered ..) => true
  | _ => false

/-- The computation came to its end, with a result or with an error to be answered. -/
def completed {β : Type} : Except (CurveError α) β → Bool
  | .ok _ => true
  | .error e => !e.breaksOff

theorem exists_of_not_completed {β : Type} {result : Except (CurveError α) β} (h : completed result = false) :
    ∃ e, result = .error e ∧ e.breaksOff = true := by
  cases result with
  | ok b => cases h
  | error e => exact ⟨e, rfl, by simpa only [completed, Bool.not_eq_false'] using h⟩

theorem not_breaksOff_of_completed {β : Type} {e : CurveError α} (h : completed (.error e : Except _ β) = true) :
    ¬e.breaksOff = true := by
  simpa only [completed, Bool.not_eq_true', Bool.not_eq_true] using h

end CurveError

instance {α : Type} : Coe (NumericError α) (CurveError α) := ⟨.ofNumeric⟩

instance {α : Type} : Coe CalendarError (CurveError α) := ⟨.calendar⟩

end TermStructure
