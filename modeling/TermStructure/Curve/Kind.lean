import TermStructure.Interpolation.Scheme
import TermStructure.RootFinding.Bracket

/-!
# Curve kinds

What the values at the nodes of a curve are. The kind fixes the value at time zero, the guess a
search starts from, the interval it searches and the limits no search may leave.
-/

namespace TermStructure

/-- The quantity a curve has at its nodes. -/
inductive CurveKind where
  | discount
  | survivalProbability
  | hazardRate
deriving DecidableEq, Repr

namespace CurveKind

instance : Inhabited CurveKind := ⟨discount⟩

def all : List CurveKind := [discount, survivalProbability, hazardRate]

def identifier : CurveKind → String
  | discount => "Discount"
  | survivalProbability => "SurvivalProbability"
  | hazardRate => "HazardRate"

def ofIdentifier? (s : String) : Option CurveKind := all.find? (·.identifier == s)

def title : CurveKind → String
  | discount => "Discount"
  | survivalProbability => "Survival Probability"
  | hazardRate => "Hazard Rate"

/-- Node values are discount factors or survival probabilities. -/
def isProbabilityLike : CurveKind → Bool
  | discount | survivalProbability => true
  | hazardRate => false

/-- The method can carry node values of the kind: a logarithm needs them positive, and hazard rates
    start at zero. -/
def supports (kind : CurveKind) (method : Method) : Bool :=
  !(kind == hazardRate && method == .logLinear)

variable {α : Type} [Scalar α]

def anchorValue : CurveKind → α
  | discount | survivalProbability => 1
  | hazardRate => 0

/-- The guess for node `index`, at time `t`, after a node with value `previous`: a flat curve at an
    average rate gives the first one. -/
def initialGuess (kind : CurveKind) (index : Nat) (previous t : α) : α :=
  if index > 1 then previous
  else
    match kind with
    | discount => 1 / (1 + 0.05 * t)
    | survivalProbability => 1 / (1 + 0.01 * t)
    | hazardRate => 0.01

/-- The limits that no search may leave. -/
def domain : CurveKind → α × α
  | discount => (1e-12, 10.0)
  | survivalProbability => (1e-12, 1)
  | hazardRate => (-1, 10.0)

/-- The interval first searched for a node `dt` years after one with value `previous`: forward rates
    from -10% to 100%, hazard rates from 0% to 100%. -/
def searchBracket (kind : CurveKind) (previous dt : α) : Bracket α :=
  let first : Bracket α :=
    match kind with
    | discount => ⟨previous * Scalar.exp (-dt), previous * Scalar.exp (0.1 * dt)⟩
    | survivalProbability => ⟨previous * Scalar.exp (-dt), previous⟩
    | hazardRate => ⟨0, Scalar.larger previous 0.5 * 2.0⟩
  let (low, high) : α × α := kind.domain
  first.restrict low high

def widenedBracket (kind : CurveKind) (factor : α) (bracket : Bracket α) : Bracket α :=
  let (low, high) : α × α := kind.domain
  (bracket.widen factor).restrict low high

end CurveKind

end TermStructure
