import TermStructure.Bootstrap.Run
import TermStructure.Instrument.Product
import TermStructure.Market.Controller
import TermStructure.Market.TurnOfYear
import TermStructure.RootFinding.Brent

/-!
# Piecewise curves

A curve that follows the quotes of its helpers. It is solved when it is first read and again when it is
read after a change. A solve that fails leaves what the last good one committed, which inspectors go on
to show, while reads answer with the error.

What a curve does depends on the quotes only through the values they have at that moment, given as a
function.
-/

namespace TermStructure

/-- A product with the quote it is calibrated to. -/
structure MarketHelper (α : Type) where
  product : Product α
  quote : QuoteId

namespace MarketHelper

variable {α : Type} [Scalar α]

def instrument (h : MarketHelper α) : Instrument α := h.product.instrument

def priced (h : MarketHelper α) (quotes : QuoteId → Option α) : Helper α := ⟨h.instrument, quotes h.quote⟩

/-- Helpers in the order of their pillar dates; those of one date stay in the order given. -/
def inOrder (helpers : List (MarketHelper α)) : List (MarketHelper α) :=
  helpers.mergeSort fun g h => decide (g.instrument.pillar ≤ h.instrument.pillar)

end MarketHelper

/-- What a solve commits. -/
structure CommittedCurve (α : Type) where
  reference : Date
  nodes : NodeStore α
  pillarDates : List Date
  /-- The curve over the nodes, unadjusted; there is none before the first solve. -/
  curve : Option (NodeCurve α)
  report : Option (RepricingReport α)
  passes : Nat

namespace CommittedCurve

variable {α : Type}

def anchor [Scalar α] (reference : Date) (kind : CurveKind) : CommittedCurve α :=
  ⟨reference, .anchor kind, [], none, none, 0⟩

def ofOutcome (reference : Date) (o : BootstrapOutcome α) : CommittedCurve α :=
  ⟨reference, o.nodes, o.pillarDates, some o.curve, o.report, o.passes⟩

def dates (c : CommittedCurve α) : List Date := c.reference :: c.pillarDates

def maxDate (c : CommittedCurve α) : Date := c.pillarDates.getLastD c.reference

def answer [Scalar α] (c : CommittedCurve α) (extrapolates : Bool) (p : Probe α) : Except (CurveError α) α :=
  match c.curve with
  | some curve => curve.answerWith extrapolates p
  | none => .error .emptyHelperSet

end CommittedCurve

/-- A curve that follows its quotes. -/
structure PiecewiseCurve (α : Type) where
  reference : Date
  config : CurveConfig α
  scheme : Scheme α
  solver : RootFinder α
  /-- The helpers in the order of their pillar dates. -/
  helpers : List (MarketHelper α)
  controller : Controller α
  committed : CommittedCurve α
  /-- Reads beyond the last pillar are answered. -/
  extrapolates : Bool
  effect : Option (TurnOfYear α)

/-- What a curve is made from. A scheme given here is used instead of the method of the configuration. -/
structure CurveSpec (α : Type) where
  reference : Date
  helpers : List (MarketHelper α)
  config : CurveConfig α
  scheme : Option (Scheme α) := none
  solver : Option (RootFinder α) := none
  effect : Option (TurnOfYear α) := none

/-- Refuses settings out of range; a scheme of its own is not held against the kind of the curve. -/
def CurveSpec.validate {α : Type} [Scalar α] (s : CurveSpec α) : Except (CurveError α) Unit :=
  match s.scheme with
  | some _ => s.config.bootstrap.validate
  | none => s.config.validate

/-- Makes a curve, which is not solved yet. -/
def CurveSpec.build {α : Type} [Scalar α] (s : CurveSpec α) : Except (CurveError α) (PiecewiseCurve α) := do
  s.validate
  let scheme := s.scheme.getD s.config.interpolation.scheme
  if scheme.minPoints > BootstrapPlan.firstTrialNodes then
    .error (.invalidConfig (.minPoints scheme.name scheme.minPoints))
  else
    return {
      reference := s.reference
      config := s.config
      scheme := scheme
      solver := s.solver.getD (Brent.finder default)
      helpers := MarketHelper.inOrder s.helpers
      controller := {}
      committed := .anchor s.reference s.config.kind
      extrapolates := s.config.allowExtrapolation
      effect := s.effect }

namespace PiecewiseCurve

variable {α : Type}

def frame (c : PiecewiseCurve α) : Frame := ⟨c.reference, c.config.dayCount, c.config.kind⟩

/-- The committed nodes are those of the present inputs. -/
def isValid (c : PiecewiseCurve α) : Bool := c.controller.isUpToDate

def control (c : PiecewiseCurve α) (f : Controller α → Controller α) : PiecewiseCurve α :=
  { c with controller := f c.controller }

variable [Scalar α]

/-- What a bootstrap starts from, at given values of the quotes. -/
def inputs (c : PiecewiseCurve α) (quotes : QuoteId → Option α) : BootstrapInputs α :=
  ⟨c.frame, c.scheme, c.helpers.map (·.priced quotes)⟩

def solve (c : PiecewiseCurve α) (quotes : QuoteId → Option α) : Except (CurveError α) (CommittedCurve α) :=
  (bootstrap (c.inputs quotes) c.config.bootstrap c.solver).map (.ofOutcome c.reference)

def settle (c : PiecewiseCurve α) : Except (CurveError α) (CommittedCurve α) → PiecewiseCurve α
  | .ok committed => { c.control (·.settle (.ok ())) with committed := committed }
  | .error e => c.control (·.settle (.error e))

/-- Brings the nodes up to date. -/
def ensure (c : PiecewiseCurve α) (quotes : QuoteId → Option α) :
    Except (CurveError α) Unit × PiecewiseCurve α :=
  match c.controller.verdict? with
  | some verdict => (verdict, c)
  | none =>
    let outcome := c.solve quotes
    (outcome.map fun _ => (), c.settle outcome)

/-- Solves the curve even if nothing has changed. -/
def recalculate (c : PiecewiseCurve α) (quotes : QuoteId → Option α) :
    Except (CurveError α) Unit × PiecewiseCurve α :=
  (c.control (·.advance)).ensure quotes

/-- To bring the nodes up to date takes no solve that breaks off. -/
def completes (c : PiecewiseCurve α) (quotes : QuoteId → Option α) : Bool :=
  c.controller.verdict?.isSome || CurveError.completed (c.solve quotes)

/-- What is committed after the nodes were brought up to date, if they could be. -/
def inspect (c : PiecewiseCurve α) (quotes : QuoteId → Option α) : CommittedCurve α × PiecewiseCurve α :=
  let c := (c.ensure quotes).2
  (c.committed, c)

/-- The jump bears on an answer: it multiplies discount factors and survival probabilities, but not the
    hazard rates at the nodes. -/
def adjusts (c : PiecewiseCurve α) : Probe α → Bool
  | .value _ => c.config.kind.isProbabilityLike
  | .discount _ => true

/-- Applies the jump of the curve, if it has one, to an answer. -/
def adjust (c : PiecewiseCurve α) (quotes : QuoteId → Option α) (p : Probe α) (value : α) :
    Except (CurveError α) α × PiecewiseCurve α :=
  match c.effect with
  | some e =>
    if c.adjusts p then
      let (result, e) := e.apply quotes p.time value c.committed.reference c.config.dayCount
      (result, { c with effect := some e })
    else (.ok value, c)
  | none => (.ok value, c)

def answer (c : PiecewiseCurve α) (quotes : QuoteId → Option α) (p : Probe α) :
    Except (CurveError α) α × PiecewiseCurve α :=
  match c.ensure quotes with
  | (.error e, c) => (.error e, c)
  | (.ok _, c) =>
    match c.committed.answer c.extrapolates p with
    | .error e => (.error e, c)
    | .ok value => c.adjust quotes p value

/-- Runs a computation on the curve, which is solved when it is first asked. -/
def read {β : Type} (c : PiecewiseCurve α) (quotes : QuoteId → Option α) (r : Frame → Reading α β) :
    Except (CurveError α) β × PiecewiseCurve α :=
  (r c.frame).runOn (fun c p => c.answer quotes p) c

end PiecewiseCurve

end TermStructure
