import TermStructure.Curve.Reading
import TermStructure.Interpolation.Scheme

/-!
# Curves over nodes

A curve through given nodes, as it is tried, checked and committed by the bootstrap.
-/

namespace TermStructure

/-- A curve over nodes. -/
structure NodeCurve (α : Type) where
  frame : Frame
  interpolant : Interpolant α
  /-- Reads beyond the nodes are answered. -/
  extrapolates : Bool := false

namespace NodeCurve

variable {α : Type}

/-- The curve with another policy for reads beyond the nodes. -/
def extrapolating (c : NodeCurve α) (allow : Bool) : NodeCurve α := { c with extrapolates := allow }

variable [Scalar α]

/-- The value between the nodes under a policy of the query's own. -/
def valueWith (c : NodeCurve α) (t : α) (extrapolates : Bool) : Except (CurveError α) α :=
  (c.interpolant.evaluate t extrapolates).mapError .ofNumeric

/-- The discount factor or survival probability under a policy of the query's own; hazard rates are
    integrated. -/
def discountWith (c : NodeCurve α) (t : α) (extrapolates : Bool) : Except (CurveError α) α :=
  match c.frame.kind with
  | .discount | .survivalProbability => c.valueWith t extrapolates
  | .hazardRate =>
    match c.interpolant.integrate 0 t extrapolates with
    | .ok cumulative => .ok (Scalar.exp (-cumulative))
    | .error e => .error (.ofNumeric e)

/-- The answer of the curve under a policy of the query's own. -/
def answerWith (c : NodeCurve α) (extrapolates : Bool) : Probe α → Except (CurveError α) α
  | .value t => c.valueWith t extrapolates
  | .discount t => c.discountWith t extrapolates

def answer (c : NodeCurve α) : Probe α → Except (CurveError α) α := c.answerWith c.extrapolates

def read {β : Type} (c : NodeCurve α) (r : Reading α β) : Except (CurveError α) β := r.run c.answer

end NodeCurve

end TermStructure
