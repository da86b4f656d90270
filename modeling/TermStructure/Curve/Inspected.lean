import TermStructure.Curve.NodeCurve
import TermStructure.Text.Inspected

/-!
# Inspecting curves

How a curve over nodes shows itself.
-/

namespace TermStructure

open Text

def NodeCurve.inspected (c : NodeCurve Float) : String :=
  Text.inspected "NodeCurve"
    [("reference_date", inspectedDate c.frame.reference), ("kind", c.frame.kind.identifier),
     ("times", inspectedNumbers c.interpolant.xs), ("values", inspectedNumbers c.interpolant.ys),
     ("allow_extrapolation", inspectedFlag c.extrapolates)] false

end TermStructure
