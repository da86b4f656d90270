import TermStructure.Market.Basic
import TermStructure.Text.Inspected

/-!
# Inspecting a market

How quotes, controllers, jumps and curves show themselves.
-/

namespace TermStructure

open Text

/-- A registry, for inspection: only its living observers count. -/
def Registry.inspected (r : Registry) (alive : Observer → Bool) : String :=
  Text.inspected "Observable" [("observers", Decimal.text (r.count alive))] false

def Quote.inspected (q : Quote Float) : String :=
  Text.inspected "SimpleQuote" [("value", inspectedOption (q.value.map inspectedNumber))] true

def Controller.inspected (c : Controller Float) : String :=
  Text.inspected "LazyController"
    [("version", Decimal.text c.version), ("clean_version", Decimal.text c.cleanVersion),
     ("frozen", inspectedFlag c.frozen), ("solves", Decimal.text c.solves)] true

/-- A jump, for inspection, with the value its quote has. -/
def TurnOfYear.inspected (e : TurnOfYear Float) (quotes : QuoteId → Option Float) : String :=
  Text.inspected "TurnOfYearEffect"
    [("factor", inspectedOption ((quotes e.quote).map inspectedNumber)),
     ("jump_date", inspectedOption (e.given.map inspectedDate))] true

def PiecewiseCurve.inspected (c : PiecewiseCurve Float) : String :=
  Text.inspected "PiecewiseCurve"
    [("reference_date", inspectedDate c.reference), ("kind", c.config.kind.identifier),
     ("interpolation", c.scheme.name), ("helpers", Decimal.text c.helpers.length),
     ("controller", c.controller.inspected)] true

end TermStructure
