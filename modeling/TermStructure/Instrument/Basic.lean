import TermStructure.Calendar.Text
import TermStructure.Curve.Reading

/-!
# Instruments

A calibrating instrument implies a quote on a curve and asks that the curve be moved until that is
the quote seen in the market. A helper is an instrument with the market quote it is to be calibrated
to, if the quote has a value.
-/

namespace TermStructure

/-- A calibrating instrument. -/
structure Instrument (α : Type) where
  /-- The date whose time becomes the pillar of the instrument. -/
  pillar : Date
  /-- The latest date at which the instrument reads the curve, as far as it says. -/
  latest : Date
  description : String
  implied : Frame → Reading α α

/-- An instrument with its market quote. -/
structure Helper (α : Type) where
  instrument : Instrument α
  quote : Option α

namespace Helper

variable {α : Type}

def marketQuote (h : Helper α) : Except (CurveError α) α :=
  match h.quote with
  | some q => .ok q
  | none => .error (.invalidQuote (.missing h.instrument.description))

/-- The implied quote less the market quote. -/
def quoteError [Sub α] (h : Helper α) (f : Frame) : Reading α α := do
  let implied ← h.instrument.implied f
  let market ← Reading.done h.marketQuote
  return implied - market

end Helper

end TermStructure
