import TermStructure.Instrument.Basic

/-!
# Zero rates

A continuously compounded rate to one date; on a credit curve, an average hazard rate.
-/

namespace TermStructure

/-- The zero rate to a date. -/
structure ZeroRate where
  pillar : Date
deriving Repr

def ZeroRate.instrument {α : Type} [Scalar α] (z : ZeroRate) : Instrument α where
  pillar := z.pillar
  latest := z.pillar
  description := "Zero rate to " ++ z.pillar.text
  implied f := Reading.zeroRate (f.time z.pillar)

end TermStructure
