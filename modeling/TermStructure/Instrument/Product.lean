import TermStructure.Instrument.Deposit
import TermStructure.Instrument.Swap
import TermStructure.Instrument.ZeroRate

/-!
# Products

The instruments of the library, and any other that a curve may be calibrated to.
-/

namespace TermStructure

/-- A product that a curve can be calibrated to. -/
inductive Product (α : Type) where
  | zeroRate (z : ZeroRate)
  | deposit (d : Deposit)
  | swap (s : Swap)
  | other (i : Instrument α)

namespace Product

variable {α : Type}

def instrument [Scalar α] : Product α → Instrument α
  | zeroRate z => z.instrument
  | deposit d => d.instrument
  | swap s => s.instrument
  | other i => i

def swap? : Product α → Option Swap
  | swap s => some s
  | _ => none

end Product

end TermStructure
