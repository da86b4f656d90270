import TermStructure.Market.PiecewiseCurve
import TermStructure.Market.Quote
import TermStructure.Market.Slots

/-!
# Markets

Quotes, the curves that follow them, and the observers of both. Things refer to one another by number,
so that a helper keeps its quote and a registry its observers, whatever is made or dropped later.
-/

namespace TermStructure

/-- Quotes and curves with their observers. -/
structure Market (α : Type) where
  quotes : Slots (Quote α) := {}
  /-- Things that have observers and nothing else. -/
  observables : Slots Registry := {}
  /-- Observers that count how often they are told. -/
  counters : Slots Nat := {}
  controllers : Slots (Controller α) := {}
  curves : Slots (PiecewiseCurve α) := {}

/-- Something that can be watched. -/
inductive Subject where
  | quote (id : QuoteId)
  | observable (index : Nat)
  | controller (id : ControllerId)
deriving DecidableEq, Repr

namespace Market

variable {α : Type}

def values (m : Market α) : QuoteId → Option α := fun id => (m.quotes.get? id).bind (·.value)

def controller? (m : Market α) : ControllerId → Option (Controller α)
  | .own i => m.controllers.get? i
  | .curve i => (m.curves.get? i).map (·.controller)

/-- An observer is alive for as long as what it stands for is there. -/
def alive (m : Market α) : Observer → Bool
  | .counter i => m.counters.has i
  | .controller id | .relay id => (m.controller? id).isSome

def control (m : Market α) (id : ControllerId) (f : Controller α → Controller α) : Market α :=
  match id with
  | .own i => { m with controllers := m.controllers.modify i f }
  | .curve i => { m with curves := m.curves.modify i (·.control f) }

def registry? (m : Market α) : Subject → Option Registry
  | .quote i => (m.quotes.get? i).map (·.observers)
  | .observable i => m.observables.get? i
  | .controller id => (m.controller? id).map (·.observers)

def enrol (m : Market α) (s : Subject) (f : Registry → Registry) : Market α :=
  match s with
  | .quote i => { m with quotes := m.quotes.modify i fun q => { q with observers := f q.observers } }
  | .observable i => { m with observables := m.observables.modify i f }
  | .controller id => m.control id fun c => { c with observers := f c.observers }

/-- The observers of a subject that are alive. -/
def audience (m : Market α) (s : Subject) : List Observer :=
  match m.registry? s with
  | some r => r.live m.alive
  | none => []

def watch (m : Market α) (o : Observer) (s : Subject) : Market α := m.enrol s (·.register o)

def unwatch (m : Market α) (o : Observer) (s : Subject) : Market α := m.enrol s (·.unregister o)

end Market

end TermStructure
