import TermStructure.Market.Curves

/-!
# Sessions

In a session the things of a market go by names, each kind of thing having names of its own. A name can
be given anew: what it stood for before is dropped once the new thing is there, but goes on being what
others hold, such as the quote of a helper.
-/

namespace TermStructure

/-- What names stand for, the name given last in front. -/
structure Names (β : Type) where
  entries : List (String × β) := []

namespace Names

variable {β : Type}

def find? (names : Names β) (name : String) : Option β := names.entries.lookup name

def give (names : Names β) (name : String) (b : β) : Names β :=
  ⟨(name, b) :: names.entries.filter (·.1 ≠ name)⟩

def take (names : Names β) (name : String) : Names β := ⟨names.entries.filter (·.1 ≠ name)⟩

end Names

/-- A market with names. -/
structure Session (α : Type) where
  market : Market α := {}
  quotes : Names QuoteId := {}
  observables : Names Nat := {}
  counters : Names Nat := {}
  controllers : Names Nat := {}
  curves : Names Nat := {}
  helpers : Names (MarketHelper α) := {}
  effects : Names (TurnOfYear α) := {}
  snapshots : Names (CommittedCurve α) := {}

namespace Session

variable {α : Type}

def newQuote (s : Session α) (name : String) (value : Option α) : Session α :=
  { s with
    market := { s.market with quotes := s.market.quotes.add { value } }
    quotes := s.quotes.give name s.market.quotes.size }

def newObservable (s : Session α) (name : String) : Session α :=
  { s with
    market := { s.market with observables := s.market.observables.add {} }
    observables := s.observables.give name s.market.observables.size }

def dropCounter (s : Session α) (name : String) : Session α :=
  match s.counters.find? name with
  | some i =>
    { s with
      market := { s.market with counters := s.market.counters.clear i }
      counters := s.counters.take name }
  | none => s

def newCounter (s : Session α) (name : String) : Session α :=
  let t := s.dropCounter name
  { t with
    market := { t.market with counters := t.market.counters.add 0 }
    counters := t.counters.give name t.market.counters.size }

def dropController (s : Session α) (name : String) : Session α :=
  match s.controllers.find? name with
  | some i =>
    { s with
      market := { s.market with controllers := s.market.controllers.clear i }
      controllers := s.controllers.take name }
  | none => s

def newController (s : Session α) (name : String) : Session α :=
  let t := s.dropController name
  { t with
    market := { t.market with controllers := t.market.controllers.add {} }
    controllers := t.controllers.give name t.market.controllers.size }

def newHelper (s : Session α) (name : String) (h : MarketHelper α) : Session α :=
  { s with helpers := s.helpers.give name h }

def newEffect (s : Session α) (name : String) (e : TurnOfYear α) : Session α :=
  { s with effects := s.effects.give name e }

def newSnapshot (s : Session α) (name : String) (c : CommittedCurve α) : Session α :=
  { s with snapshots := s.snapshots.give name c }

def dropCurve (s : Session α) (name : String) : Session α :=
  match s.curves.find? name with
  | some i => { s with market := s.market.dropCurve i, curves := s.curves.take name }
  | none => s

/-- Builds a curve. One of the same name is dropped after that, and stays if the new one cannot be
    built. -/
def newCurve [Scalar α] (s : Session α) (name : String) (spec : CurveSpec α) :
    Except (CurveError α) (Session α) :=
  match s.market.buildCurve spec with
  | .error e => .error e
  | .ok market =>
    let t := { s with market := market }.dropCurve name
    .ok { t with curves := t.curves.give name s.market.curves.size }

/-- The session after a curve was asked for something that may have it solved, given the answer and the market
    then. Of a solve that broke off nothing is known later. -/
def afterSolve {β : Type} (s : Session α) (curve : Nat) (answer : Except (CurveError α) β) (m : Market α) :
    Session α :=
  if CurveError.completed answer then { s with market := m }
  else { s with market := m.control (.curve curve) fun c => { c with failure := none } }

/-- What a name stands for as an observer: a counter, or else a controller. -/
def observer? (s : Session α) (name : String) : Option Observer :=
  match s.counters.find? name with
  | some i => some (.counter i)
  | none => (s.controllers.find? name).map fun i => .controller (.own i)

end Session

end TermStructure
