import TermStructure.Market.Basic

/-!
# Notifications

A change is told to the observers of what changed, and each of them that passes it on has its own
observers told before the next one is. Who is told does not depend on what those told before do with
the news, so the whole chain is known before anything changes: it is a list of observers, in the order
in which they are told.
-/

namespace TermStructure.Market

variable {α : Type}

/-- The observers that an observer tells when it is told. A frozen controller keeps the news to
    itself, but a relay passes by it. -/
def successors (m : Market α) : Observer → List Observer
  | .counter _ => []
  | .controller id =>
    match m.controller? id with
    | some c => if c.frozen then [] else m.audience (.controller id)
    | none => []
  | .relay id => m.audience (.controller id)

/-- No chain of different observers is longer. -/
def depth (m : Market α) : Nat := m.controllers.size + 2 * m.curves.size + 1

/-- The observers that are told when an observer is, itself first, through so many steps. -/
def chain (m : Market α) : (steps : Nat) → Observer → List Observer
  | 0, _ => []
  | steps + 1, o => o :: (m.successors o).flatMap (m.chain steps)

/-- What one observer does when it is told. -/
def deliver (m : Market α) : Observer → Market α
  | .counter i => { m with counters := m.counters.modify i (· + 1) }
  | .controller id =>
    match m.controller? id with
    | some c =>
      let m := m.control id (·.hear)
      if c.frozen then m else m.enrol (.controller id) (·.prune m.alive)
    | none => m
  | .relay id => m.enrol (.controller id) (·.prune m.alive)

/-- Tells observers, and all that are told by them. -/
def tell (m : Market α) (os : List Observer) : Market α := (os.flatMap (m.chain m.depth)).foldl deliver m

def notify (m : Market α) (s : Subject) : Market α :=
  (m.enrol s (·.prune m.alive)).tell (m.audience s)

/-- Marks the inputs of a controller as changed, be it frozen or not, and tells its observers. -/
def markDirty (m : Market α) (id : ControllerId) : Market α :=
  (m.control id (·.advance)).notify (.controller id)

def freeze (m : Market α) (id : ControllerId) : Market α := m.control id (·.freeze)

/-- Lets changes count again, and those that were put off count as one. -/
def unfreeze (m : Market α) (id : ControllerId) : Market α :=
  let due := ((m.controller? id).map (·.isDue)).getD false
  let m := m.control id (·.thaw)
  if due then m.markDirty id else m

/-- Gives a quote another value, or none, and tells its observers if that is a change. The value it had
    is returned. -/
def setQuote [Scalar α] (m : Market α) (id : QuoteId) (value : Option α) : Option α × Market α :=
  match m.quotes.get? id with
  | none => (none, m)
  | some q =>
    let set := { m with quotes := m.quotes.modify id fun q => { q with value := value } }
    (q.value, if q.changes value then set.notify (.quote id) else set)

/-- Asks a controller of its own for a solve that would end as `outcome`. Whether it took place is
    returned too. -/
def ensureOwn (m : Market α) (i : Nat) (outcome : Except (CurveError α) Unit) :
    Option ((Except (CurveError α) Unit × Bool) × Market α) :=
  (m.controllers.get? i).map fun c =>
    let (result, d) := c.ensure outcome
    ((result, d.solves > c.solves), m.control (.own i) fun _ => d)

/-- Asks a controller of its own for a solve even if nothing has changed. -/
def recalculateOwn (m : Market α) (i : Nat) (outcome : Except (CurveError α) Unit) :
    Option ((Except (CurveError α) Unit × Bool) × Market α) :=
  (m.control (.own i) (·.advance)).ensureOwn i outcome

end TermStructure.Market
