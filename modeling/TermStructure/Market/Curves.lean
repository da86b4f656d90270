import TermStructure.Market.Notification

/-!
# Curves in a market

A curve watches the quotes of its helpers through its controller, and the quote of its jump through a
relay, since the jump bears on answers and not on nodes. It watches them from the moment it is built
until it is dropped; a curve that cannot be built leaves no trace.
-/

namespace TermStructure.Market

variable {α : Type}

/-- Has an observer watch the quotes of helpers. -/
def follow (m : Market α) (o : Observer) (helpers : List (MarketHelper α)) : Market α :=
  helpers.foldl (fun m h => m.watch o (.quote h.quote)) m

/-- Has an observer watch the quotes of helpers no longer. -/
def unfollow (m : Market α) (o : Observer) (helpers : List (MarketHelper α)) : Market α :=
  helpers.foldl (fun m h => m.unwatch o (.quote h.quote)) m

/-- Adds a curve at a new place and has it watch its quotes. -/
def addCurve (m : Market α) (c : PiecewiseCurve α) : Market α :=
  let id := ControllerId.curve m.curves.size
  let m := { m with curves := m.curves.add c }
  let m :=
    match c.effect with
    | some e => m.watch (.relay id) (.quote e.quote)
    | none => m
  m.follow (.controller id) c.helpers

def buildCurve [Scalar α] (m : Market α) (s : CurveSpec α) : Except (CurveError α) (Market α) :=
  s.build.map m.addCurve

/-- Drops a curve, which then watches nothing. -/
def dropCurve (m : Market α) (i : Nat) : Market α :=
  match m.curves.get? i with
  | none => m
  | some c =>
    let id := ControllerId.curve i
    let m := m.unfollow (.controller id) c.helpers
    let m :=
      match c.effect with
      | some e => m.unwatch (.relay id) (.quote e.quote)
      | none => m
    { m with curves := m.curves.clear i }

/-- Gives a curve other helpers, which is a change even if they are the same. -/
def replaceHelpers [Scalar α] (m : Market α) (i : Nat) (helpers : List (MarketHelper α)) : Market α :=
  match m.curves.get? i with
  | none => m
  | some c =>
    let id := ControllerId.curve i
    let helpers := MarketHelper.inOrder helpers
    let m := m.unfollow (.controller id) c.helpers
    let m := { m with curves := m.curves.modify i fun c => { c with helpers := helpers } }
    (m.follow (.controller id) helpers).markDirty id

def setReference (m : Market α) (i : Nat) (reference : Date) : Market α :=
  match m.curves.get? i with
  | none => m
  | some c =>
    if c.reference = reference then m
    else
      let m := { m with curves := m.curves.modify i fun c => { c with reference := reference } }
      m.markDirty (.curve i)

/-- Allows or refuses reads beyond the last pillar of a curve. -/
def setExtrapolation (m : Market α) (i : Nat) (allow : Bool) : Market α :=
  { m with curves := m.curves.modify i fun c => { c with extrapolates := allow } }

/-- Runs something on a curve that may solve it on the way, at the present values of the quotes. -/
def onCurve {β : Type} (m : Market α) (i : Nat)
    (f : PiecewiseCurve α → (QuoteId → Option α) → β × PiecewiseCurve α) : Option (β × Market α) :=
  (m.curves.get? i).map fun c =>
    let (b, d) := f c m.values
    (b, { m with curves := m.curves.modify i fun _ => d })

variable [Scalar α]

/-- Brings the nodes of a curve up to date. -/
def ensureCurve (m : Market α) (i : Nat) : Option (Except (CurveError α) Unit × Market α) :=
  m.onCurve i (·.ensure ·)

/-- Solves a curve even if nothing has changed. -/
def recalculateCurve (m : Market α) (i : Nat) : Option (Except (CurveError α) Unit × Market α) :=
  m.onCurve i (·.recalculate ·)

/-- What a curve has committed, after its nodes were brought up to date if they could be. -/
def inspectCurve (m : Market α) (i : Nat) : Option (CommittedCurve α × Market α) :=
  m.onCurve i (·.inspect ·)

def readCurve {β : Type} (m : Market α) (i : Nat) (r : Frame → Reading α β) :
    Option (Except (CurveError α) β × Market α) :=
  m.onCurve i fun c quotes => c.read quotes r

end TermStructure.Market
