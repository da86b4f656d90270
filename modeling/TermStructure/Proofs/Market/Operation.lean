import TermStructure.Proofs.Calendar.Order
import TermStructure.Market.Curves

/-!
# Operations of a market

Whatever is done to a market is one of the operations below. Operations lead from one market to another
in any number and order, and a market is reachable if they lead to it from the empty one.
-/

namespace TermStructure

/-- An observer that anyone may register. Those of a curve are registered by the curve alone. -/
inductive Watcher where
  | counter (index : Nat)
  | controller (index : Nat)
deriving DecidableEq, Repr

/-- A watcher as an observer. -/
def Watcher.observer : Watcher → Observer
  | counter i => .counter i
  | controller i => .controller (.own i)

namespace Market

/-- An operation of a market. -/
inductive Operation (α : Type) where
  | newQuote (value : Option α)
  | newObservable
  | newCounter
  | newController
  | dropCounter (index : Nat)
  | dropController (index : Nat)
  /-- Gives a quote a value or takes it away. -/
  | setQuote (id : QuoteId) (value : Option α)
  | watch (w : Watcher) (s : Subject)
  | unwatch (w : Watcher) (s : Subject)
  /-- Has the observers of an observable told. -/
  | notifyObservable (index : Nat)
  /-- Has the observers of a controller of its own told. -/
  | notifyController (index : Nat)
  /-- Tells a controller of its own that an input has changed. -/
  | update (index : Nat)
  | markDirty (index : Nat)
  | ensureOwn (index : Nat) (outcome : Except (CurveError α) Unit)
  | recalculateOwn (index : Nat) (outcome : Except (CurveError α) Unit)
  | freeze (id : ControllerId)
  | unfreeze (id : ControllerId)
  | build (spec : CurveSpec α)
  | drop (curve : Nat)
  | setReference (curve : Nat) (reference : Date)
  | replaceHelpers (curve : Nat) (helpers : List (MarketHelper α))
  | setExtrapolation (curve : Nat) (allow : Bool)
  | ensure (curve : Nat)
  | recalculate (curve : Nat)
  | inspect (curve : Nat)
  | query (curve : Nat) (r : Frame → Reading α α)

variable {α : Type}

/-- The quotes that helpers and jumps given to an operation refer to. -/
def Operation.cited : Operation α → List QuoteId
  | build spec => spec.helpers.map (·.quote) ++ (spec.effect.map (·.quote)).toList
  | replaceHelpers _ helpers => helpers.map (·.quote)
  | _ => []

/-- The quotes that are referred to are there. -/
def Operation.Admissible (m : Market α) (op : Operation α) : Prop := ∀ id ∈ op.cited, m.quotes.has id = true

instance (m : Market α) (op : Operation α) : Decidable (op.Admissible m) := inferInstanceAs (Decidable (∀ _ ∈ _, _))

theorem Operation.Admissible.of_cited {m : Market α} {op : Operation α} (h : op.cited = []) : op.Admissible m := by
  intro id hid
  rw [h] at hid
  cases hid

/-- The operation drops the curve at a place or gives it other helpers. -/
def Operation.Unseats (i : Nat) : Operation α → Prop
  | drop j | replaceHelpers j _ => j = i
  | _ => False

variable [Scalar α]

/-- The market after an operation. An operation on something that is not there changes nothing. -/
def act (m : Market α) : Operation α → Market α
  | .newQuote value => { m with quotes := m.quotes.add { value } }
  | .newObservable => { m with observables := m.observables.add {} }
  | .newCounter => { m with counters := m.counters.add 0 }
  | .newController => { m with controllers := m.controllers.add {} }
  | .dropCounter i => { m with counters := m.counters.clear i }
  | .dropController i => { m with controllers := m.controllers.clear i }
  | .setQuote id value => (m.setQuote id value).2
  | .watch w s => m.watch w.observer s
  | .unwatch w s => m.unwatch w.observer s
  | .notifyObservable i => m.notify (.observable i)
  | .notifyController i => m.notify (.controller (.own i))
  | .update i => m.tell [.controller (.own i)]
  | .markDirty i => m.markDirty (.own i)
  | .ensureOwn i outcome => ((m.ensureOwn i outcome).map (·.2)).getD m
  | .recalculateOwn i outcome => ((m.recalculateOwn i outcome).map (·.2)).getD m
  | .freeze id => m.freeze id
  | .unfreeze id => m.unfreeze id
  | .build spec => (m.buildCurve spec).toOption.getD m
  | .drop i => m.dropCurve i
  | .setReference i reference => m.setReference i reference
  | .replaceHelpers i helpers => m.replaceHelpers i helpers
  | .setExtrapolation i allow => m.setExtrapolation i allow
  | .ensure i => ((m.ensureCurve i).map (·.2)).getD m
  | .recalculate i => ((m.recalculateCurve i).map (·.2)).getD m
  | .inspect i => ((m.inspectCurve i).map (·.2)).getD m
  | .query i r => ((m.readCurve i r).map (·.2)).getD m

/-- Every solve that an operation starts comes to its end. -/
def completes (m : Market α) : Operation α → Bool
  | .ensure i | .inspect i => (m.curves.get? i).all (·.completes m.values)
  | .recalculate i => (m.curves.get? i).all fun c => (c.control (·.advance)).completes m.values
  | .query i r => (m.curves.get? i).all fun c => !(r c.frame).asks || c.completes m.values
  | .ensureOwn _ outcome | .recalculateOwn _ outcome => CurveError.completed outcome
  | _ => true

/-- Operations lead from a market to another. One that breaks off leads nowhere. -/
inductive Leads (m : Market α) : Market α → Prop where
  | refl : Leads m m
  | step {n : Market α} (op : Operation α) :
      Leads m n → op.Admissible n → n.completes op = true → Leads m (n.act op)

/-- Operations lead to the market from the empty one. -/
def Reachable (m : Market α) : Prop := Leads {} m

/-- The market after operations in order. -/
def acts (m : Market α) (ops : List (Operation α)) : Market α := ops.foldl act m

/-- Each operation refers to quotes that are there when its turn comes, and does not break off. -/
def admits (m : Market α) : List (Operation α) → Bool
  | [] => true
  | op :: ops => decide (op.Admissible m) && m.completes op && (m.act op).admits ops

theorem Leads.acts {m n : Market α} {ops : List (Operation α)} (h : Leads m n) (ha : n.admits ops = true) :
    Leads m (n.acts ops) := by
  induction ops generalizing n with
  | nil => exact h
  | cons op ops ih =>
    obtain ⟨hop, ha⟩ := (Bool.and_eq_true _ _).mp ha
    obtain ⟨ho, hends⟩ := (Bool.and_eq_true _ _).mp hop
    exact ih (h.step op (of_decide_eq_true ho) hends) ha

/-! ### A market of one curve -/

/-- A hazard rate quoted for one date. -/
def spotHazard (date : Date) : MarketHelper ℚ :=
  ⟨.other ⟨date, date, "Hazard rate", fun f => Reading.value (f.time date)⟩, 0⟩

/-- Makes a curve of one hazard rate, solves it and reads it. -/
def spotOperations : List (Operation ℚ) :=
  [.newQuote (some (1 / 100)),
   .build { reference := .newYear 2025, helpers := [spotHazard (.newYear 2026)],
            config := { (default : CurveConfig ℚ) with kind := .hazardRate, interpolation := .backwardFlat } },
   .ensure 0,
   .query 0 fun _ => Reading.value (1 / 2)]

end Market

end TermStructure
