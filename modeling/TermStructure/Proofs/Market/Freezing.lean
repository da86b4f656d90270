import TermStructure.Proofs.Market.Attempts

/-!
# Freezing

While a curve is frozen it only notes that a quote of its helpers has changed. What it noted is not lost,
whatever is done before it thaws: then it counts as one change and is told to those that observe the curve.
-/

namespace TermStructure

open Market

namespace Controller

variable {α : Type} {c d : Controller α}

end Controller

namespace PiecewiseCurve

variable {α : Type} {c d : PiecewiseCurve α}

variable [Scalar α] {i : Nat} {quotes : QuoteId → Option α} {op : Operation α}

end PiecewiseCurve

namespace Market

section
variable {α : Type} {m m' : Market α} {s : Subject} {o : Observer} {x : ControllerId} {id : QuoteId}

/-! ### Those that are told -/

theorem alive_congr (hc : m'.counters = m.counters) (hx : ∀ x, (m'.controller? x).isSome = (m.controller? x).isSome) :
    m'.alive = m.alive := by
  funext o
  cases o <;> simp only [alive, hc, hx]

theorem audience_congr (ha : m'.alive = m.alive) (he : m'.enrolment s = m.enrolment s) :
    m'.audience s = m.audience s := by
  rw [audience_eq, audience_eq, ha, he]

theorem alive_control (m : Market α) (x : ControllerId) (f : Controller α → Controller α) :
    (m.control x f).alive = m.alive := by
  refine alive_congr (by cases x <;> rfl) fun y => ?_
  rw [controller?_control]
  split <;> simp

theorem alive_enrol_quote (m : Market α) (id : QuoteId) (f : Registry → Registry) :
    (m.enrol (.quote id) f).alive = m.alive :=
  alive_congr rfl fun x => by cases x <;> rfl

theorem Enrols.alive (h : Enrols m m') : m'.alive = m.alive := by
  induction h with
  | refl => rfl
  | enrol id f _ ih => rw [alive_enrol_quote, ih]

theorem audience_control (m : Market α) (x : ControllerId) {f : Controller α → Controller α}
    (hf : ∀ c, (f c).observers = c.observers) (s : Subject) : (m.control x f).audience s = m.audience s := by
  refine audience_congr (alive_control m x f) ?_
  rw [enrolment, registry_control m x hf, enrolment]

end

variable {α : Type} [Scalar α] {m n : Market α} {i : Nat} {c d : PiecewiseCurve α}

end Market

end TermStructure
