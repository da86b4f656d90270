import TermStructure.Proofs.Market.Registration
import TermStructure.Proofs.Market.Versions

/-!
# The steps of a controller

Every operation of a market takes each controller in it, be it one of its own or one of a curve, through
some of a few steps, and makes new controllers at new places alone. So what holds of a new controller, and
is kept by each step, holds of every controller of every market.
-/

namespace TermStructure
open Relation

namespace Controller

variable {α : Type} {c d e : Controller α} {n : Nat}

/-- A controller takes a step. -/
inductive Step (c : Controller α) : Controller α → Prop where
  | observe (observers : Registry) : Step c { c with observers }
  | hear : Step c c.hear
  | advance : Step c c.advance
  | freeze : Step c c.freeze
  | release : Step c c.release
  | ensure (outcome : Except (CurveError α) Unit) : Step c (c.ensure outcome).2

/-- A controller takes any number of steps. -/
def Steps : Controller α → Controller α → Prop := ReflTransGen Step

theorem Steps.refl (c : Controller α) : c.Steps c := ReflTransGen.refl

theorem Step.steps (h : c.Step d) : c.Steps d := ReflTransGen.single h

theorem Steps.trans (h : c.Steps d) (h' : d.Steps e) : c.Steps e := ReflTransGen.trans h h'

theorem steps_hear (c : Controller α) (n : Nat) : c.Steps (Controller.hear^[n] c) := by
  induction n with
  | zero => exact .refl c
  | succ n ih =>
    rw [Function.iterate_succ_apply']
    exact ih.trans Step.hear.steps

theorem Heard.steps (h : c.Heard n d) : c.Steps d := by
  rw [h]
  exact (steps_hear c n).trans (Step.observe _).steps

end Controller

namespace PiecewiseCurve

variable {α : Type} [Scalar α] {c d : PiecewiseCurve α} {quotes : QuoteId → Option α}

theorem ensure_controller (c : PiecewiseCurve α) :
    (c.ensure quotes).2.controller = (c.controller.ensure ((c.solve quotes).map fun _ => ())).2 := by
  unfold PiecewiseCurve.ensure Controller.ensure
  cases c.controller.verdict? with
  | some r => rfl
  | none => cases c.solve quotes <;> rfl

theorem Move.steps (h : c.Move quotes d) : c.controller.Steps d.controller := by
  cases h with
  | hear h =>
    obtain ⟨k, hk, rfl⟩ := h
    exact hk.steps
  | advance | refer => exact Controller.Step.advance.steps
  | freeze => exact Controller.Step.freeze.steps
  | release => exact Controller.Step.release.steps
  | extrapolate | effect => exact .refl _
  | ensure =>
    rw [ensure_controller]
    exact (Controller.Step.ensure _).steps

theorem Moves.steps (h : c.Moves quotes d) : c.controller.Steps d.controller := by
  induction h with
  | refl => exact .refl _
  | tail _ h ih => exact ih.trans h.steps

end PiecewiseCurve

namespace Market

section
variable {α : Type} {m m' m'' : Market α} {i : Nat} {x : ControllerId} {c d : Controller α}

/-- No controller is made, and those that are there later have taken steps since. -/
structure Fares (m m' : Market α) : Prop where
  size : m'.controllers.size = m.controllers.size
  steps : ∀ x d, m'.controller? x = some d → ∃ c : Controller α, m.controller? x = some c ∧ c.Steps d

theorem Fares.of_eq (hs : m'.controllers.size = m.controllers.size) (h : ∀ x, m'.controller? x = m.controller? x) :
    Fares m m' :=
  ⟨hs, fun x d hd => ⟨d, h x ▸ hd, .refl d⟩⟩

theorem Fares.refl (m : Market α) : Fares m m := .of_eq rfl fun _ => rfl

theorem Fares.trans (h : Fares m m') (h' : Fares m' m'') : Fares m m'' := by
  refine ⟨h'.size.trans h.size, fun x e he => ?_⟩
  obtain ⟨d, hd, hde⟩ := h'.steps x e he
  obtain ⟨c, hc, hcd⟩ := h.steps x d hd
  exact ⟨c, hc, hcd.trans hde⟩

theorem fares_control (m : Market α) (x : ControllerId) {f : Controller α → Controller α}
    (hf : ∀ c : Controller α, c.Steps (f c)) : Fares m (m.control x f) := by
  refine ⟨by cases x <;> simp [control], fun y d hd => ?_⟩
  rw [controller?_control] at hd
  split at hd
  · obtain ⟨c, hc, rfl⟩ := Option.map_eq_some_iff.mp hd
    exact ⟨c, hc, hf c⟩
  · exact ⟨d, hd, .refl d⟩

theorem fares_enrol (m : Market α) (s : Subject) (f : Registry → Registry) : Fares m (m.enrol s f) := by
  cases s with
  | quote j => exact .of_eq rfl fun x => by cases x <;> rfl
  | observable j => exact .of_eq rfl fun x => by cases x <;> rfl
  | controller x => exact fares_control m x fun c => (Controller.Step.observe _).steps

theorem Spreads.fares (h : Spreads m m') : Fares m m' := by
  induction h with
  | refl => exact .refl m
  | count j _ ih => exact ih.trans (.of_eq rfl fun x => by cases x <;> rfl)
  | hear x _ ih => exact ih.trans (fares_control _ x fun _ => Controller.Step.hear.steps)
  | prune x _ ih => exact ih.trans (fares_enrol _ _ _)

theorem fares_notify (m : Market α) (s : Subject) : Fares m (m.notify s) :=
  (fares_enrol m s _).trans (spreads_tell _ _).fares

theorem fares_markDirty (m : Market α) (x : ControllerId) : Fares m (m.markDirty x) :=
  (fares_control m x fun _ => Controller.Step.advance.steps).trans (fares_notify _ _)

theorem fares_unfreeze (m : Market α) (x : ControllerId) : Fares m (m.unfreeze x) := by
  have hr : Fares m (m.control x (·.release)) := fares_control m x fun _ => Controller.Step.release.steps
  rcases unfreeze_eq m x with h | h <;> rw [h]
  · exact hr
  · exact hr.trans (fares_notify _ _)

theorem fares_modify {f : PiecewiseCurve α → PiecewiseCurve α}
    (hf : ∀ c, m.curves.get? i = some c → c.controller.Steps (f c).controller) :
    Fares m { m with curves := m.curves.modify i f } := by
  refine ⟨rfl, fun x d hd => ?_⟩
  cases x with
  | own j => exact ⟨d, hd, .refl d⟩
  | curve j =>
    simp only [controller?, Slots.get?_modify] at hd ⊢
    split at hd
    · rename_i hij
      subst hij
      rw [Option.map_map, Option.map_eq_some_iff] at hd
      obtain ⟨c, hc, rfl⟩ := hd
      exact ⟨c.controller, Option.map_eq_some_iff.mpr ⟨c, hc, rfl⟩, hf c hc⟩
    · exact ⟨d, hd, .refl d⟩

theorem fares_onCurve {β : Type} {f : PiecewiseCurve α → (QuoteId → Option α) → β × PiecewiseCurve α}
    (hf : ∀ c : PiecewiseCurve α, c.controller.Steps (f c m.values).2.controller) :
    Fares m (((m.onCurve i f).map (·.2)).getD m) := by
  unfold onCurve
  cases hi : m.curves.get? i with
  | none => exact .refl m
  | some c =>
    refine fares_modify fun d hd => ?_
    rw [hi] at hd
    cases hd
    exact hf c

theorem Enrols.fares (h : Enrols m m') : Fares m m' := by
  induction h with
  | refl => exact .refl m
  | enrol id f _ ih => exact ih.trans (fares_enrol _ _ _)

theorem fares_clear (m : Market α) (i : Nat) : Fares m { m with curves := m.curves.clear i } := by
  refine ⟨rfl, fun x d hd => ?_⟩
  cases x with
  | own j => exact ⟨d, hd, .refl d⟩
  | curve j =>
    simp only [controller?, Slots.get?_clear] at hd
    split at hd
    · cases hd
    · exact ⟨d, hd, .refl d⟩

theorem fares_dropCurve (m : Market α) (i : Nat) : Fares m (m.dropCurve i) := by
  cases hc : m.curves.get? i with
  | none =>
    simp only [dropCurve, hc]
    exact .refl m
  | some c =>
    obtain ⟨m', hm, h⟩ := dropCurve_eq hc
    rw [h]
    exact hm.fares.trans (fares_clear m' i)

theorem fares_setReference (m : Market α) (i : Nat) (reference : Date) : Fares m (m.setReference i reference) := by
  unfold setReference
  cases m.curves.get? i with
  | none => exact .refl m
  | some c =>
    dsimp only
    split
    · exact .refl m
    · exact (fares_modify (f := fun c => { c with reference }) fun _ _ => .refl _).trans (fares_markDirty _ _)

/-- The place has not been taken. -/
def Vacant (m : Market α) : ControllerId → Prop
  | .own j => m.controllers.size ≤ j
  | .curve j => m.curves.size ≤ j

theorem not_vacant (hx : m.controller? x = some c) : ¬m.Vacant x := by
  intro h
  cases x with
  | own j =>
    rw [controller?, Slots.get?_of_size_le h] at hx
    cases hx
  | curve j =>
    rw [controller?, Slots.get?_of_size_le h] at hx
    cases hx

theorem controller?_addPlace {c : PiecewiseCurve α}
    (hd : ({ m with curves := m.curves.add c } : Market α).controller? x = some d) :
    m.controller? x = some d ∨ (m.Vacant x ∧ d = c.controller) := by
  cases x with
  | own j => exact .inl hd
  | curve j =>
    simp only [controller?, Slots.get?_add] at hd ⊢
    split at hd
    · rename_i hj
      exact .inr ⟨hj.ge, (Option.some.inj hd).symm⟩
    · exact .inl hd

end

variable {α : Type} [Scalar α] {m n : Market α} {x : ControllerId} {c d : Controller α}

theorem fares_setQuote (m : Market α) (id : QuoteId) (value : Option α) : Fares m (m.setQuote id value).2 := by
  have ha : Fares m (m.assign id value) := .of_eq rfl fun x => by cases x <;> rfl
  cases hq : m.quotes.get? id with
  | none =>
    rw [setQuote_of_none hq]
    exact .refl m
  | some q =>
    rw [setQuote_of_some hq]
    split
    · exact ha.trans (fares_notify _ _)
    · exact ha

theorem fares_replaceHelpers (m : Market α) (i : Nat) (helpers : List (MarketHelper α)) :
    Fares m (m.replaceHelpers i helpers) := by
  cases hc : m.curves.get? i with
  | none =>
    simp only [replaceHelpers, hc]
    exact .refl m
  | some c =>
    rw [replaceHelpers_eq hc]
    refine Fares.trans ?_ (fares_markDirty _ _)
    have hu : Fares m (m.unfollow (.controller (.curve i)) c.helpers) := (Enrols.refl.unfollow _ _).fares
    have hh : Fares (m.unfollow (.controller (.curve i)) c.helpers) _ :=
      fares_modify (i := i) (f := fun c => { c with helpers := MarketHelper.inOrder helpers }) fun _ _ => .refl _
    exact (hu.trans hh).trans (Enrols.refl.follow _ _).fares

/-- The operation makes a controller. -/
def Operation.creates : Operation α → Bool
  | .newController | .build _ => true
  | _ => false

theorem fares_act {op : Operation α} (h : op.creates = false) : Fares m (m.act op) := by
  cases op with
  | newController | build => cases h
  | newQuote | newObservable | newCounter | dropCounter => exact .of_eq rfl fun x => by cases x <;> rfl
  | dropController j =>
    refine ⟨Slots.size_clear _ _, fun x d hd => ?_⟩
    cases x with
    | own k =>
      simp only [act, controller?, Slots.get?_clear] at hd
      split at hd
      · cases hd
      · exact ⟨d, hd, .refl d⟩
    | curve k => exact ⟨d, hd, .refl d⟩
  | setQuote id value => exact fares_setQuote m id value
  | watch w s => exact fares_enrol m s (·.register w.observer)
  | unwatch w s => exact fares_enrol m s (·.unregister w.observer)
  | notifyObservable j => exact fares_notify m _
  | notifyController j => exact fares_notify m _
  | update j => exact (spreads_tell m _).fares
  | markDirty j => exact fares_markDirty m _
  | ensureOwn j outcome =>
    rw [act, ensureOwn_eq]
    exact fares_control m _ fun c => (Controller.Step.ensure outcome).steps
  | recalculateOwn j outcome =>
    rw [act, recalculateOwn_eq]
    exact fares_control m _ fun c => Controller.Step.advance.steps.trans (Controller.Step.ensure outcome).steps
  | freeze x => exact fares_control m x fun _ => Controller.Step.freeze.steps
  | unfreeze x => exact fares_unfreeze m x
  | drop j => exact fares_dropCurve m j
  | setReference j reference => exact fares_setReference m j reference
  | replaceHelpers j helpers => exact fares_replaceHelpers m j helpers
  | setExtrapolation j allow => exact fares_modify fun _ _ => .refl _
  | ensure j => exact fares_onCurve fun c => (PiecewiseCurve.moves_ensure c).steps
  | recalculate j => exact fares_onCurve fun c => (PiecewiseCurve.moves_recalculate c).steps
  | inspect j => exact fares_onCurve fun c => (PiecewiseCurve.moves_inspect c).steps
  | query j r => exact fares_onCurve fun c => (PiecewiseCurve.moves_read c r).steps

/-- A controller that is there after an operation was there before, or is a new one at a new place. -/
theorem controller?_act {op : Operation α} (hd : (m.act op).controller? x = some d) :
    (∃ c : Controller α, m.controller? x = some c ∧ c.Steps d) ∨ (m.Vacant x ∧ Controller.Steps {} d) := by
  by_cases hop : op.creates = false
  · exact .inl ((fares_act hop).steps x d hd)
  cases op with
  | newController =>
    cases x with
    | own j =>
      simp only [act, controller?, Slots.get?_add] at hd ⊢
      split at hd
      · rename_i hj
        cases hd
        exact .inr ⟨hj.ge, .refl _⟩
      · exact .inl ⟨d, hd, .refl d⟩
    | curve j => exact .inl ⟨d, hd, .refl d⟩
  | build spec =>
    simp only [act, buildCurve] at hd
    cases hb : spec.build with
    | error e =>
      rw [hb] at hd
      exact .inl ⟨d, hd, .refl d⟩
    | ok b =>
      rw [hb] at hd
      obtain ⟨c, hc, hcd⟩ := (enrols_addCurve m b).fares.steps x d hd
      rcases controller?_addPlace hc with hc | ⟨hx, rfl⟩
      · exact .inl ⟨c, hc, hcd⟩
      · rw [build_eq hb] at hcd
        exact .inr ⟨hx, hcd⟩
  | _ => exact absurd rfl hop

/-- What holds of a new controller and is kept by every step holds of every controller. -/
theorem Reachable.controller {P : Controller α → Prop} (hnew : P {}) (hstep : ∀ c d, P c → c.Step d → P d)
    (hm : Reachable m) (hx : m.controller? x = some d) : P d := by
  have hsteps {c d : Controller α} (hc : P c) (h : c.Steps d) : P d := by
    induction h with
    | refl => exact hc
    | tail _ h ih => exact hstep _ _ ih h
  induction hm generalizing d with
  | refl => cases x <;> simp [controller?, Slots.get?] at hx
  | step op _ _ _ ih =>
    -- The controller has taken steps since it was as it was before the operation, or since it was new.
    rcases controller?_act hx with ⟨c, hc, h⟩ | ⟨-, h⟩
    · exact hsteps (ih hc) h
    · exact hsteps hnew h

theorem own_size_act (m : Market α) (op : Operation α) : m.controllers.size ≤ (m.act op).controllers.size := by
  by_cases hop : op.creates = false
  · exact (fares_act hop).size.ge
  cases op with
  | newController => exact (Slots.size_add _ _).ge.trans' (Nat.le_succ _)
  | build spec =>
    simp only [act, buildCurve]
    cases spec.build with
    | error e => exact Nat.le_refl _
    | ok c => exact (enrols_addCurve m c).fares.size.ge
  | _ => exact absurd rfl hop

/-- A place that was taken once is not vacant any more. -/
theorem Leads.not_vacant (h : Leads m n) (hx : m.controller? x = some c) : ¬n.Vacant x := by
  induction h with
  | refl => exact Market.not_vacant hx
  | @step k op _ _ _ ih =>
    refine fun hv => ih ?_
    cases x with
    | own j => exact Nat.le_trans (own_size_act k op) hv
    | curve j => exact Nat.le_trans (size_act k op) hv

/-- A controller that is still there has taken steps. -/
theorem Leads.steps (h : Leads m n) (hc : m.controller? x = some c) (hd : n.controller? x = some d) : c.Steps d := by
  induction h generalizing d with
  | refl =>
    rw [hc] at hd
    cases hd
    exact .refl c
  | step op hl _ _ ih =>
    rcases controller?_act hd with ⟨e, he, h⟩ | ⟨hv, -⟩
    · exact (ih he).trans h
    · exact absurd hv (hl.not_vacant hc)

end Market

end TermStructure
