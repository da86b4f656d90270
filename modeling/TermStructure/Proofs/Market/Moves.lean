import Mathlib.Logic.Relation
import TermStructure.Proofs.Bootstrap.Stages
import TermStructure.Proofs.Market.Delivery

/-!
# What an operation does to a curve

Every operation of a market makes moves of the curves in it: a curve is told of a change, is frozen or
thawed, is given another reference date, or is solved because it is asked. The two operations that do
more are the one that builds a curve and the one that gives it other helpers.
-/

namespace TermStructure
open Relation

namespace Controller

variable {α : Type}

/-- The controller after it thawed; a change that was put off counts then. -/
def release (c : Controller α) : Controller α := if c.isDue then c.thaw.advance else c.thaw

end Controller

namespace PiecewiseCurve

variable {α : Type}

/-- The curve with other helpers, which is a change even if they are the same. -/
def rehelped [Scalar α] (c : PiecewiseCurve α) (helpers : List (MarketHelper α)) : PiecewiseCurve α :=
  { c with helpers := MarketHelper.inOrder helpers, controller := c.controller.advance }

/-- The curve with another reference date. -/
def moved (c : PiecewiseCurve α) (reference : Date) : PiecewiseCurve α :=
  { c with reference, controller := c.controller.advance }

variable [Scalar α]

/-- A curve makes a move, at given values of the quotes. -/
inductive Move (quotes : QuoteId → Option α) (c : PiecewiseCurve α) : PiecewiseCurve α → Prop where
  | hear {n : Nat} {d : PiecewiseCurve α} : c.Heard n d → Move quotes c d
  | advance : Move quotes c (c.control (·.advance))
  | freeze : Move quotes c (c.control (·.freeze))
  | release : Move quotes c (c.control (·.release))
  | refer (reference : Date) : Move quotes c (c.moved reference)
  | extrapolate (allow : Bool) : Move quotes c { c with extrapolates := allow }
  /-- The curve is solved if it is not known how that ends. -/
  | ensure : Move quotes c (c.ensure quotes).2
  | effect (e : Option (TurnOfYear α)) : Move quotes c { c with effect := e }

/-- A curve makes any number of moves. -/
def Moves (quotes : QuoteId → Option α) : PiecewiseCurve α → PiecewiseCurve α → Prop := ReflTransGen (Move quotes)

variable {quotes : QuoteId → Option α} {c d e : PiecewiseCurve α}

theorem Moves.refl (c : PiecewiseCurve α) : c.Moves quotes c := ReflTransGen.refl

theorem Move.moves (h : c.Move quotes d) : c.Moves quotes d := ReflTransGen.single h

theorem Moves.trans (h : c.Moves quotes d) (h' : d.Moves quotes e) : c.Moves quotes e := ReflTransGen.trans h h'

theorem moves_ensure (c : PiecewiseCurve α) : c.Moves quotes (c.ensure quotes).2 := Move.ensure.moves

theorem moves_inspect (c : PiecewiseCurve α) : c.Moves quotes (c.inspect quotes).2 := moves_ensure c

theorem moves_recalculate (c : PiecewiseCurve α) : c.Moves quotes (c.recalculate quotes).2 :=
  Move.advance.moves.trans (moves_ensure _)

theorem moves_adjust (c : PiecewiseCurve α) (p : Probe α) (value : α) :
    c.Moves quotes (c.adjust quotes p value).2 := by
  unfold adjust
  split
  · split
    · exact (Move.effect _).moves
    · exact .refl c
  · exact .refl c

theorem adjust_keeps_controller (c : PiecewiseCurve α) (p : Probe α) (value : α) :
    (c.adjust quotes p value).2.controller = c.controller := by
  unfold adjust
  cases c.effect with
  | none => rfl
  | some e =>
    dsimp only
    split <;> rfl

theorem moves_answer (c : PiecewiseCurve α) (p : Probe α) : c.Moves quotes (c.answer quotes p).2 := by
  have hc : c.Moves quotes _ := moves_ensure c
  unfold answer
  rcases hx : c.ensure quotes with ⟨x | x, d⟩
  · rw [hx] at hc
    exact hc
  · rw [hx] at hc
    dsimp only
    split
    · exact hc
    · exact hc.trans (moves_adjust d p _)

theorem moves_runOn {β : Type} (r : Reading α β) (c : PiecewiseCurve α) :
    c.Moves quotes (r.runOn (fun c p => c.answer quotes p) c).2 := by
  induction r generalizing c with
  | done result => exact .refl c
  | ask p next ih => exact (moves_answer c p).trans (ih _ _)

theorem moves_read {β : Type} (c : PiecewiseCurve α) (r : Frame → Reading α β) :
    c.Moves quotes (c.read quotes r).2 :=
  moves_runOn _ c

theorem Move.helpers (h : c.Move quotes d) : d.helpers = c.helpers := by
  cases h with
  | hear h =>
    obtain ⟨k, _, rfl⟩ := h
    rfl
  | ensure =>
    unfold PiecewiseCurve.ensure
    split
    · rfl
    · cases c.solve quotes <;> rfl
  | _ => rfl

theorem Moves.helpers (h : c.Moves quotes d) : d.helpers = c.helpers := by
  induction h with
  | refl => rfl
  | tail _ h ih => rw [h.helpers, ih]

end PiecewiseCurve

namespace Market

section
variable {α : Type} {m : Market α}

theorem curves_follow (m : Market α) (o : Observer) (helpers : List (MarketHelper α)) :
    (m.follow o helpers).curves = m.curves :=
  (Enrols.refl.follow o helpers).curves

theorem curves_unfollow (m : Market α) (o : Observer) (helpers : List (MarketHelper α)) :
    (m.unfollow o helpers).curves = m.curves :=
  (Enrols.refl.unfollow o helpers).curves

theorem curves_addCurve (m : Market α) (c : PiecewiseCurve α) : (m.addCurve c).curves = m.curves.add c :=
  (enrols_addCurve m c).curves

theorem control_control (m : Market α) (x : ControllerId) (f g : Controller α → Controller α) :
    (m.control x f).control x g = m.control x fun c => g (f c) := by
  cases x with
  | own j => simp [control, Slots.modify_modify]
  | curve j => simp [control, Slots.modify_modify, PiecewiseCurve.control]

theorem control_congr {x : ControllerId} {f g : Controller α → Controller α}
    (h : ∀ c, m.controller? x = some c → f c = g c) : m.control x f = m.control x g := by
  cases x with
  | own j => simp only [control, Slots.modify_congr h]
  | curve j =>
    have hm : m.curves.modify j (·.control f) = m.curves.modify j (·.control g) := by
      refine Slots.modify_congr fun c hc => ?_
      simp only [PiecewiseCurve.control, h c.controller (by simp [controller?, hc])]
    simp only [control, hm]

theorem curves_dropCurve {c : PiecewiseCurve α} {i : Nat} (hc : m.curves.get? i = some c) :
    (m.dropCurve i).curves = m.curves.clear i := by
  obtain ⟨m', hm, h⟩ := dropCurve_eq hc
  rw [h, hm.curves]

theorem get?_dropCurve (m : Market α) (i : Nat) : (m.dropCurve i).curves.get? i = none := by
  cases hi : m.curves.get? i with
  | none => simp only [dropCurve, hi]
  | some c => rw [curves_dropCurve hi, Slots.get?_clear, if_pos rfl]

@[simp] theorem size_control (m : Market α) (x : ControllerId) (f : Controller α → Controller α) :
    (m.control x f).curves.size = m.curves.size := by
  cases x with
  | own j => rfl
  | curve j => exact Slots.size_modify _ _ _

@[simp] theorem size_enrol (m : Market α) (s : Subject) (f : Registry → Registry) :
    (m.enrol s f).curves.size = m.curves.size := by
  cases s with
  | controller x => exact size_control m x _
  | _ => rfl

theorem Spreads.size {m' : Market α} (h : Spreads m m') : m'.curves.size = m.curves.size := by
  induction h with
  | refl => rfl
  | count j _ ih => exact ih
  | hear x _ ih => rw [size_control, ih]
  | prune x _ ih => rw [size_enrol, ih]

@[simp] theorem size_tell (m : Market α) (os : List Observer) : (m.tell os).curves.size = m.curves.size :=
  (spreads_tell m os).size

@[simp] theorem size_notify (m : Market α) (s : Subject) : (m.notify s).curves.size = m.curves.size := by
  simp [notify]

@[simp] theorem size_markDirty (m : Market α) (x : ControllerId) : (m.markDirty x).curves.size = m.curves.size := by
  simp [markDirty]

theorem size_onCurve {β : Type} (m : Market α) (i : Nat)
    (f : PiecewiseCurve α → (QuoteId → Option α) → β × PiecewiseCurve α) :
    (((m.onCurve i f).map (·.2)).getD m).curves.size = m.curves.size := by
  unfold onCurve
  cases m.curves.get? i with
  | none => rfl
  | some c => exact Slots.size_modify _ _ _

/-- Thawing releases the controller, and has its observers told if it brings a change to light. -/
theorem unfreeze_eq (m : Market α) (x : ControllerId) :
    m.unfreeze x = m.control x (·.release) ∨ m.unfreeze x = (m.control x (·.release)).notify (.controller x) := by
  by_cases hdue : ((m.controller? x).map (·.isDue)).getD false = true
  · right
    have hc : m.control x (fun c => c.thaw.advance) = m.control x (·.release) := by
      refine control_congr fun c hc => ?_
      rw [hc] at hdue
      exact (if_pos hdue).symm
    simp only [unfreeze, if_pos hdue, markDirty, control_control, hc]
  · left
    have hc : m.control x (·.thaw) = m.control x (·.release) := by
      refine control_congr fun c hc => ?_
      rw [hc] at hdue
      exact (if_neg hdue).symm
    simp only [unfreeze, if_neg hdue, hc]

end

variable {α : Type} [Scalar α] {m m' m'' : Market α} {quotes : QuoteId → Option α} {i : Nat}

/-- Every curve that is there later was there before, and has made moves since. -/
def Evolves (quotes : QuoteId → Option α) (m m' : Market α) : Prop :=
  ∀ i c', m'.curves.get? i = some c' → ∃ c, m.curves.get? i = some c ∧ c.Moves quotes c'

theorem Evolves.of_curves_eq (h : m'.curves = m.curves) : Evolves quotes m m' := by
  intro i c hc
  rw [h] at hc
  exact ⟨c, hc, .refl c⟩

theorem Evolves.trans (h : Evolves quotes m m') (h' : Evolves quotes m' m'') : Evolves quotes m m'' := by
  intro i c hc
  obtain ⟨d, hd, hdc⟩ := h' i c hc
  obtain ⟨e, he, hed⟩ := h i d hd
  exact ⟨e, he, hed.trans hdc⟩

theorem Hears.evolves (h : ∀ i, ∃ n, Hears i n m m') : Evolves quotes m m' := by
  intro i c hc
  obtain ⟨n, hn⟩ := h i
  rw [Hears, hc] at hn
  cases hm : m.curves.get? i with
  | none => rw [hm] at hn; cases hn
  | some d =>
    rw [hm] at hn
    cases hn with | some hn => exact ⟨d, rfl, (PiecewiseCurve.Move.hear hn).moves⟩

theorem evolves_modify {f : PiecewiseCurve α → PiecewiseCurve α}
    (hf : ∀ c, m.curves.get? i = some c → c.Moves quotes (f c)) :
    Evolves quotes m { m with curves := m.curves.modify i f } := by
  intro j c hc
  dsimp only at hc
  rw [Slots.get?_modify] at hc
  split at hc
  · rename_i hij
    subst hij
    obtain ⟨d, hd, rfl⟩ := Option.map_eq_some_iff.mp hc
    exact ⟨d, hd, hf d hd⟩
  · exact ⟨c, hc, .refl c⟩

theorem evolves_control {x : ControllerId} {f : Controller α → Controller α}
    (hf : ∀ c : PiecewiseCurve α, c.Moves quotes (c.control f)) : Evolves quotes m (m.control x f) := by
  cases x with
  | own j => exact .of_curves_eq rfl
  | curve j => exact evolves_modify fun c _ => hf c

theorem evolves_notify (m : Market α) (s : Subject) : Evolves quotes m (m.notify s) :=
  Hears.evolves fun i => hears_notify m i s

theorem evolves_markDirty (m : Market α) (x : ControllerId) : Evolves quotes m (m.markDirty x) :=
  (evolves_control fun _ => PiecewiseCurve.Move.advance.moves).trans (evolves_notify _ _)

theorem evolves_unfreeze (m : Market α) (x : ControllerId) : Evolves quotes m (m.unfreeze x) := by
  have hc : Evolves quotes m (m.control x (·.release)) :=
    evolves_control fun _ => PiecewiseCurve.Move.release.moves
  rcases unfreeze_eq m x with h | h
  · rw [h]
    exact hc
  · rw [h]
    exact hc.trans (evolves_notify _ _)

theorem evolves_onCurve {β : Type} {f : PiecewiseCurve α → (QuoteId → Option α) → β × PiecewiseCurve α}
    (hf : ∀ c, PiecewiseCurve.Moves m.values c (f c m.values).2) :
    Evolves m.values m (((m.onCurve i f).map (·.2)).getD m) := by
  unfold onCurve
  cases hi : m.curves.get? i with
  | none => exact .of_curves_eq rfl
  | some c =>
    refine evolves_modify fun d hd => ?_
    rw [hi] at hd
    cases hd
    exact hf c

theorem evolves_setQuote (m : Market α) (id : QuoteId) (value : Option α) :
    Evolves quotes m (m.setQuote id value).2 := by
  unfold setQuote
  split
  · exact .of_curves_eq rfl
  · dsimp only
    split
    · exact Evolves.trans (.of_curves_eq rfl) (evolves_notify _ _)
    · exact .of_curves_eq rfl

theorem evolves_dropCurve (m : Market α) (i : Nat) : Evolves quotes m (m.dropCurve i) := by
  cases hi : m.curves.get? i with
  | none =>
    simp only [dropCurve, hi]
    exact .of_curves_eq rfl
  | some c =>
    intro j d hd
    rw [curves_dropCurve hi, Slots.get?_clear] at hd
    split at hd
    · cases hd
    · exact ⟨d, hd, .refl d⟩

theorem evolves_setReference (m : Market α) (i : Nat) (reference : Date) :
    Evolves quotes m (m.setReference i reference) := by
  unfold setReference
  split
  · exact .of_curves_eq rfl
  · split
    · exact .of_curves_eq rfl
    · simp only [markDirty, control, Slots.modify_modify]
      refine Evolves.trans ?_ (evolves_notify _ _)
      exact evolves_modify fun c _ => (PiecewiseCurve.Move.refer reference).moves

/-- The curve that is given other helpers hears of it, and so do those that follow it. -/
theorem replaceHelpers_curve {helpers : List (MarketHelper α)} {j : Nat} {d : PiecewiseCurve α}
    (h : (m.replaceHelpers i helpers).curves.get? j = some d) :
    ∃ c n, m.curves.get? j = some c ∧ (if i = j then c.rehelped helpers else c).Heard n d := by
  cases hi : m.curves.get? i with
  | none =>
    simp only [replaceHelpers, hi] at h
    have hij : i ≠ j := by
      rintro rfl
      rw [hi] at h
      cases h
    exact ⟨d, 0, h, by rw [if_neg hij]; exact .refl d⟩
  | some c =>
    simp only [replaceHelpers, hi, markDirty] at h
    generalize hm' : (Market.control _ _ _ : Market α) = m' at h
    have hcurves : m'.curves.get? j
        = if i = j then (m.curves.get? j).map (·.rehelped helpers) else m.curves.get? j := by
      subst hm'
      simp only [control, curves_follow, curves_unfollow, Slots.modify_modify, Slots.get?_modify]
      rfl
    obtain ⟨n, hn⟩ := hears_notify m' j (.controller (.curve i))
    rw [Hears, h, hcurves] at hn
    cases hj : m.curves.get? j with
    | none => rw [hj] at hn; split at hn <;> cases hn
    | some e =>
      rw [hj] at hn
      refine ⟨e, n, rfl, ?_⟩
      split at hn
      · cases hn with | some hn => rwa [if_pos ‹_›]
      · cases hn with | some hn => rwa [if_neg ‹_›]

/-- What an operation can leave at a place. -/
inductive Yields (m : Market α) (op : Operation α) (i : Nat) (c' : PiecewiseCurve α) : Prop where
  | moved {c : PiecewiseCurve α} (hop : ¬op.Unseats i) (hc : m.curves.get? i = some c) (h : c.Moves m.values c')
  | rehelped {c : PiecewiseCurve α} {helpers : List (MarketHelper α)} {n : Nat} (hop : op = .replaceHelpers i helpers)
      (hc : m.curves.get? i = some c) (h : (c.rehelped helpers).Heard n c')
  | built {spec : CurveSpec α} (hop : op = .build spec) (hi : i = m.curves.size) (h : spec.build = .ok c')

theorem Evolves.yields {op : Operation α} (he : Evolves m.values m (m.act op)) (hop : ¬op.Unseats i)
    {c' : PiecewiseCurve α} (h : (m.act op).curves.get? i = some c') : m.Yields op i c' := by
  obtain ⟨c, hc, hm⟩ := he i c' h
  exact .moved hop hc hm

/-- An operation makes a curve or gives one other helpers. -/
def Operation.equips : Operation α → Bool
  | build _ | replaceHelpers .. => true
  | _ => false

/-- Any other operation moves the curves that are there. -/
theorem evolves_act {op : Operation α} (hop : op.equips = false) : Evolves m.values m (m.act op) := by
  cases op with
  | build | replaceHelpers => cases hop
  | setQuote quote value => exact evolves_setQuote m quote value
  | notifyObservable j => exact evolves_notify m _
  | notifyController j => exact evolves_notify m _
  | update j => exact Hears.evolves fun i => hears_tell m i _
  | markDirty j => exact evolves_markDirty m _
  | freeze x => exact evolves_control fun _ => PiecewiseCurve.Move.freeze.moves
  | unfreeze x => exact evolves_unfreeze m x
  | drop j => exact evolves_dropCurve m j
  | setReference j reference => exact evolves_setReference m j reference
  | setExtrapolation j allow => exact evolves_modify fun _ _ => (PiecewiseCurve.Move.extrapolate allow).moves
  | ensure j => exact evolves_onCurve PiecewiseCurve.moves_ensure
  | recalculate j => exact evolves_onCurve PiecewiseCurve.moves_recalculate
  | inspect j => exact evolves_onCurve fun c => PiecewiseCurve.moves_inspect c
  | query j r => exact evolves_onCurve fun c => PiecewiseCurve.moves_read c r
  | watch w s | unwatch w s => exact Hears.evolves fun i => ⟨0, hears_enrol m s _⟩
  | ensureOwn j outcome =>
    refine .of_curves_eq ?_
    simp only [act, ensureOwn]
    cases m.controllers.get? j <;> rfl
  | recalculateOwn j outcome =>
    refine .of_curves_eq ?_
    simp only [act, recalculateOwn, ensureOwn]
    cases (m.control (.own j) (·.advance)).controllers.get? j <;> rfl
  | _ => exact .of_curves_eq rfl

/-- Every operation leaves at a place one of the things it can. -/
theorem yields_act {op : Operation α} {c' : PiecewiseCurve α} (h : (m.act op).curves.get? i = some c') :
    m.Yields op i c' := by
  cases op with
  | build spec =>
    simp only [act, buildCurve] at h
    cases hs : spec.build with
    | error e =>
      rw [hs] at h
      exact .moved id h (.refl c')
    | ok c =>
      simp only [hs, Except.map, Except.toOption, Option.getD_some, curves_addCurve, Slots.get?_add] at h
      split at h
      · rename_i hi
        cases h
        exact .built rfl hi hs
      · exact .moved id h (.refl c')
  | replaceHelpers j helpers =>
    obtain ⟨c, n, hc, hn⟩ := replaceHelpers_curve h
    split at hn
    · rename_i hij
      subst hij
      exact .rehelped rfl hc hn
    · rename_i hij
      exact .moved hij hc (PiecewiseCurve.Move.hear hn).moves
  | drop j =>
    refine (evolves_dropCurve m j).yields ?_ h
    rintro rfl
    exact absurd h (by simp [act, get?_dropCurve])
  | _ => exact (evolves_act rfl).yields id h

/-- The curve that is built from a specification. -/
theorem build_eq {spec : CurveSpec α} {c : PiecewiseCurve α} (h : spec.build = .ok c) :
    c = { reference := spec.reference
          config := spec.config
          scheme := spec.scheme.getD spec.config.interpolation.scheme
          solver := spec.solver.getD (Brent.finder default)
          helpers := MarketHelper.inOrder spec.helpers
          controller := {}
          committed := .anchor spec.reference spec.config.kind
          extrapolates := spec.config.allowExtrapolation
          effect := spec.effect } := by
  obtain ⟨_, -, h⟩ := ok_of_bind h
  dsimp only at h
  split at h
  · cases h
  · cases h
    rfl

/-- The first solve of a curve whose helpers are given in the order of their pillars. -/
theorem ensure_of_build {spec : CurveSpec α} {c : PiecewiseCurve α} (hb : spec.build = .ok c)
    (horder : MarketHelper.inOrder spec.helpers = spec.helpers) {quotes : QuoteId → Option α} {o : BootstrapOutcome α}
    (ho : bootstrap ⟨⟨spec.reference, spec.config.dayCount, spec.config.kind⟩,
        spec.scheme.getD spec.config.interpolation.scheme, spec.helpers.map (·.priced quotes)⟩
      spec.config.bootstrap (spec.solver.getD (Brent.finder default)) = .ok o) :
    ∃ d, c.ensure quotes = (.ok (), d) ∧ d.committed = .ofOutcome spec.reference o := by
  have hsolve : c.solve quotes = .ok (.ofOutcome spec.reference o) := by
    rw [build_eq hb, horder]
    exact congrArg (Except.map (CommittedCurve.ofOutcome _)) ho
  have hverdict : c.controller.verdict? = none := by
    rw [build_eq hb]
    rfl
  refine ⟨c.settle (.ok (.ofOutcome spec.reference o)), ?_, rfl⟩
  unfold PiecewiseCurve.ensure
  rw [hverdict, hsolve]
  rfl

/-- How many curves an operation makes. -/
def Operation.makes : Operation α → Nat
  | .build spec => if spec.build.isOk then 1 else 0
  | _ => 0

/-- A curve is made at a new place, and no place is given up. -/
theorem size_act_eq (m : Market α) (op : Operation α) : (m.act op).curves.size = m.curves.size + op.makes := by
  cases op with
  | build spec =>
    simp only [act, buildCurve, Operation.makes]
    cases spec.build with
    | error e => rfl
    | ok c =>
      simp only [Except.map, Except.toOption, Option.getD_some, curves_addCurve, Slots.size_add]
      rfl
  | drop j =>
    simp only [act, Operation.makes]
    cases hj : m.curves.get? j with
    | none => simp [dropCurve, hj]
    | some c => simp [curves_dropCurve hj]
  | replaceHelpers j helpers =>
    simp only [act, replaceHelpers, Operation.makes]
    cases m.curves.get? j <;> simp [curves_follow, curves_unfollow]
  | setReference j reference =>
    simp only [act, setReference, Operation.makes]
    cases m.curves.get? j with
    | none => simp
    | some c => dsimp only; split <;> simp
  | setQuote quote value =>
    simp only [act, setQuote, Operation.makes]
    cases m.quotes.get? quote with
    | none => simp
    | some q => dsimp only; split <;> simp
  | unfreeze x => rcases unfreeze_eq m x with h | h <;> simp [act, h, Operation.makes]
  | ensureOwn j outcome =>
    simp only [act, ensureOwn, Operation.makes]
    cases m.controllers.get? j <;> simp
  | recalculateOwn j outcome =>
    simp only [act, recalculateOwn, ensureOwn, Operation.makes]
    cases (m.control (.own j) (·.advance)).controllers.get? j <;> simp
  | ensure j => exact size_onCurve m j _
  | recalculate j => exact size_onCurve m j _
  | inspect j => exact size_onCurve m j _
  | query j r => exact size_onCurve m j _
  | _ => simp [act, watch, unwatch, freeze, setExtrapolation, Operation.makes]

/-- A place, once taken, is never given to another curve. -/
theorem size_act (m : Market α) (op : Operation α) : m.curves.size ≤ (m.act op).curves.size :=
  size_act_eq m op ▸ Nat.le_add_right _ _

end Market

end TermStructure
