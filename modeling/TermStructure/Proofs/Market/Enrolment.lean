import TermStructure.Proofs.Market.Following
import TermStructure.Proofs.Market.Moves

/-!
# Who is registered with what

Most operations register nobody: they can make a registry forget observers that have gone, and they
leave alone which quotes the curves of a market depend on. What telling observers does to registries is
of this kind, whoever is told.
-/

namespace TermStructure

/-- The curve that an observer belongs to. -/
def Observer.owner? : Observer → Option Nat
  | .controller (.curve i) | .relay (.curve i) => some i
  | _ => none

namespace Controller

variable {α : Type}

theorem observers_hear (c : Controller α) : c.hear.observers = c.observers := by
  unfold hear
  split <;> rfl

theorem observers_release (c : Controller α) : c.release.observers = c.observers := by
  unfold release thaw
  split <;> split <;> rfl

theorem observers_ensure (c : Controller α) (outcome : Except (CurveError α) Unit) :
    (c.ensure outcome).2.observers = c.observers := by
  unfold ensure
  cases c.verdict? with
  | some r => rfl
  | none => cases outcome <;> rfl

end Controller

namespace PiecewiseCurve

variable {α : Type}

/-- Some helper of the curve is calibrated to the quote. -/
def uses (c : PiecewiseCurve α) (id : QuoteId) : Bool := c.helpers.any (·.quote == id)

/-- The quote is that of the curve's jump. -/
def jumpsOn (c : PiecewiseCurve α) (id : QuoteId) : Bool := c.effect.any (·.quote == id)

/-- The quotes of the helpers, and that of the jump. -/
def sources (c : PiecewiseCurve α) : List QuoteId × Option QuoteId :=
  (c.helpers.map (·.quote), c.effect.map (·.quote))

/-- The curves depend on the same quotes and have the same observers. -/
structure Bound (c d : PiecewiseCurve α) : Prop where
  sources : d.sources = c.sources
  observers : d.controller.observers = c.controller.observers

variable {c d e : PiecewiseCurve α} {id : QuoteId}

theorem uses_eq_true_iff : c.uses id = true ↔ id ∈ c.sources.1 := by simp [uses, sources]

theorem jumpsOn_eq_true_iff : c.jumpsOn id = true ↔ c.sources.2 = some id := by
  cases h : c.effect <;> simp [jumpsOn, sources, h]

theorem Bound.refl (c : PiecewiseCurve α) : c.Bound c := ⟨rfl, rfl⟩

theorem Bound.trans (h : c.Bound d) (h' : d.Bound e) : c.Bound e :=
  ⟨h'.sources.trans h.sources, h'.observers.trans h.observers⟩

theorem bound_settle (c : PiecewiseCurve α) (r : Except (CurveError α) (CommittedCurve α)) : c.Bound (c.settle r) := by
  cases r <;> exact ⟨rfl, rfl⟩

variable [Scalar α] {quotes : QuoteId → Option α}

theorem bound_ensure (c : PiecewiseCurve α) : c.Bound (c.ensure quotes).2 := by
  unfold PiecewiseCurve.ensure
  split
  · exact .refl c
  · exact bound_settle c _

theorem bound_recalculate (c : PiecewiseCurve α) : c.Bound (c.recalculate quotes).2 :=
  Bound.trans (d := c.control (·.advance)) ⟨rfl, rfl⟩ (bound_ensure _)

end PiecewiseCurve

theorem TurnOfYear.quote_jumpTime {α : Type} [Scalar α] (e : TurnOfYear α) (reference : Date) (dayCount : DayCount) :
    (e.jumpTime reference dayCount).2.quote = e.quote := by
  unfold jumpTime
  split
  · rfl
  · split <;> rfl

theorem TurnOfYear.apply_snd {α : Type} [Scalar α] (e : TurnOfYear α) (quotes : QuoteId → Option α) (t value : α)
    (reference : Date) (dayCount : DayCount) :
    (e.apply quotes t value reference dayCount).2 = (e.jumpTime reference dayCount).2 := by
  unfold apply
  rcases e.jumpTime reference dayCount with ⟨x | x, e'⟩ <;> rfl

namespace PiecewiseCurve

variable {α : Type} [Scalar α] {quotes : QuoteId → Option α}

theorem bound_adjust (c : PiecewiseCurve α) (p : Probe α) (value : α) : c.Bound (c.adjust quotes p value).2 := by
  unfold adjust
  cases he : c.effect with
  | none => exact .refl c
  | some e =>
    dsimp only
    split
    · refine ⟨?_, rfl⟩
      simp only [sources, he, Option.map_some, TurnOfYear.apply_snd, TurnOfYear.quote_jumpTime]
    · exact .refl c

theorem bound_answer (c : PiecewiseCurve α) (p : Probe α) : c.Bound (c.answer quotes p).2 := by
  have hc : c.Bound (c.ensure quotes).2 := bound_ensure c
  unfold answer
  rcases hx : c.ensure quotes with ⟨x | x, d⟩
  · rw [hx] at hc
    exact hc
  · rw [hx] at hc
    dsimp only
    split
    · exact hc
    · exact hc.trans (bound_adjust d p _)

theorem bound_runOn {β : Type} (r : Reading α β) (c : PiecewiseCurve α) :
    c.Bound (r.runOn (fun c p => c.answer quotes p) c).2 := by
  induction r generalizing c with
  | done result => exact .refl c
  | ask p next ih => exact (bound_answer c p).trans (ih _ _)

end PiecewiseCurve

namespace Market

section
variable {α : Type} {m m' m'' : Market α} {s t : Subject} {o p : Observer} {i : Nat} {id : QuoteId}

/-- The observers that are registered with a subject, those that have gone included. -/
def enrolment (m : Market α) (s : Subject) : List Observer :=
  (Option.map (·.observers) <| m.registry? s).getD []

/-- What the curve at a place depends on. -/
def sources (m : Market α) (i : Nat) : Option (List QuoteId × Option QuoteId) :=
  (m.curves.get? i).map (·.sources)

theorem controller?_control (m : Market α) (x y : ControllerId) (f : Controller α → Controller α) :
    (m.control x f).controller? y = if x = y then (m.controller? y).map f else m.controller? y := by
  cases x with
  | own j =>
    cases y with
    | own k => simp only [control, controller?, Slots.get?_modify, ControllerId.own.injEq]
    | curve k => rfl
  | curve j =>
    cases y with
    | own k => rfl
    | curve k =>
      simp only [control, controller?, Slots.get?_modify, ControllerId.curve.injEq]
      split <;> simp [PiecewiseCurve.control, Function.comp_def]

theorem control_of_none {x : ControllerId} (h : m.controller? x = none) (f : Controller α → Controller α) :
    m.control x f = m := by
  cases x with
  | own j => simp only [control, Slots.modify_of_none h]
  | curve j =>
    have hj : m.curves.get? j = none := by simpa [controller?] using h
    simp only [control, Slots.modify_of_none hj]

/-- A controller of its own is asked for a solve. -/
theorem ensureOwn_eq (m : Market α) (i : Nat) (outcome : Except (CurveError α) Unit) :
    ((m.ensureOwn i outcome).map (·.2)).getD m = m.control (.own i) fun c => (c.ensure outcome).2 := by
  unfold ensureOwn
  cases hc : m.controllers.get? i with
  | none => exact (control_of_none (x := .own i) hc _).symm
  | some c =>
    change m.control (.own i) (fun _ => (c.ensure outcome).2) = _
    refine control_congr fun d hd => ?_
    rw [controller?, hc] at hd
    cases hd
    rfl

theorem recalculateOwn_eq (m : Market α) (i : Nat) (outcome : Except (CurveError α) Unit) :
    ((m.recalculateOwn i outcome).map (·.2)).getD m = m.control (.own i) fun c => (c.advance.ensure outcome).2 := by
  cases hc : m.controllers.get? i with
  | none =>
    have hx : m.controller? (.own i) = none := hc
    rw [control_of_none hx, recalculateOwn, control_of_none hx, ensureOwn, hc]
    rfl
  | some c =>
    have hc' : (m.control (.own i) (·.advance)).controllers.get? i = some c.advance := by
      simp [control, Slots.get?_modify, hc]
    have h := ensureOwn_eq (m.control (.own i) (·.advance)) i outcome
    rw [control_control] at h
    rw [← h, recalculateOwn, ensureOwn, hc']
    rfl

theorem registry_control (m : Market α) (x : ControllerId) {f : Controller α → Controller α}
    (hf : ∀ c, (f c).observers = c.observers) (s : Subject) : registry? (m.control x f) s = m.registry? s := by
  cases s with
  | quote j => cases x <;> rfl
  | observable j => cases x <;> rfl
  | controller y =>
    simp only [controller?_control, registry?]
    split <;> simp [Function.comp_def, hf]

theorem registry_enrol (m : Market α) (s t : Subject) (f : Registry → Registry) :
    registry? (m.enrol s f) t = if s = t then Option.map f <| m.registry? t else m.registry? t := by
  cases s with
  | quote j =>
    cases t with
    | quote k =>
      simp only [enrol, registry?, Slots.get?_modify, Subject.quote.injEq]
      split <;> simp [Function.comp_def]
    | observable k => rfl
    | controller y => cases y <;> rfl
  | observable j =>
    cases t with
    | quote k => rfl
    | observable k => simp only [enrol, registry?, Slots.get?_modify, Subject.observable.injEq]
    | controller y => cases y <;> rfl
  | controller x =>
    cases t with
    | quote k => cases x <;> rfl
    | observable k => cases x <;> rfl
    | controller y =>
      simp only [enrol, registry?, controller?_control, Subject.controller.injEq]
      split <;> simp [Function.comp_def]

theorem alive_of_owner (m : Market α) (h : o.owner? = some i) : m.alive o = (m.curves.get? i).isSome := by
  cases o with
  | counter j => cases h
  | controller x | relay x =>
    cases x with
    | own j => cases h
    | curve j =>
      cases h
      simp [alive, controller?]

theorem audience_eq (m : Market α) (s : Subject) : m.audience s = (m.enrolment s).filter m.alive := by
  unfold audience enrolment
  cases m.registry? s <;> rfl

theorem has_watch (m : Market α) (o : Observer) (s : Subject) (id : QuoteId) :
    (m.watch o s).quotes.has id = m.quotes.has id :=
  has_congr (board_enrol m s _) id

theorem mem_enrolment_watch {j : QuoteId} : p ∈ (m.watch o (.quote j)).enrolment (.quote id) ↔
    p ∈ m.enrolment (.quote id) ∨ (p = o ∧ j = id ∧ m.quotes.has id = true) := by
  unfold enrolment
  rw [watch, registry_enrol]
  by_cases h : j = id
  · subst h
    rw [if_pos rfl]
    cases hq : m.quotes.get? j <;> simp [Slots.has, registry?, hq]
  · rw [if_neg (by simpa using h)]
    simp [h]

theorem mem_enrolment_unwatch {j : QuoteId} : p ∈ (m.unwatch o (.quote j)).enrolment (.quote id) ↔
    p ∈ m.enrolment (.quote id) ∧ ¬(p = o ∧ j = id) := by
  unfold enrolment
  rw [unwatch, registry_enrol]
  by_cases h : j = id
  · subst h
    rw [if_pos rfl]
    cases hq : m.quotes.get? j <;> simp [hq, registry?]
  · rw [if_neg (by simpa using h)]
    simp [h]

theorem nodup_register {r : Registry} (h : r.observers.Nodup) (o : Observer) :
    (r.register o).observers.Nodup := by
  unfold Registry.register
  split
  · exact h
  · rename_i ho
    rw [List.nodup_append]
    refine ⟨h, List.nodup_singleton o, fun a ha b hb => ?_⟩
    rw [List.mem_singleton.mp hb]
    rintro rfl
    exact ho ha

theorem nodup_enrolment_enrol {f : Registry → Registry} (hf : ∀ r : Registry, r.observers.Nodup → (f r).observers.Nodup)
    (h : ∀ t, (m.enrolment t).Nodup) (s t : Subject) : ((m.enrol s f).enrolment t).Nodup := by
  have ht := h t
  unfold enrolment at *
  rw [registry_enrol]
  split
  · cases hr : m.registry? t with
    | none => exact List.nodup_nil
    | some r =>
      rw [hr] at ht
      exact hf r ht
  · exact ht

theorem nodup_enrolment_watch (h : ∀ t, (m.enrolment t).Nodup) (o : Observer) (s t : Subject) :
    ((m.watch o s).enrolment t).Nodup :=
  nodup_enrolment_enrol (fun _ hr => nodup_register hr o) h s t

theorem sublist_enrolment_unwatch (m : Market α) (o : Observer) (s t : Subject) :
    ((m.unwatch o s).enrolment t).Sublist (m.enrolment t) := by
  unfold enrolment
  rw [unwatch, registry_enrol]
  split
  · cases m.registry? t with
    | none => exact .refl _
    | some r => exact List.filter_sublist
  · exact .refl _

theorem sublist_enrolment_unfollow (m : Market α) (o : Observer) (helpers : List (MarketHelper α)) (t : Subject) :
    ((m.unfollow o helpers).enrolment t).Sublist (m.enrolment t) := by
  unfold unfollow
  induction helpers generalizing m with
  | nil => exact .refl _
  | cons g rest ih => exact (ih _).trans (sublist_enrolment_unwatch m o _ t)

theorem nodup_enrolment_follow (h : ∀ t, (m.enrolment t).Nodup) (o : Observer) (helpers : List (MarketHelper α))
    (t : Subject) : ((m.follow o helpers).enrolment t).Nodup := by
  unfold follow
  induction helpers generalizing m with
  | nil => exact h t
  | cons g rest ih => exact ih (nodup_enrolment_watch h o _)

theorem mem_enrolment_follow {helpers : List (MarketHelper α)} : p ∈ (m.follow o helpers).enrolment (.quote id) ↔
    p ∈ m.enrolment (.quote id) ∨ (p = o ∧ id ∈ helpers.map (·.quote) ∧ m.quotes.has id = true) := by
  unfold follow
  induction helpers generalizing m with
  | nil => simp
  | cons g rest ih =>
    rw [List.foldl_cons, ih, mem_enrolment_watch, has_watch, List.map_cons, List.mem_cons, eq_comm (a := id)]
    tauto

theorem mem_enrolment_unfollow {helpers : List (MarketHelper α)} :
    p ∈ (m.unfollow o helpers).enrolment (.quote id) ↔
      p ∈ m.enrolment (.quote id) ∧ ¬(p = o ∧ id ∈ helpers.map (·.quote)) := by
  unfold unfollow
  induction helpers generalizing m with
  | nil => simp
  | cons g rest ih =>
    rw [List.foldl_cons, ih, mem_enrolment_unwatch, List.map_cons, List.mem_cons, eq_comm (a := id), and_or_left,
      not_or, and_assoc]

/-- Who is registered with other subjects is not touched. -/
theorem Enrols.registry (hs : ∀ id, .quote id ≠ s) (h : Enrols m m') : m'.registry? s = m.registry? s := by
  induction h with
  | refl => rfl
  | enrol id f _ ih => rw [registry_enrol, if_neg (hs id), ih]

theorem Enrols.enrolment (hs : ∀ id, .quote id ≠ s) (h : Enrols m m') : m'.enrolment s = m.enrolment s := by
  rw [Market.enrolment, h.registry hs, Market.enrolment]

/-! ### Forgetting those that have gone -/

/-- Nobody is registered, nobody that belongs to a curve is lost by a quote, and the curves depend on what
    they did. -/
structure Thins (m m' : Market α) : Prop where
  sources : m'.sources = m.sources
  sublist : ∀ s, (m'.enrolment s).Sublist (m.enrolment s)
  keeps : ∀ id o i, o.owner? = some i → (m.sources i).isSome = true → o ∈ m.enrolment (.quote id) →
    o ∈ m'.enrolment (.quote id)

theorem Thins.of_eq (hs : m'.sources = m.sources) (he : ∀ s, m'.enrolment s = m.enrolment s) : Thins m m' :=
  ⟨hs, fun s => by rw [he s], fun id o i _ _ ho => by rw [he]; exact ho⟩

theorem Thins.refl (m : Market α) : Thins m m := .of_eq rfl fun _ => rfl

theorem Thins.trans (h : Thins m m') (h' : Thins m' m'') : Thins m m'' where
  sources := h'.sources.trans h.sources
  sublist s := (h'.sublist s).trans (h.sublist s)
  keeps id o i ho hi hmem := h'.keeps id o i ho (by rwa [h.sources]) (h.keeps id o i ho hi hmem)

theorem sources_control (m : Market α) (x : ControllerId) (f : Controller α → Controller α) :
    (m.control x f).sources = m.sources := by
  funext i
  cases x with
  | own j => rfl
  | curve j =>
    simp only [sources, control, Slots.get?_modify]
    split
    · cases m.curves.get? i <;> rfl
    · rfl

theorem sources_enrol (m : Market α) (s : Subject) (f : Registry → Registry) : (m.enrol s f).sources = m.sources := by
  cases s with
  | controller x => exact sources_control m x _
  | _ => rfl

theorem thins_control (m : Market α) (x : ControllerId) {f : Controller α → Controller α}
    (hf : ∀ c, (f c).observers = c.observers) : Thins m (m.control x f) :=
  .of_eq (sources_control m x f) fun s => by rw [enrolment, registry_control m x hf, enrolment]

theorem enrolment_prune (m : Market α) (s t : Subject) : (m.enrol s (·.prune m.alive)).enrolment t
    = if s = t then (m.enrolment t).filter m.alive else m.enrolment t := by
  unfold enrolment
  rw [registry_enrol]
  split
  · cases m.registry? t <;> rfl
  · rfl

theorem thins_prune (m : Market α) (s : Subject) : Thins m (m.enrol s (·.prune m.alive)) := by
  refine ⟨sources_enrol m s _, fun t => ?_, fun id o i ho hi hmem => ?_⟩
  · rw [enrolment_prune]
    split
    · exact List.filter_sublist
    · exact .refl _
  · rw [enrolment_prune]
    split
    · refine List.mem_filter.mpr ⟨hmem, ?_⟩
      rwa [alive_of_owner m ho, ← Option.isSome_map]
    · exact hmem

theorem Spreads.thins (h : Spreads m m') : Thins m m' := by
  induction h with
  | refl => exact .refl m
  | count j _ ih => exact ih.trans (.of_eq rfl fun s => by rcases s with j | j | (j | j) <;> rfl)
  | hear x _ ih => exact ih.trans (thins_control _ x Controller.observers_hear)
  | prune x _ ih => exact ih.trans (thins_prune _ (.controller x))

theorem thins_notify (m : Market α) (s : Subject) : Thins m (m.notify s) :=
  (thins_prune m s).trans (spreads_tell _ _).thins

theorem thins_markDirty (m : Market α) (x : ControllerId) : Thins m (m.markDirty x) :=
  (thins_control m x (f := (·.advance)) fun _ => rfl).trans (thins_notify _ _)

theorem thins_unfreeze (m : Market α) (x : ControllerId) : Thins m (m.unfreeze x) := by
  have hr : Thins m (m.control x (·.release)) := thins_control m x Controller.observers_release
  rcases unfreeze_eq m x with h | h <;> rw [h]
  · exact hr
  · exact hr.trans (thins_notify _ _)

theorem enrolment_modify {f : PiecewiseCurve α → PiecewiseCurve α}
    (hf : ∀ c, m.curves.get? i = some c → (f c).controller.observers = c.controller.observers) (s : Subject) :
    ({ m with curves := m.curves.modify i f } : Market α).enrolment s = m.enrolment s := by
  rcases s with j | j | (j | j)
  case controller.curve =>
    simp only [enrolment, registry?, controller?, Slots.get?_modify]
    split
    · rename_i hij
      subst hij
      cases hc : m.curves.get? i with
      | none => rfl
      | some c => exact congrArg Registry.observers (hf c hc)
    · rfl
  all_goals rfl

theorem thins_modify {f : PiecewiseCurve α → PiecewiseCurve α} (hf : ∀ c, m.curves.get? i = some c → c.Bound (f c)) :
    Thins m { m with curves := m.curves.modify i f } := by
  refine .of_eq ?_ (enrolment_modify fun c hc => (hf c hc).observers)
  funext j
  simp only [sources, Slots.get?_modify]
  split
  · rename_i hij
    subst hij
    cases hc : m.curves.get? i with
    | none => rfl
    | some c => exact congrArg some (hf c hc).sources
  · rfl

theorem thins_onCurve {β : Type} {f : PiecewiseCurve α → (QuoteId → Option α) → β × PiecewiseCurve α}
    (hf : ∀ c : PiecewiseCurve α, c.Bound (f c m.values).2) : Thins m (((m.onCurve i f).map (·.2)).getD m) := by
  unfold onCurve
  cases hi : m.curves.get? i with
  | none => exact .refl m
  | some c =>
    refine thins_modify fun d hd => ?_
    rw [hi] at hd
    cases hd
    exact hf c

end

end Market

end TermStructure
