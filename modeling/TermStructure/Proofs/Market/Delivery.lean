import Mathlib.Logic.Function.Iterate
import TermStructure.Proofs.Market.Operation

/-!
# Telling observers

News reach a curve through its controller and nothing else, and leave the quotes as they are. A curve
that follows a quote is told at least once when the observers of that quote are.
-/

namespace TermStructure

/-- The controller after it was told of `n` changes, whoever observes it by then. -/
def Controller.Heard {α : Type} (n : Nat) (c d : Controller α) : Prop :=
  d = { Controller.hear^[n] c with observers := d.observers }

/-- The curve after it was told of `n` changes. -/
def PiecewiseCurve.Heard {α : Type} (n : Nat) (c d : PiecewiseCurve α) : Prop :=
  ∃ k, c.controller.Heard n k ∧ d = { c with controller := k }

namespace Controller

variable {α : Type} {c d e : Controller α} {n k : Nat}

theorem hear_observers (c : Controller α) (r : Registry) :
    { c with observers := r }.hear = { c.hear with observers := r } := by
  unfold hear
  split <;> rfl

theorem hear_iterate_observers (c : Controller α) (r : Registry) (n : Nat) :
    hear^[n] { c with observers := r } = { hear^[n] c with observers := r } := by
  induction n with
  | zero => rfl
  | succ n ih => rw [Function.iterate_succ_apply', ih, hear_observers, Function.iterate_succ_apply']

theorem hear_iterate_of_frozen (h : c.frozen = true) (n : Nat) :
    hear^[n + 1] c = { c with pending := true } := by
  induction n with
  | zero => simp [hear, h]
  | succ n ih =>
    rw [Function.iterate_succ_apply', ih]
    simp [hear, h]

theorem hear_iterate_of_not_frozen (h : c.frozen = false) (n : Nat) :
    hear^[n] c = { c with version := c.version + n } := by
  induction n with
  | zero => rfl
  | succ n ih =>
    rw [Function.iterate_succ_apply', ih]
    simp [hear, advance, h, Nat.add_assoc]

theorem Heard.observers (c : Controller α) (r : Registry) : c.Heard 0 { c with observers := r } := rfl

theorem Heard.hear (c : Controller α) : c.Heard 1 c.hear := rfl

theorem Heard.trans (h : c.Heard n d) (h' : d.Heard k e) : c.Heard (n + k) e := by
  unfold Heard at *
  rw [h] at h'
  rw [hear_iterate_observers, ← Function.iterate_add_apply, Nat.add_comm k n] at h'
  exact h'

/-- Nothing is heard, or a change is put off or counted at once. -/
theorem Heard.cases (h : c.Heard n d) :
    (n = 0 ∧ d = { c with observers := d.observers }) ∨
      (n ≠ 0 ∧ c.frozen = true ∧ d = { c with pending := true, observers := d.observers }) ∨
      (n ≠ 0 ∧ c.frozen = false ∧ d = { c with version := c.version + n, observers := d.observers }) := by
  cases n with
  | zero => exact .inl ⟨rfl, h⟩
  | succ n =>
    unfold Heard at h
    by_cases hf : c.frozen = true
    · rw [hear_iterate_of_frozen hf] at h
      exact .inr (.inl ⟨Nat.succ_ne_zero n, hf, h⟩)
    · have hf := Bool.eq_false_iff.mpr hf
      rw [hear_iterate_of_not_frozen hf] at h
      exact .inr (.inr ⟨Nat.succ_ne_zero n, hf, h⟩)

end Controller

namespace PiecewiseCurve

variable {α : Type} {c d e : PiecewiseCurve α} {n k : Nat}

theorem Heard.refl (c : PiecewiseCurve α) : c.Heard 0 c := ⟨c.controller, rfl, rfl⟩

theorem Heard.trans (h : c.Heard n d) (h' : d.Heard k e) : c.Heard (n + k) e := by
  obtain ⟨x, hx, rfl⟩ := h
  obtain ⟨y, hy, rfl⟩ := h'
  exact ⟨y, hx.trans hy, rfl⟩

end PiecewiseCurve

namespace Market

variable {α : Type} {m m' m'' : Market α} {i n k : Nat} {o : Observer} {id : QuoteId}

/-- The curve at place `i`, if there is one, was told of `n` changes. -/
def Hears (i n : Nat) (m m' : Market α) : Prop :=
  Option.Rel (PiecewiseCurve.Heard n) (m.curves.get? i) (m'.curves.get? i)

/-- The observer is registered with the quote. -/
def Follows (m : Market α) (o : Observer) (id : QuoteId) : Prop :=
  ∃ q, m.quotes.get? id = some q ∧ o ∈ q.observers.observers

/-! ### What curves hear -/

theorem Hears.of_curves_eq (h : m'.curves = m.curves) : Hears i 0 m m' := by
  unfold Hears
  rw [h]
  cases m.curves.get? i with
  | none => exact .none
  | some c => exact .some (.refl c)

theorem Hears.refl (m : Market α) : Hears i 0 m m := .of_curves_eq rfl

theorem Hears.trans (h : Hears i n m m') (h' : Hears i k m' m'') : Hears i (n + k) m m'' := by
  unfold Hears at *
  revert h h'
  generalize m.curves.get? i = c, m'.curves.get? i = d, m''.curves.get? i = e
  intro h h'
  cases h with
  | none => cases h'; exact .none
  | some h => cases h' with | some h' => exact .some (h.trans h')

theorem hears_control {x : ControllerId} {f : Controller α → Controller α} (hf : ∀ c, Controller.Heard k c (f c))
    (hx : x = .curve i → n = k) (hn : x ≠ .curve i → n = 0) : Hears i n m (m.control x f) := by
  cases x with
  | own j =>
    rw [hn (by simp)]
    exact .of_curves_eq rfl
  | curve j =>
    unfold Hears control
    rw [Slots.get?_modify]
    by_cases hj : j = i
    · subst hj
      rw [if_pos rfl, hx rfl]
      cases m.curves.get? j with
      | none => exact .none
      | some c => exact .some ⟨_, hf c.controller, rfl⟩
    · rw [if_neg hj, hn (by simpa using hj)]
      exact Hears.refl m

theorem hears_enrol (m : Market α) (s : Subject) (f : Registry → Registry) : Hears i 0 m (m.enrol s f) := by
  cases s with
  | quote j => exact .of_curves_eq rfl
  | observable j => exact .of_curves_eq rfl
  | controller x => exact hears_control (fun c => .observers c _) (fun _ => rfl) (fun _ => rfl)

theorem deliver_of_none {x : ControllerId} (h : m.controller? x = none) : m.deliver (.controller x) = m := by
  simp [deliver, h]

theorem deliver_of_some {x : ControllerId} {c : Controller α} (h : m.controller? x = some c) :
    m.deliver (.controller x) = m.control x (·.hear) ∨
      ∃ f, m.deliver (.controller x) = (m.control x (·.hear)).enrol (.controller x) f := by
  simp only [deliver, h]
  split
  · exact .inl rfl
  · exact .inr ⟨_, rfl⟩

theorem hears_deliver (m : Market α) (i : Nat) (o : Observer) :
    Hears i ([o].count (.controller (.curve i))) m (m.deliver o) := by
  cases o with
  | counter j => exact .of_curves_eq rfl
  | relay x => exact hears_enrol m _ _
  | controller x =>
    have hcount : [Observer.controller x].count (.controller (.curve i)) = if x = .curve i then 1 else 0 := by
      simp [List.count_singleton]
    rw [hcount]
    have hc : Hears i (if x = .curve i then 1 else 0) m (m.control x (·.hear)) :=
      hears_control Controller.Heard.hear (fun h => if_pos h) (fun h => if_neg h)
    cases hx : m.controller? x with
    | none =>
      -- Nothing is there to be told.
      rw [deliver_of_none hx]
      by_cases hi : x = .curve i
      · subst hi
        have hnone : m.curves.get? i = none := by simpa [controller?] using hx
        simp only [Hears, hnone]
        exact .none
      · rw [if_neg hi]
        exact .refl m
    | some c =>
      rcases deliver_of_some hx with h | ⟨f, h⟩
      · rw [h]
        exact hc
      · rw [h]
        exact hc.trans (hears_enrol _ _ _)

theorem hears_foldl_deliver (m : Market α) (i : Nat) (os : List Observer) :
    Hears i (os.count (.controller (.curve i))) m (os.foldl deliver m) := by
  induction os generalizing m with
  | nil => exact .refl m
  | cons o os ih =>
    rw [← List.singleton_append, List.count_append]
    exact (hears_deliver m i o).trans (ih (m.deliver o))

theorem hears_tell (m : Market α) (i : Nat) (os : List Observer) : ∃ n, Hears i n m (m.tell os) :=
  ⟨_, hears_foldl_deliver m i _⟩

theorem mem_chain_depth (m : Market α) (o : Observer) : o ∈ m.chain m.depth o := by
  unfold depth chain
  exact List.mem_cons_self

theorem hears_tell_of_mem {os : List Observer} (h : .controller (.curve i) ∈ os) :
    ∃ n, n ≠ 0 ∧ Hears i n m (m.tell os) := by
  refine ⟨_, ?_, hears_foldl_deliver m i _⟩
  have hmem : .controller (.curve i) ∈ os.flatMap (m.chain m.depth) :=
    List.mem_flatMap.mpr ⟨_, h, mem_chain_depth m _⟩
  exact Nat.pos_iff_ne_zero.mp (List.count_pos_iff.mpr hmem)

theorem hears_notify (m : Market α) (i : Nat) (s : Subject) : ∃ n, Hears i n m (m.notify s) := by
  obtain ⟨n, hn⟩ := hears_tell (m.enrol s (·.prune m.alive)) i (m.audience s)
  exact ⟨_, (hears_enrol m s _).trans hn⟩

theorem mem_audience (hf : m.Follows o id) (ho : m.alive o = true) : o ∈ m.audience (.quote id) := by
  obtain ⟨q, hq, hmem⟩ := hf
  simp only [audience, registry?, hq, Option.map_some, Registry.live, List.mem_filter]
  exact ⟨hmem, ho⟩

theorem alive_curve {c : PiecewiseCurve α} (h : m.curves.get? i = some c) :
    m.alive (.controller (.curve i)) = true := by
  simp [alive, controller?, h]

/-- A curve that follows a quote is told when the observers of the quote are. -/
theorem hears_notify_of_follows {c : PiecewiseCurve α} (hc : m.curves.get? i = some c)
    (hf : m.Follows (.controller (.curve i)) id) : ∃ n, n ≠ 0 ∧ Hears i n m (m.notify (.quote id)) := by
  obtain ⟨n, hn, ht⟩ := hears_tell_of_mem (m := m.enrol (.quote id) (·.prune m.alive))
    (mem_audience hf (alive_curve hc))
  exact ⟨0 + n, by omega, (hears_enrol m _ _).trans ht⟩

/-! ### How news spread -/

/-- News take the market to another: they are counted and heard, and the registries of controllers forget
    those that have gone. -/
inductive Spreads (m : Market α) : Market α → Prop where
  | refl : Spreads m m
  | count {m' : Market α} (j : Nat) :
      Spreads m m' → Spreads m { m' with counters := m'.counters.modify j (· + 1) }
  | hear {m' : Market α} (x : ControllerId) : Spreads m m' → Spreads m (m'.control x (·.hear))
  | prune {m' : Market α} (x : ControllerId) :
      Spreads m m' → Spreads m (m'.enrol (.controller x) (·.prune m'.alive))

theorem Spreads.deliver (h : Spreads m m') (o : Observer) : Spreads m (m'.deliver o) := by
  cases o with
  | counter j => exact h.count j
  | relay x => exact h.prune x
  | controller x =>
    cases hx : m'.controller? x with
    | none =>
      rw [deliver_of_none hx]
      exact h
    | some c =>
      simp only [Market.deliver, hx]
      split
      · exact h.hear x
      · exact (h.hear x).prune x

theorem spreads_tell (m : Market α) (os : List Observer) : Spreads m (m.tell os) := by
  have hdelivered (os : List Observer) (n : Market α) (h : Spreads m n) : Spreads m (os.foldl Market.deliver n) := by
    induction os generalizing n with
    | nil => exact h
    | cons o os ih => exact ih _ (h.deliver o)
  exact hdelivered _ m .refl

/-! ### Quotes -/

@[simp] theorem control_quotes (m : Market α) (x : ControllerId) (f : Controller α → Controller α) :
    (m.control x f).quotes = m.quotes := by
  cases x <;> rfl

@[simp] theorem enrol_controller_quotes (m : Market α) (x : ControllerId) (f : Registry → Registry) :
    (m.enrol (.controller x) f).quotes = m.quotes :=
  control_quotes m x _

theorem Spreads.quotes (h : Spreads m m') : m'.quotes = m.quotes := by
  induction h with
  | refl => rfl
  | count j _ ih => exact ih
  | hear x _ ih => rw [control_quotes, ih]
  | prune x _ ih => rw [enrol_controller_quotes, ih]

@[simp] theorem tell_quotes (m : Market α) (os : List Observer) : (m.tell os).quotes = m.quotes :=
  (spreads_tell m os).quotes

@[simp] theorem notify_quotes (m : Market α) (s : Subject) :
    (m.notify s).quotes = (m.enrol s (·.prune m.alive)).quotes := by
  simp [notify]

theorem get?_enrol_quote (m : Market α) (f : Registry → Registry) (id j : QuoteId) :
    (m.enrol (.quote id) f).quotes.get? j
      = if id = j then (m.quotes.get? j).map (fun q => { q with observers := f q.observers })
        else m.quotes.get? j :=
  Slots.get?_modify ..

/-! ### Registration with quotes -/

/-- The market comes of another by changes of who is registered with quotes. -/
inductive Enrols (m : Market α) : Market α → Prop where
  | refl : Enrols m m
  | enrol {m' : Market α} (id : QuoteId) (f : Registry → Registry) :
      Enrols m m' → Enrols m (m'.enrol (.quote id) f)

theorem Enrols.follow (h : Enrols m m') (o : Observer) (helpers : List (MarketHelper α)) :
    Enrols m (m'.follow o helpers) := by
  unfold Market.follow
  induction helpers generalizing m' with
  | nil => exact h
  | cons g rest ih => exact ih (h.enrol g.quote (·.register o))

theorem Enrols.unfollow (h : Enrols m m') (o : Observer) (helpers : List (MarketHelper α)) :
    Enrols m (m'.unfollow o helpers) := by
  unfold Market.unfollow
  induction helpers generalizing m' with
  | nil => exact h
  | cons g rest ih => exact ih (h.enrol g.quote (·.unregister o))

theorem Enrols.curves (h : Enrols m m') : m'.curves = m.curves := by
  induction h with
  | refl => rfl
  | enrol id f _ ih => exact ih

theorem enrols_addCurve (m : Market α) (c : PiecewiseCurve α) :
    Enrols { m with curves := m.curves.add c } (m.addCurve c) := by
  unfold addCurve
  cases c.effect with
  | none => exact Enrols.refl.follow _ _
  | some e => exact (Enrols.refl.enrol e.quote _).follow _ _

/-- A curve is dropped when it is registered with nothing any more. -/
theorem dropCurve_eq {c : PiecewiseCurve α} (hc : m.curves.get? i = some c) :
    ∃ m', Enrols m m' ∧ m.dropCurve i = { m' with curves := m'.curves.clear i } := by
  have hu := Enrols.refl.unfollow (m := m) (.controller (.curve i)) c.helpers
  simp only [dropCurve, hc]
  cases c.effect with
  | none => exact ⟨_, hu, rfl⟩
  | some e => exact ⟨_, hu.enrol e.quote _, rfl⟩

/-! ### Followers -/

theorem Follows.congr (h : m.Follows o id) (hq : m'.quotes = m.quotes) : m'.Follows o id := by
  unfold Follows
  rw [hq]
  exact h

/-- A change of a registry that does not lose the observer. -/
theorem Follows.enrol (h : m.Follows o id) {s : Subject} {f : Registry → Registry}
    (hf : s = .quote id → ∀ r : Registry, o ∈ r.observers → o ∈ (f r).observers) : (m.enrol s f).Follows o id := by
  obtain ⟨q, hq, ho⟩ := h
  cases s with
  | quote j =>
    unfold Follows
    rw [get?_enrol_quote, hq]
    by_cases hj : j = id
    · rw [if_pos hj]
      exact ⟨_, rfl, hf (by rw [hj]) _ ho⟩
    · rw [if_neg hj]
      exact ⟨q, rfl, ho⟩
  | observable j => exact ⟨q, hq, ho⟩
  | controller x => exact Follows.congr ⟨q, hq, ho⟩ (enrol_controller_quotes m x f)

theorem Follows.notify (h : m.Follows o id) (ho : m.alive o = true) (s : Subject) : (m.notify s).Follows o id := by
  refine Follows.congr (h.enrol (s := s) (f := (·.prune m.alive)) fun _ r hr => ?_) (notify_quotes m s)
  exact List.mem_filter.mpr ⟨hr, ho⟩

theorem Follows.watch (h : m.Follows o id) (p : Observer) (s : Subject) : (m.watch p s).Follows o id :=
  h.enrol fun _ _ hr => Registry.mem_register.mpr (.inl hr)

theorem Follows.unwatch (h : m.Follows o id) {p : Observer} {s : Subject} (hp : s = .quote id → o ≠ p) :
    (m.unwatch p s).Follows o id :=
  h.enrol fun hs _ hr => Registry.mem_unregister.mpr ⟨hr, hp hs⟩

theorem follows_watch (hq : m.quotes.has id = true) : (m.watch o (.quote id)).Follows o id := by
  obtain ⟨q, hq⟩ := Option.isSome_iff_exists.mp hq
  unfold Follows Market.watch
  rw [get?_enrol_quote, if_pos rfl, hq]
  exact ⟨_, rfl, Registry.mem_register.mpr (.inr rfl)⟩

end Market

end TermStructure
