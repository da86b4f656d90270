import TermStructure.Proofs.Market.Enrolment

/-!
# Registration is exact

Whatever is done to a market, a curve is registered with a quote through its controller if one of its
present helpers is calibrated to the quote, and through its relay if its jump is on the quote; it is
registered once for each, and not at all otherwise. So a quote that changes tells the controller and the
relay of each such curve exactly once, and those of no other curve.
-/

namespace TermStructure

/-- What the observer is there for depends on the quote, for a curve with these sources. -/
def Observer.Heeds (sources : List QuoteId × Option QuoteId) (id : QuoteId) : Observer → Prop
  | .controller _ => id ∈ sources.1
  | .relay _ => sources.2 = some id
  | .counter _ => False

/-- What belongs to a curve is its controller or its relay. -/
theorem Observer.heeds_iff {sources : List QuoteId × Option QuoteId} {id : QuoteId} {o : Observer} {i : Nat} :
    o.owner? = some i ∧ o.Heeds sources id ↔
      (o = .controller (.curve i) ∧ id ∈ sources.1) ∨ (o = .relay (.curve i) ∧ sources.2 = some id) := by
  rcases o with j | (j | j) | (j | j) <;> simp [owner?, Heeds]

theorem Observer.owner?_watcher (w : Watcher) : w.observer.owner? = none := by
  cases w <;> rfl

namespace Market

section
variable {α : Type} {m m' : Market α} {s : Subject} {o p : Observer} {i : Nat} {id : QuoteId}

/-- Nobody is registered twice. What belongs to a curve is registered with quotes alone, and exactly with
    those it is there for. -/
structure Wired (m : Market α) : Prop where
  nodup : ∀ s, (m.enrolment s).Nodup
  free : ∀ s, (∀ id, .quote id ≠ s) → ∀ o ∈ m.enrolment s, o.owner? = none
  exact : ∀ id i o, o.owner? = some i →
    (o ∈ m.enrolment (.quote id) ↔ ∃ l, m.sources i = some l ∧ o.Heeds l id)

theorem wired_empty : Wired ({} : Market α) := by
  have he (s : Subject) : ({} : Market α).enrolment s = [] := by
    rcases s with j | j | (j | j) <;> simp [enrolment, registry?, controller?, Slots.get?]
  refine ⟨fun s => by simp [he], fun s _ o ho => by simp [he] at ho, fun id i o _ => ?_⟩
  simp [he, sources, Slots.get?]

theorem Wired.thins (hm : m.Wired) (h : Thins m m') : m'.Wired := by
  refine ⟨fun s => (hm.nodup s).sublist (h.sublist s), fun s hs o ho => hm.free s hs o ((h.sublist s).subset ho), ?_⟩
  intro id i o ho
  rw [h.sources, ← hm.exact id i o ho]
  refine ⟨fun hmem => (h.sublist _).subset hmem, fun hmem => h.keeps id o i ho ?_ hmem⟩
  obtain ⟨l, hl, -⟩ := (hm.exact id i o ho).mp hmem
  rw [hl]
  rfl

/-- Anyone may watch or stop watching who belongs to no curve. -/
theorem Wired.enrol (hm : m.Wired) (s : Subject) {f : Registry → Registry} (hp : p.owner? = none)
    (hd : ∀ r : Registry, r.observers.Nodup → (f r).observers.Nodup)
    (hf : ∀ r : Registry, ∀ o, o ≠ p → (o ∈ (f r).observers ↔ o ∈ r.observers)) : (m.enrol s f).Wired := by
  have hmem (t : Subject) (o : Observer) (ho : o ≠ p) : o ∈ (m.enrol s f).enrolment t ↔ o ∈ m.enrolment t := by
    unfold enrolment
    rw [registry_enrol]
    split
    · cases m.registry? t with
      | none => exact Iff.rfl
      | some r => exact hf r o ho
    · exact Iff.rfl
  refine ⟨fun t => nodup_enrolment_enrol hd hm.nodup s t, fun t ht o ho => ?_, fun id i o ho => ?_⟩
  · by_cases hop : o = p
    · rw [hop, hp]
    · exact hm.free t ht o ((hmem t o hop).mp ho)
  · have hop : o ≠ p := by
      rintro rfl
      rw [hp] at ho
      cases ho
    rw [hmem _ o hop, sources_enrol, hm.exact id i o ho]

/-! ### Operations that register nobody -/

theorem thins_assign (m : Market α) (id : QuoteId) (value : Option α) : Thins m (m.assign id value) := by
  refine .of_eq rfl fun s => ?_
  rcases s with j | j | (j | j)
  case quote =>
    simp only [enrolment, registry?, assign, Slots.get?_modify]
    split
    · cases m.quotes.get? j <;> rfl
    · rfl
  all_goals rfl

theorem thins_newQuote (m : Market α) (value : Option α) :
    Thins m { m with quotes := m.quotes.add { value } } := by
  refine .of_eq rfl fun s => ?_
  rcases s with j | j | (j | j)
  case quote =>
    simp only [enrolment, registry?, Slots.get?_add]
    split
    · rename_i hj
      rw [Slots.get?_of_size_le hj.ge]
      rfl
    · rfl
  all_goals rfl

theorem thins_newObservable (m : Market α) : Thins m { m with observables := m.observables.add {} } := by
  refine .of_eq rfl fun s => ?_
  rcases s with j | j | (j | j)
  case observable =>
    simp only [enrolment, registry?, Slots.get?_add]
    split
    · rename_i hj
      rw [Slots.get?_of_size_le hj.ge]
      rfl
    · rfl
  all_goals rfl

theorem thins_newController (m : Market α) : Thins m { m with controllers := m.controllers.add {} } := by
  refine .of_eq rfl fun s => ?_
  rcases s with j | j | (j | j)
  case controller.own =>
    simp only [enrolment, registry?, controller?, Slots.get?_add]
    split
    · rename_i hj
      rw [Slots.get?_of_size_le hj.ge]
      rfl
    · rfl
  all_goals rfl

theorem thins_dropController (m : Market α) (i : Nat) :
    Thins m { m with controllers := m.controllers.clear i } := by
  refine ⟨rfl, fun s => ?_, fun _ _ _ _ _ ho => ho⟩
  rcases s with j | j | (j | j)
  case controller.own =>
    simp only [enrolment, registry?, controller?, Slots.get?_clear]
    split
    · exact List.nil_sublist _
    · exact .refl _
  all_goals exact .refl _

theorem thins_setReference (m : Market α) (i : Nat) (reference : Date) : Thins m (m.setReference i reference) := by
  unfold setReference
  cases m.curves.get? i with
  | none => exact .refl m
  | some c =>
    dsimp only
    split
    · exact .refl m
    · exact (thins_modify (f := fun c => { c with reference }) fun _ _ => ⟨rfl, rfl⟩).trans (thins_markDirty _ _)

/-! ### Operations that register -/

theorem Wired.watch (hm : m.Wired) (w : Watcher) (s : Subject) : (m.watch w.observer s).Wired := by
  refine hm.enrol s (Observer.owner?_watcher w) (fun r hr => nodup_register hr _) fun r o ho => ?_
  rw [Registry.mem_register]
  exact or_iff_left ho

theorem Wired.unwatch (hm : m.Wired) (w : Watcher) (s : Subject) : (m.unwatch w.observer s).Wired := by
  refine hm.enrol s (Observer.owner?_watcher w) (fun r hr => hr.filter _) fun r o ho => ?_
  rw [Registry.mem_unregister]
  exact and_iff_left ho

theorem enrolment_addPlace {c : PiecewiseCurve α} (hc : c.controller.observers = {}) (s : Subject) :
    ({ m with curves := m.curves.add c } : Market α).enrolment s = m.enrolment s := by
  rcases s with j | j | (j | j)
  case controller.curve =>
    simp only [enrolment, registry?, controller?, Slots.get?_add]
    split
    · rename_i hj
      rw [Slots.get?_of_size_le hj.ge]
      simp [hc]
    · rfl
  all_goals rfl

/-- A new curve has what belongs to it registered, with the quotes it is there for. -/
theorem mem_enrolment_addCurve {c : PiecewiseCurve α} (hc : c.controller.observers = {}) :
    o ∈ (m.addCurve c).enrolment (.quote id) ↔ o ∈ m.enrolment (.quote id) ∨
      (o.owner? = some m.curves.size ∧ o.Heeds c.sources id ∧ m.quotes.has id = true) := by
  rw [← and_assoc, Observer.heeds_iff]
  unfold addCurve
  cases he : c.effect with
  | none =>
    have hnone : c.sources.2 ≠ some id := by simp [PiecewiseCurve.sources, he]
    simp only [mem_enrolment_follow, enrolment_addPlace hc, hnone, and_false, or_false, and_assoc]
    rfl
  | some e =>
    have hsome : c.sources.2 = some id ↔ e.quote = id := by simp [PiecewiseCurve.sources, he]
    simp only [mem_enrolment_follow, mem_enrolment_watch, enrolment_addPlace hc, hsome, has_watch]
    change _ ↔ _ ∨ (_ = _ ∧ id ∈ c.helpers.map _ ∨ _) ∧ _
    tauto

theorem enrolment_addCurve {c : PiecewiseCurve α} (hc : c.controller.observers = {}) (hs : ∀ id, .quote id ≠ s) :
    (m.addCurve c).enrolment s = m.enrolment s :=
  ((enrols_addCurve m c).enrolment hs).trans (enrolment_addPlace hc s)

theorem Wired.addCurve (hm : m.Wired) {c : PiecewiseCurve α} (hc : c.controller.observers = {})
    (hq : ∀ id, id ∈ c.sources.1 ∨ c.sources.2 = some id → m.quotes.has id = true) : (m.addCurve c).Wired := by
  refine ⟨fun s => ?_, fun s hs o ho => ?_, fun id i o ho => ?_⟩
  · have hadd : ∀ s, (({ m with curves := m.curves.add c } : Market α).enrolment s).Nodup := fun s => by
      rw [enrolment_addPlace hc]
      exact hm.nodup s
    unfold Market.addCurve
    cases c.effect with
    | none => exact nodup_enrolment_follow hadd _ _ s
    | some e => exact nodup_enrolment_follow (nodup_enrolment_watch hadd _ _) _ _ s
  · rw [enrolment_addCurve hc hs] at ho
    exact hm.free s hs o ho
  · rw [mem_enrolment_addCurve hc, hm.exact id i o ho, ho]
    simp only [Market.sources, curves_addCurve, Slots.get?_add]
    by_cases hi : i = m.curves.size
    · -- The place was empty, so nothing of it was registered.
      subst hi
      have hheeds : o.Heeds c.sources id → m.quotes.has id = true := fun h =>
        hq id ((Observer.heeds_iff.mp ⟨ho, h⟩).imp And.right And.right)
      simp only [Slots.get?_of_size_le (Nat.le_refl _), if_true]
      constructor
      · rintro (⟨l, hl, -⟩ | ⟨-, h, -⟩)
        · cases hl
        · exact ⟨_, rfl, h⟩
      · rintro ⟨l, hl, h⟩
        cases hl
        exact .inr ⟨trivial, h, hheeds h⟩
    · simp only [if_neg hi]
      refine or_iff_left fun h => hi ?_
      simpa using h.1

/-- A curve that is dropped takes with it what belongs to it. -/
theorem mem_enrolment_dropCurve {c : PiecewiseCurve α} (hc : m.curves.get? i = some c) :
    o ∈ (m.dropCurve i).enrolment (.quote id) ↔
      o ∈ m.enrolment (.quote id) ∧ ¬(o.owner? = some i ∧ o.Heeds c.sources id) := by
  rw [Observer.heeds_iff]
  simp only [dropCurve, hc]
  cases he : c.effect with
  | none =>
    have hnone : c.sources.2 ≠ some id := by simp [PiecewiseCurve.sources, he]
    simp only [hnone, and_false, or_false]
    exact mem_enrolment_unfollow
  | some e =>
    have hsome : c.sources.2 = some id ↔ e.quote = id := by simp [PiecewiseCurve.sources, he]
    rw [hsome, not_or, ← and_assoc]
    exact mem_enrolment_unwatch.trans (and_congr_left fun _ => mem_enrolment_unfollow)

theorem sublist_clearPlace (m : Market α) (i : Nat) (s : Subject) :
    (({ m with curves := m.curves.clear i } : Market α).enrolment s).Sublist (m.enrolment s) := by
  rcases s with j | j | (j | j)
  case controller.curve =>
    simp only [enrolment, registry?, controller?, Slots.get?_clear]
    split
    · exact List.nil_sublist _
    · exact .refl _
  all_goals exact .refl _

theorem sublist_enrolment_dropCurve (m : Market α) (i : Nat) (s : Subject) :
    ((m.dropCurve i).enrolment s).Sublist (m.enrolment s) := by
  unfold dropCurve
  cases m.curves.get? i with
  | none => exact .refl _
  | some c =>
    have hu := sublist_enrolment_unfollow m (.controller (.curve i)) c.helpers s
    refine (sublist_clearPlace _ i s).trans ?_
    cases c.effect with
    | none => exact hu
    | some e => exact (sublist_enrolment_unwatch _ _ _ s).trans hu

theorem Wired.dropCurve (hm : m.Wired) (i : Nat) : (m.dropCurve i).Wired := by
  refine ⟨fun s => (hm.nodup s).sublist (sublist_enrolment_dropCurve m i s),
    fun s hs o ho => hm.free s hs o ((sublist_enrolment_dropCurve m i s).subset ho), fun id j o ho => ?_⟩
  cases hc : m.curves.get? i with
  | none =>
    have hd : m.dropCurve i = m := by simp only [Market.dropCurve, hc]
    rw [hd]
    exact hm.exact id j o ho
  | some c =>
    rw [mem_enrolment_dropCurve hc, hm.exact id j o ho, ho]
    simp only [Market.sources, curves_dropCurve hc, Slots.get?_clear]
    by_cases hj : i = j
    · subst hj
      simp [hc]
    · simp [hj, Ne.symm hj]

theorem enrolment_rehelp (m : Market α) (i : Nat) (helpers : List (MarketHelper α)) (s : Subject) :
    ({ m with curves := m.curves.modify i fun c => { c with helpers } } : Market α).enrolment s = m.enrolment s :=
  enrolment_modify (f := fun c => { c with helpers }) (fun _ _ => rfl) s

end

section
variable {α : Type} [Scalar α] {m : Market α} {s : Subject} {o : Observer} {i : Nat} {id : QuoteId}

/-- The market in which a curve has other helpers, before anyone is told. -/
def refollowed (m : Market α) (i : Nat) (c : PiecewiseCurve α) (helpers : List (MarketHelper α)) : Market α :=
  let n := m.unfollow (.controller (.curve i)) c.helpers
  let n := { n with curves := n.curves.modify i fun c => { c with helpers := MarketHelper.inOrder helpers } }
  n.follow (.controller (.curve i)) (MarketHelper.inOrder helpers)

theorem replaceHelpers_eq {c : PiecewiseCurve α} (hc : m.curves.get? i = some c) (helpers : List (MarketHelper α)) :
    m.replaceHelpers i helpers = (m.refollowed i c helpers).markDirty (.curve i) := by
  simp only [replaceHelpers, hc, refollowed]

theorem sources_refollowed {c : PiecewiseCurve α} (hc : m.curves.get? i = some c) (helpers : List (MarketHelper α))
    (j : Nat) : (m.refollowed i c helpers).sources j
      = if i = j then some ((MarketHelper.inOrder helpers).map (·.quote), c.effect.map (·.quote)) else m.sources j := by
  simp only [sources, refollowed, curves_follow, curves_unfollow, Slots.get?_modify]
  split
  · rename_i hij
    subst hij
    simp [hc, PiecewiseCurve.sources]
  · rfl

theorem mem_enrolment_refollowed {c : PiecewiseCurve α} {helpers : List (MarketHelper α)} :
    o ∈ (m.refollowed i c helpers).enrolment (.quote id) ↔
      (o ∈ m.enrolment (.quote id) ∧ ¬(o = .controller (.curve i) ∧ id ∈ c.sources.1)) ∨
        (o = .controller (.curve i) ∧ id ∈ (MarketHelper.inOrder helpers).map (·.quote) ∧
          m.quotes.has id = true) := by
  rw [refollowed, mem_enrolment_follow, enrolment_rehelp, mem_enrolment_unfollow]
  have hq := has_congr (Enrols.refl.unfollow (m := m) (.controller (.curve i)) c.helpers).board id
  rw [← hq]
  rfl

theorem enrolment_refollowed (hs : ∀ id, .quote id ≠ s) (c : PiecewiseCurve α) (helpers : List (MarketHelper α)) :
    (m.refollowed i c helpers).enrolment s = m.enrolment s := by
  rw [refollowed, (Enrols.refl.follow _ _).enrolment hs, enrolment_rehelp, (Enrols.refl.unfollow _ _).enrolment hs]

theorem Wired.refollowed (hm : m.Wired) {c : PiecewiseCurve α} (hc : m.curves.get? i = some c)
    {helpers : List (MarketHelper α)} (hq : ∀ h ∈ helpers, m.quotes.has h.quote = true) :
    (m.refollowed i c helpers).Wired := by
  refine ⟨fun s => ?_, fun s hs o ho => ?_, fun id j o ho => ?_⟩
  · refine nodup_enrolment_follow (fun t => ?_) _ _ s
    rw [enrolment_rehelp]
    exact (hm.nodup t).sublist (sublist_enrolment_unfollow m _ _ t)
  · rw [enrolment_refollowed hs] at ho
    exact hm.free s hs o ho
  · rw [mem_enrolment_refollowed, hm.exact id j o ho, sources_refollowed hc]
    by_cases hj : i = j
    · subst hj
      have hs : m.sources i = some c.sources := by simp [Market.sources, hc]
      have hq : id ∈ (MarketHelper.inOrder helpers).map (·.quote) → m.quotes.has id = true := by
        intro h
        obtain ⟨g, hg, rfl⟩ := List.mem_map.mp h
        exact hq g (List.mem_mergeSort.mp hg)
      rw [if_pos rfl, hs]
      rcases o with k | (k | k) | (k | k) <;> cases ho
      · -- The controller: what it was registered with for the old helpers is gone.
        simp only [Observer.Heeds, Option.some.injEq, exists_eq_left', true_and, false_or, and_not_self_iff]
        exact and_iff_left_of_imp hq
      · simp [Observer.Heeds, PiecewiseCurve.sources]
    · have ho' : o ≠ .controller (.curve i) := by
        rintro rfl
        exact hj (Option.some.inj ho)
      rw [if_neg hj]
      simp [ho']

end

section
variable {α : Type} [Scalar α] {m : Market α}

/-- The operation can register or unregister someone. -/
def Operation.registers : Operation α → Bool
  | .watch .. | .unwatch .. | .build _ | .drop _ | .replaceHelpers .. => true
  | _ => false

theorem thins_setQuote (m : Market α) (id : QuoteId) (value : Option α) : Thins m (m.setQuote id value).2 := by
  cases hq : m.quotes.get? id with
  | none =>
    rw [setQuote_of_none hq]
    exact .refl m
  | some q =>
    rw [setQuote_of_some hq]
    split
    · exact (thins_assign m id value).trans (thins_notify _ _)
    · exact thins_assign m id value

theorem thins_act {op : Operation α} (h : op.registers = false) : Thins m (m.act op) := by
  cases op with
  | watch | unwatch | build | drop | replaceHelpers => cases h
  | newQuote value => exact thins_newQuote m value
  | newObservable => exact thins_newObservable m
  | newController => exact thins_newController m
  | dropController j => exact thins_dropController m j
  | newCounter | dropCounter => exact .of_eq rfl fun s => by rcases s with j | j | (j | j) <;> rfl
  | setQuote id value => exact thins_setQuote m id value
  | notifyObservable j => exact thins_notify m _
  | notifyController j => exact thins_notify m _
  | update j => exact (spreads_tell m _).thins
  | markDirty j => exact thins_markDirty m _
  | ensureOwn j outcome =>
    rw [act, ensureOwn_eq]
    exact thins_control m _ fun c => c.observers_ensure outcome
  | recalculateOwn j outcome =>
    rw [act, recalculateOwn_eq]
    exact thins_control m _ fun c => c.advance.observers_ensure outcome
  | freeze x => exact thins_control m x fun _ => rfl
  | unfreeze x => exact thins_unfreeze m x
  | setReference j reference => exact thins_setReference m j reference
  | setExtrapolation j allow => exact thins_modify fun _ _ => ⟨rfl, rfl⟩
  | ensure j => exact thins_onCurve PiecewiseCurve.bound_ensure
  | recalculate j => exact thins_onCurve PiecewiseCurve.bound_recalculate
  | inspect j => exact thins_onCurve PiecewiseCurve.bound_ensure
  | query j r => exact thins_onCurve fun c => PiecewiseCurve.bound_runOn _ c

theorem Wired.act (hm : m.Wired) {op : Operation α} (ha : op.Admissible m) : (m.act op).Wired := by
  by_cases hr : op.registers = false
  · exact hm.thins (thins_act hr)
  cases op with
  | watch w s => exact hm.watch w s
  | unwatch w s => exact hm.unwatch w s
  | build spec =>
    simp only [Market.act, buildCurve]
    cases hb : spec.build with
    | error e => exact hm
    | ok c =>
      obtain rfl := build_eq hb
      refine hm.addCurve rfl fun id hid => ha id ?_
      rw [Operation.cited, List.mem_append]
      refine hid.imp (fun h => ?_) fun h => ?_
      · obtain ⟨g, hg, rfl⟩ := List.mem_map.mp h
        exact List.mem_map_of_mem (List.mem_mergeSort.mp hg)
      · simpa [PiecewiseCurve.sources] using h
  | drop j => exact hm.dropCurve j
  | replaceHelpers j helpers =>
    rw [Market.act]
    cases hc : m.curves.get? j with
    | none => simpa only [replaceHelpers, hc] using hm
    | some c =>
      rw [replaceHelpers_eq hc]
      exact (hm.refollowed hc fun g hg => ha _ (List.mem_map_of_mem hg)).thins (thins_markDirty _ _)
  | _ => exact absurd rfl hr

theorem Wired.leads {n : Market α} (hm : m.Wired) (h : Leads m n) : n.Wired := by
  induction h with
  | refl => exact hm
  | step op _ ha _ ih => exact ih.act ha

theorem Reachable.wired (h : Reachable m) : m.Wired := wired_empty.leads h

end

end Market

end TermStructure
