import TermStructure.Proofs.Market.Memoization
import TermStructure.Proofs.Market.News

/-!
# The course of one curve

What an operation makes of a curve is decided by the curve and by the values of the quotes of its helpers.
Other curves and other observers have no part in it: they are told after the curve, and tell it nothing.
-/

namespace TermStructure

open Market

namespace PiecewiseCurve

section
variable {α : Type} {c d e : PiecewiseCurve α}

/-- The curves differ in nothing but who observes them and what is known of the jump. -/
def Resembles (c d : PiecewiseCurve α) : Prop :=
  ∃ observers effect, d = { c with controller := { c.controller with observers }, effect }

theorem Resembles.refl (c : PiecewiseCurve α) : c.Resembles c := ⟨_, _, rfl⟩

theorem Resembles.trans (h : c.Resembles d) (h' : d.Resembles e) : c.Resembles e := by
  obtain ⟨_, _, rfl⟩ := h
  obtain ⟨r, f, rfl⟩ := h'
  exact ⟨r, f, rfl⟩

theorem Resembles.symm (h : c.Resembles d) : d.Resembles c := by
  obtain ⟨_, _, rfl⟩ := h
  exact ⟨c.controller.observers, c.effect, rfl⟩

theorem Resembles.same (h : c.Resembles d) : c.Same d := by
  obtain ⟨_, _, rfl⟩ := h
  exact ⟨rfl, rfl, rfl, rfl, rfl⟩

theorem Heard.resembles (h : c.Heard 0 d) : c.Resembles d := by
  obtain ⟨k, hk, rfl⟩ := h
  exact ⟨k.observers, c.effect, congrArg (fun k => { c with controller := k }) hk⟩

end

variable {α : Type} [Scalar α] {c d : PiecewiseCurve α} {quotes : QuoteId → Option α}

/-- The operation gives a quote that some helper of the curve is calibrated to another value. -/
def isTold (c : PiecewiseCurve α) (quotes : QuoteId → Option α) : Operation α → Bool
  | .setQuote id value => c.uses id && ({ value := quotes id } : Quote α).changes value
  | _ => false

/-- What an operation leaves of the curve at place `i`, at given values of the quotes. -/
def after (c : PiecewiseCurve α) (i : Nat) (quotes : QuoteId → Option α) :
    Operation α → Option (PiecewiseCurve α)
  | .setQuote id value => some (if c.isTold quotes (.setQuote id value) then c.control (·.hear) else c)
  | .freeze x => some (if x = .curve i then c.control (·.freeze) else c)
  | .unfreeze x => some (if x = .curve i then c.control (·.release) else c)
  | .drop j => if j = i then none else some c
  | .setReference j reference => some (if j = i ∧ c.reference ≠ reference then c.moved reference else c)
  | .replaceHelpers j helpers => some (if j = i then c.rehelped helpers else c)
  | .setExtrapolation j allow => some (if j = i then { c with extrapolates := allow } else c)
  | .ensure j => some (if j = i then (c.ensure quotes).2 else c)
  | .recalculate j => some (if j = i then (c.recalculate quotes).2 else c)
  | .inspect j => some (if j = i then (c.inspect quotes).2 else c)
  | .query j r => some (if j = i then (c.read quotes r).2 else c)
  | _ => some c

/-! ### What a reading leaves -/

theorem resembles_adjust (c : PiecewiseCurve α) (p : Probe α) (value : α) :
    c.Resembles (c.adjust quotes p value).2 := by
  unfold adjust
  cases c.effect with
  | none => exact .refl c
  | some e =>
    dsimp only
    split
    · exact ⟨_, _, rfl⟩
    · exact .refl c

theorem resembles_answer (c : PiecewiseCurve α) (p : Probe α) :
    (c.ensure quotes).2.Resembles (c.answer quotes p).2 := by
  unfold answer
  rcases c.ensure quotes with ⟨x | x, d⟩
  · exact .refl d
  · dsimp only
    split
    · exact .refl d
    · exact resembles_adjust d p _

/-- What is known of a solve is how it ended. -/
theorem verdict?_ensure (c : PiecewiseCurve α) (quotes : QuoteId → Option α) :
    (c.ensure quotes).2.controller.verdict? = some (c.ensure quotes).1 := by
  unfold PiecewiseCurve.ensure
  cases hv : c.controller.verdict? with
  | some r => exact hv
  | none => exact verdict?_settle hv _

theorem isSome_verdict?_ensure (c : PiecewiseCurve α) :
    (c.ensure quotes).2.controller.verdict?.isSome = true :=
  Option.isSome_of_eq_some (verdict?_ensure c quotes)

theorem ensure_of_isSome (h : c.controller.verdict?.isSome = true) (quotes : QuoteId → Option α) :
    (c.ensure quotes).2 = c := by
  obtain ⟨r, hr⟩ := Option.isSome_iff_exists.mp h
  rw [ensure_of_verdict hr]

/-- Questions to a curve that knows its verdict bear on what is known of the jump alone. -/
theorem resembles_runOn {β : Type} (r : Reading α β) (h : c.controller.verdict?.isSome = true) :
    c.Resembles (r.runOn (fun c p => c.answer quotes p) c).2 := by
  induction r generalizing c with
  | done result => exact .refl c
  | ask p next ih =>
    have hc : (c.ensure quotes).2.Resembles (c.answer quotes p).2 := resembles_answer c p
    rw [ensure_of_isSome h] at hc
    exact hc.trans (ih _ (hc.same.verdict? ▸ h))

/-- A computation that asks a question has the nodes brought up to date, and does nothing more. -/
theorem resembles_read {β : Type} (c : PiecewiseCurve α) (quotes : QuoteId → Option α) (r : Frame → Reading α β) :
    (if (r c.frame).asks then (c.ensure quotes).2 else c).Resembles (c.read quotes r).2 := by
  unfold PiecewiseCurve.read
  cases r c.frame with
  | done result => exact .refl c
  | ask p next =>
    have hc : (c.ensure quotes).2.Resembles (c.answer quotes p).2 := resembles_answer c p
    have hv : (c.ensure quotes).2.controller.verdict?.isSome = true := isSome_verdict?_ensure c
    exact hc.trans (resembles_runOn _ (hc.same.verdict? ▸ hv))

end PiecewiseCurve

namespace Market

section
variable {α : Type} {m n : Market α} {i : Nat} {c : PiecewiseCurve α}

theorem get?_control (m : Market α) (x : ControllerId) (f : Controller α → Controller α) (i : Nat) :
    (m.control x f).curves.get? i
      = if x = .curve i then (m.curves.get? i).map (·.control f) else m.curves.get? i := by
  cases x with
  | own j => rfl
  | curve j => simp only [control, Slots.get?_modify, ControllerId.curve.injEq]

theorem ne_of_none {j : Nat} (hj : m.curves.get? j = none) (hc : m.curves.get? i = some c) : j ≠ i := by
  rintro rfl
  rw [hj] at hc
  cases hc

/-- Whoever is told by what belongs to no curve, no curve is. -/
theorem hears_tell_free (hm : m.Wired) (i : Nat) {o : Observer} (ho : o.owner? = none) : Hears i 0 m (m.tell [o]) := by
  have hcount : ([o].flatMap (m.chain m.depth)).count (.controller (.curve i)) = 0 := by
    rw [depth, count_flatMap_chain hm rfl, List.count_eq_zero, List.mem_singleton]
    rintro rfl
    cases ho
  rw [← hcount]
  exact hears_foldl_deliver m i _

theorem hears_markDirty (hm : m.Wired) (x : ControllerId) (i : Nat) :
    Hears i 0 (m.control x (·.advance)) (m.markDirty x) :=
  hears_nothing (hm.thins (thins_control m x (f := (·.advance)) fun _ => rfl)) i nofun

theorem hears_unfreeze (hm : m.Wired) (x : ControllerId) (i : Nat) :
    Hears i 0 (m.control x (·.release)) (m.unfreeze x) := by
  rcases unfreeze_eq m x with h | h <;> rw [h]
  · exact .refl _
  · exact hears_nothing (hm.thins (thins_control m x Controller.observers_release)) i nofun

theorem get?_onCurve_eq {β : Type} {f : PiecewiseCurve α → (QuoteId → Option α) → β × PiecewiseCurve α} (j : Nat)
    (hc : m.curves.get? i = some c) :
    (((m.onCurve j f).map (·.2)).getD m).curves.get? i = some (if j = i then (f c m.values).2 else c) := by
  split
  · rename_i hji
    subst hji
    exact get?_onCurve hc
  · rename_i hji
    unfold onCurve
    cases m.curves.get? j with
    | none => exact hc
    | some d => exact (Slots.get?_modify ..).trans ((if_neg hji).trans hc)

/-- No helper has a quote that is not there. -/
theorem quote_of_uses (hm : m.Wired) (hc : m.curves.get? i = some c) {id : QuoteId} (hu : c.uses id = true) :
    ∃ q, m.quotes.get? id = some q := by
  have hmem : .controller (.curve i) ∈ m.enrolment (.quote id) :=
    (controller_mem_enrolment hm).mpr (by simpa [hc] using hu)
  cases hq : m.quotes.get? id with
  | none => simp [enrolment, registry?, hq] at hmem
  | some q => exact ⟨q, rfl⟩

/-- What is at place `i` of a market is what is left of a curve, whoever observes it. -/
def Holds (m : Market α) (i : Nat) (left : Option (PiecewiseCurve α)) : Prop :=
  Option.Rel (PiecewiseCurve.Heard 0) left (m.curves.get? i)

theorem holds_of_eq {left : Option (PiecewiseCurve α)} (h : m.curves.get? i = left) : m.Holds i left := by
  rw [Holds, h]
  cases left with
  | none => exact .none
  | some c => exact .some (.refl c)

theorem Holds.exists_heard (h : m.Holds i (some c)) : ∃ d, m.curves.get? i = some d ∧ c.Heard 0 d := by
  unfold Holds at h
  generalize m.curves.get? i = d at h
  cases h with | some h => exact ⟨_, rfl, h⟩

theorem Holds.exists_left {left : Option (PiecewiseCurve α)} {d : PiecewiseCurve α} (h : m.Holds i left)
    (hd : m.curves.get? i = some d) : ∃ c, left = some c ∧ c.Heard 0 d := by
  rw [Holds, hd] at h
  cases h with | some h => exact ⟨_, rfl, h⟩

theorem Holds.hears {left : Option (PiecewiseCurve α)} (h : m.curves.get? i = left) (hn : Hears i 0 m n) :
    n.Holds i left :=
  h ▸ hn

theorem holds_freeze (hc : m.curves.get? i = some c) (x : ControllerId) :
    (m.freeze x).Holds i (some (if x = .curve i then c.control (·.freeze) else c)) := by
  refine holds_of_eq ?_
  rw [Market.freeze, get?_control, hc]
  split <;> rfl

theorem holds_unfreeze (hm : m.Wired) (hc : m.curves.get? i = some c) (x : ControllerId) :
    (m.unfreeze x).Holds i (some (if x = .curve i then c.control (·.release) else c)) := by
  refine .hears ?_ (hears_unfreeze hm x i)
  rw [get?_control, hc]
  split <;> rfl

theorem holds_drop (hc : m.curves.get? i = some c) (j : Nat) :
    (m.dropCurve j).Holds i (if j = i then none else some c) := by
  refine holds_of_eq ?_
  cases hj : m.curves.get? j with
  | none =>
    have hji := ne_of_none hj hc
    rw [if_neg hji]
    simpa only [dropCurve, hj] using hc
  | some d => rw [curves_dropCurve hj, Slots.get?_clear, hc]

/-- Only another reference date than the present one moves a curve. -/
theorem holds_setReference (hm : m.Wired) (hc : m.curves.get? i = some c) (j : Nat) (reference : Date) :
    (m.setReference j reference).Holds i
      (some (if j = i ∧ c.reference ≠ reference then c.moved reference else c)) := by
  unfold setReference
  cases hj : m.curves.get? j with
  | none =>
    have hji := ne_of_none hj hc
    rw [if_neg (hji ·.1)]
    exact holds_of_eq hc
  | some d =>
    dsimp only
    by_cases hr : d.reference = reference
    · have hkeep : ¬(j = i ∧ c.reference ≠ reference) := by
        rintro ⟨rfl, hne⟩
        rw [hj] at hc
        cases hc
        exact hne hr
      rw [if_pos hr, if_neg hkeep]
      exact holds_of_eq hc
    · rw [if_neg hr]
      have hn : ({ m with curves := m.curves.modify j fun c => { c with reference } } : Market α).Wired :=
        hm.thins (thins_modify fun _ _ => ⟨rfl, rfl⟩)
      refine .hears ?_ (hears_markDirty hn (.curve j) i)
      simp only [get?_control, Slots.get?_modify, ControllerId.curve.injEq]
      by_cases hji : j = i
      · subst hji
        rw [hj] at hc
        cases hc
        rw [if_pos rfl, if_pos rfl, if_pos ⟨rfl, hr⟩, hj]
        rfl
      · rw [if_neg hji, if_neg hji, if_neg (hji ·.1)]
        exact hc

theorem holds_setExtrapolation (hc : m.curves.get? i = some c) (j : Nat) (allow : Bool) :
    (m.setExtrapolation j allow).Holds i (some (if j = i then { c with extrapolates := allow } else c)) := by
  refine holds_of_eq ?_
  rw [setExtrapolation, Slots.get?_modify, hc]
  split <;> rfl

end

variable {α : Type} [Scalar α] {m n : Market α} {i : Nat} {c d : PiecewiseCurve α} {op : Operation α}

theorem isTold_of_some {id : QuoteId} {q : Quote α} (hq : m.quotes.get? id = some q) (value : Option α) :
    c.isTold m.values (.setQuote id value) = (c.uses id && q.changes value) := by
  have hv : m.values id = q.value := by simp [values, hq]
  rw [PiecewiseCurve.isTold, hv]
  rfl

theorem holds_setQuote (hm : m.Wired) (hc : m.curves.get? i = some c) (id : QuoteId) (value : Option α) :
    (m.setQuote id value).2.Holds i
      (some (if c.isTold m.values (.setQuote id value) then c.control (·.hear) else c)) := by
  cases hq : m.quotes.get? id with
  | none =>
    have hu : c.uses id = false := Bool.eq_false_iff.mpr fun hu => by
      obtain ⟨q, hq'⟩ := quote_of_uses hm hc hu
      rw [hq] at hq'
      cases hq'
    rw [setQuote_of_none hq, PiecewiseCurve.isTold, hu, Bool.false_and, if_neg Bool.false_ne_true]
    exact holds_of_eq hc
  | some q =>
    rw [setQuote_of_some hq, isTold_of_some hq]
    cases q.changes value with
    | false =>
      rw [Bool.and_false, if_neg Bool.false_ne_true, if_neg Bool.false_ne_true]
      exact holds_of_eq hc
    | true =>
      have ha : (m.assign id value).curves.get? i = some c := hc
      have hh := hears_quote (hm.thins (thins_assign m id value)) i id
      rw [Bool.and_true, if_pos rfl]
      simp only [Hears, ha, Option.any_some, Holds] at hh ⊢
      generalize ((m.assign id value).notify (.quote id)).curves.get? i = d at hh ⊢
      cases hh with | some hh =>
      obtain ⟨k, hk, rfl⟩ := hh
      revert hk
      cases c.uses id <;> intro hk <;> exact .some ⟨k, hk, rfl⟩

/-- A new curve takes a place of its own. -/
theorem holds_build (hc : m.curves.get? i = some c) (spec : CurveSpec α) : (m.act (.build spec)).Holds i (some c) := by
  refine holds_of_eq ?_
  rw [act, buildCurve]
  cases spec.build with
  | error e => exact hc
  | ok d =>
    have hi := Slots.lt_size_of_get? hc
    simp only [Except.map, Except.toOption, Option.getD_some, curves_addCurve, Slots.get?_add,
      if_neg (Nat.ne_of_lt hi), hc]

theorem holds_replaceHelpers (hm : m.Wired) (hc : m.curves.get? i = some c) (j : Nat)
    {helpers : List (MarketHelper α)} (hhelpers : ∀ h ∈ helpers, m.quotes.has h.quote = true) :
    (m.replaceHelpers j helpers).Holds i (some (if j = i then c.rehelped helpers else c)) := by
  cases hj : m.curves.get? j with
  | none =>
    have hji := ne_of_none hj hc
    rw [if_neg hji]
    refine holds_of_eq ?_
    simpa only [replaceHelpers, hj] using hc
  | some d =>
    have hn := hm.refollowed hj hhelpers
    rw [replaceHelpers_eq hj]
    refine .hears ?_ (hears_markDirty hn (.curve j) i)
    simp only [refollowed, get?_control, curves_follow, curves_unfollow, Slots.get?_modify,
      ControllerId.curve.injEq, hc]
    split <;> rfl

/-- An operation leaves of a curve what the curve itself and the values of the quotes say. -/
theorem holds_act (hm : m.Wired) (ha : op.Admissible m) (hc : m.curves.get? i = some c) :
    (m.act op).Holds i (c.after i m.values op) := by
  cases op with
  | setQuote id value => exact holds_setQuote hm hc id value
  | watch w s => exact .hears hc (hears_enrol m s _)
  | unwatch w s => exact .hears hc (hears_enrol m s _)
  | notifyObservable j => exact .hears hc (hears_nothing hm i nofun)
  | notifyController j => exact .hears hc (hears_nothing hm i nofun)
  | update j => exact .hears hc (hears_tell_free hm i rfl)
  | markDirty j => exact .hears hc (hears_markDirty hm (.own j) i)
  | ensureOwn j outcome => exact holds_of_eq (by rwa [act, ensureOwn_eq])
  | recalculateOwn j outcome => exact holds_of_eq (by rwa [act, recalculateOwn_eq])
  | freeze x => exact holds_freeze hc x
  | unfreeze x => exact holds_unfreeze hm hc x
  | build spec => exact holds_build hc spec
  | drop j => exact holds_drop hc j
  | setReference j reference => exact holds_setReference hm hc j reference
  | replaceHelpers j helpers => exact holds_replaceHelpers hm hc j fun h hh => ha _ (List.mem_map_of_mem hh)
  | setExtrapolation j allow => exact holds_setExtrapolation hc j allow
  | ensure j | recalculate j | inspect j | query j r => exact holds_of_eq (get?_onCurve_eq j hc)
  | newQuote | newObservable | newCounter | newController | dropCounter | dropController => exact holds_of_eq hc

/-- What an operation keeps of a curve, whoever observes it, is kept as long as the curve is there. -/
theorem Leads.curve {P : PiecewiseCurve α → Prop}
    (hP : ∀ c d e quotes op, P c → c.after i quotes op = some d → d.Heard 0 e → P e) (hm : m.Wired)
    (hc : m.curves.get? i = some c) (hPc : P c) (hl : Leads m n) (hd : n.curves.get? i = some d) : P d := by
  induction hl generalizing d with
  | refl =>
    rw [hc] at hd
    cases hd
    exact hPc
  | @step k op hl ha hends ih =>
    have hk : k.Wired := hm.leads hl
    cases hb : k.curves.get? i with
    | none =>
      have hlt := Nat.lt_of_lt_of_le (Slots.lt_size_of_get? hc) hl.size_le
      have hleft := (Leads.refl.step op ha hends).get?_of_left hlt hb
      rw [hleft.2] at hd
      cases hd
    | some b =>
      obtain ⟨b', hb', hd'⟩ := (holds_act hk ha hb).exists_left hd
      exact hP _ _ _ _ _ (ih hb) hb' hd'

end Market

end TermStructure
