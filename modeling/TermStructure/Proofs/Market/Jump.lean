import TermStructure.Proofs.Calendar.Months
import TermStructure.Proofs.Market.Course

/-!
# Jumps

A curve keeps the time of its jump for the reference date it was last asked at, and works it out again for
another. So whatever dates a curve goes through, its jump is at the time it would have if nothing were kept,
and an answer is that of what is committed, times the factor after the jump.
-/

namespace TermStructure

open Market

theorem Date.endOfYear_eq (d : Date) : ∃ e, d.endOfYear = .ok e ∧ e.year = d.year ∧ e.month = 12 ∧ e.day = 31 := by
  have hday : IsDay d.year 12 31 := ⟨d.isDay.1, by decide, Nat.le_refl _⟩
  exact ⟨⟨d.year, 12, 31, hday⟩, by simp [endOfYear, ofParts, ofParts?, hday], rfl, rfl, rfl⟩

namespace TurnOfYear

variable {α : Type} {e e' : TurnOfYear α} {dayCount : DayCount} {reference jump : Date}

/-- The jump from a reference date falls on the date that is given, or else on the last day of the year. -/
def FallsOn (e : TurnOfYear α) (reference jump : Date) : Prop :=
  (∀ date, e.given = some date → jump = date) ∧
    (e.given = none → jump.year = reference.year ∧ jump.month = 12 ∧ jump.day = 31)

/-- A jump on the same quote at the same date, of which no more is kept than what is true. -/
structure Remembers (e : TurnOfYear α) [Scalar α] (dayCount : DayCount) (e' : TurnOfYear α) : Prop where
  quote : e'.quote = e.quote
  given : e'.given = e.given
  window : ∀ date time, e'.window = some (date, time) →
    ∃ jump, e.jumpDate date = .ok jump ∧ time = dayCount.yearFraction date jump

theorem exists_jumpDate (e : TurnOfYear α) (reference : Date) :
    ∃ jump, e.jumpDate reference = .ok jump ∧ e.FallsOn reference jump := by
  unfold jumpDate FallsOn
  cases e.given with
  | some date => exact ⟨date, rfl, fun _ h => Option.some.inj h, fun h => by cases h⟩
  | none =>
    obtain ⟨jump, hjump, hdate⟩ := reference.endOfYear_eq
    exact ⟨jump, hjump, (fun _ h => by cases h), fun _ => hdate⟩

variable [Scalar α]

theorem Remembers.jumpDate (h : e.Remembers dayCount e') (reference : Date) :
    e'.jumpDate reference = e.jumpDate reference := by
  unfold TurnOfYear.jumpDate
  rw [h.given]

theorem Remembers.factor (h : e.Remembers dayCount e') (quotes : QuoteId → Option α) :
    e'.factor quotes = e.factor quotes := by
  unfold TurnOfYear.factor
  rw [h.quote]

/-- The time of the jump is right, whether it was kept or is worked out. -/
theorem Remembers.jumpTime (h : e.Remembers dayCount e') (hjump : e.jumpDate reference = .ok jump) :
    ∃ e'', e'.jumpTime reference dayCount = (.ok (dayCount.yearFraction reference jump), e'') ∧
      e.Remembers dayCount e'' := by
  unfold TurnOfYear.jumpTime
  cases hk : e'.kept? reference with
  | some time =>
    obtain ⟨⟨date, time'⟩, hw, hd⟩ := Option.bind_eq_some_iff.mp hk
    dsimp only at hd
    by_cases hdate : date = reference
    · rw [if_pos hdate] at hd
      obtain ⟨jump', hjump', htime⟩ := h.window date time' hw
      rw [hdate, hjump] at hjump'
      cases hjump'
      refine ⟨e', ?_, h⟩
      rw [← Option.some.inj hd, htime, hdate]
    · rw [if_neg hdate] at hd
      cases hd
  | none =>
    rw [h.jumpDate, hjump]
    refine ⟨_, rfl, h.quote, h.given, fun date time hw => ?_⟩
    cases hw
    exact ⟨jump, hjump, rfl⟩

theorem Remembers.apply (h : e.Remembers dayCount e') (hjump : e.jumpDate reference = .ok jump)
    (quotes : QuoteId → Option α) (t value : α) :
    (e'.apply quotes t value reference dayCount).1
        = (if t > dayCount.yearFraction reference jump then (e.factor quotes).map (value * ·) else .ok value) ∧
      e.Remembers dayCount (e'.apply quotes t value reference dayCount).2 := by
  obtain ⟨e'', he, h''⟩ := h.jumpTime hjump
  unfold TurnOfYear.apply
  rw [he]
  dsimp only
  exact ⟨by rw [h''.factor], h''⟩

end TurnOfYear

namespace PiecewiseCurve

variable {α : Type} [Scalar α] {c d : PiecewiseCurve α} {config : CurveConfig α} {e : TurnOfYear α}
  {quotes : QuoteId → Option α} {i : Nat} {op : Operation α}

/-- The curve has these settings and this jump, and remembers of the jump what is true. -/
structure Carries (c : PiecewiseCurve α) (config : CurveConfig α) (e : TurnOfYear α) : Prop where
  settings : c.config = config
  effect : ∃ e', c.effect = some e' ∧ e.Remembers config.dayCount e'

theorem Carries.congr (h : c.Carries config e) (hc : d.config = c.config) (he : d.effect = c.effect) :
    d.Carries config e :=
  ⟨hc.trans h.settings, he ▸ h.effect⟩

theorem Carries.settle (h : c.Carries config e) (r : Except (CurveError α) (CommittedCurve α)) :
    (c.settle r).Carries config e := by
  cases r <;> exact h.congr rfl rfl

theorem Carries.ensure (h : c.Carries config e) (quotes : QuoteId → Option α) :
    (c.ensure quotes).2.Carries config e := by
  unfold PiecewiseCurve.ensure
  split
  · exact h
  · exact h.settle _

/-- The jump bears on all but the hazard rates. -/
theorem Carries.adjusts_iff (h : c.Carries config e) (p : Probe α) :
    c.adjusts p = true ↔ ¬(config.kind = .hazardRate ∧ p = .value p.time) := by
  cases p with
  | value t =>
    rw [adjusts, h.settings]
    cases config.kind <;> simp [CurveKind.isProbabilityLike, Probe.time]
  | discount t => simp [adjusts]

/-- The jump bears on an answer as it would if nothing were kept of it. -/
theorem Carries.adjust (h : c.Carries config e) {jump : Date} (hjump : e.jumpDate c.committed.reference = .ok jump)
    (quotes : QuoteId → Option α) (p : Probe α) (value : α) :
    (c.adjust quotes p value).1
        = (if c.adjusts p = true ∧ p.time > config.dayCount.yearFraction c.committed.reference jump then
            (e.factor quotes).map (value * ·)
          else .ok value) ∧
      (c.adjust quotes p value).2.Carries config e := by
  obtain ⟨e', he, hr⟩ := h.effect
  unfold PiecewiseCurve.adjust
  rw [he]
  dsimp only
  by_cases ha : c.adjusts p = true
  · rw [if_pos ha, h.settings]
    obtain ⟨hresult, hr'⟩ := hr.apply hjump quotes p.time value
    refine ⟨?_, rfl, _, rfl, hr'⟩
    simp only [hresult, ha, true_and]
  · rw [if_neg ha, if_neg fun h => ha h.1]
    exact ⟨rfl, h⟩

theorem Carries.answer (h : c.Carries config e) (quotes : QuoteId → Option α) (p : Probe α) :
    (c.answer quotes p).2.Carries config e := by
  have hd := h.ensure quotes
  unfold PiecewiseCurve.answer
  rcases hx : c.ensure quotes with ⟨x | x, d⟩
  · rw [hx] at hd
    exact hd
  · rw [hx] at hd
    dsimp only
    split
    · exact hd
    · obtain ⟨jump, hjump, -⟩ := e.exists_jumpDate d.committed.reference
      exact (hd.adjust hjump quotes p _).2

theorem Carries.runOn {β : Type} (r : Reading α β) (h : c.Carries config e) :
    (r.runOn (fun c p => c.answer quotes p) c).2.Carries config e := by
  induction r generalizing c with
  | done result => exact h
  | ask p next ih => exact ih _ (h.answer quotes p)

/-- Whatever is done to it, a curve keeps its settings and its jump. -/
theorem Carries.after (h : c.Carries config e) (hd : c.after i quotes op = some d) : d.Carries config e := by
  cases op with
  | drop j =>
    simp only [PiecewiseCurve.after] at hd
    split at hd <;> cases hd
    exact h
  | setQuote | freeze | unfreeze | setReference | replaceHelpers | setExtrapolation =>
    cases hd
    split
    · exact h.congr rfl rfl
    · exact h
  | ensure | inspect =>
    cases hd
    split
    · exact h.ensure quotes
    · exact h
  | recalculate =>
    cases hd
    split
    · have ha : (c.control (·.advance)).Carries config e := h.congr rfl rfl
      exact ha.ensure quotes
    · exact h
  | query j r =>
    cases hd
    split
    · exact h.runOn _
    · exact h
  | _ =>
    cases hd
    exact h

/-- What a solved curve answers. -/
theorem Carries.answer_eq (h : c.Carries config e) (hd : c.ensure quotes = (.ok (), d)) {jump : Date}
    (hjump : e.jumpDate d.committed.reference = .ok jump) (p : Probe α) :
    (c.answer quotes p).1 = (d.committed.answer d.extrapolates p).bind fun value =>
      if d.adjusts p = true ∧ p.time > config.dayCount.yearFraction d.committed.reference jump then
        (e.factor quotes).map (value * ·)
      else .ok value := by
  have hc := h.ensure quotes
  rw [hd] at hc
  unfold PiecewiseCurve.answer
  rw [hd]
  dsimp only
  cases d.committed.answer d.extrapolates p with
  | error err => rfl
  | ok value => exact (hc.adjust hjump quotes p value).1

theorem Carries.heard (h : c.Carries config e) (hd : c.Heard 0 d) : d.Carries config e := by
  obtain ⟨k, -, rfl⟩ := hd
  exact h.congr rfl rfl

theorem extrapolates_of_ensure {r : Except (CurveError α) Unit} (hd : c.ensure quotes = (r, d)) :
    d.extrapolates = c.extrapolates := by
  have hc : (c.ensure quotes).2.extrapolates = c.extrapolates := by
    unfold PiecewiseCurve.ensure
    split
    · rfl
    · cases c.solve quotes <;> rfl
  rwa [hd] at hc

end PiecewiseCurve

namespace Market

variable {α : Type} [Scalar α] {m n : Market α} {i : Nat} {spec : CurveSpec α} {b c : PiecewiseCurve α}
  {e : TurnOfYear α}

/-- A curve is built at the place after all others. -/
theorem get?_act_build (m : Market α) (hb : spec.build = .ok b) :
    (m.act (.build spec)).curves.get? m.curves.size = some b := by
  simp only [act, buildCurve, hb, Except.map, Except.toOption, Option.getD_some, curves_addCurve, Slots.get?_add,
    if_true]

/-- A curve that was built with a jump keeps it. -/
theorem Leads.carries (hm : Reachable m) (ha : (Operation.build spec).Admissible m) (hb : spec.build = .ok b)
    (he : spec.effect = some e) (hw : e.window = none) (hl : Leads (m.act (.build spec)) n)
    (hc : n.curves.get? m.curves.size = some c) : c.Carries spec.config e := by
  have hcarries : b.Carries spec.config e := by
    rw [build_eq hb]
    exact ⟨rfl, e, he, rfl, rfl, fun _ _ h => by rw [hw] at h; cases h⟩
  have hkept (c d d' : PiecewiseCurve α) (quotes : QuoteId → Option α) (op : Operation α)
      (h : c.Carries spec.config e) (hd : c.after m.curves.size quotes op = some d) (hd' : d.Heard 0 d') :
      d'.Carries spec.config e := (h.after hd).heard hd'
  exact hl.curve hkept (hm.wired.act ha) (get?_act_build m hb) hcarries hc

/-- A question is answered as the curve answers it. -/
theorem readCurve_ask (hc : n.curves.get? i = some c) (p : Probe α) :
    (n.readCurve i fun _ => .ask p .done).map (·.1) = some (c.answer n.values p).1 := by
  simp only [readCurve, onCurve, hc, Option.map_some, PiecewiseCurve.read, Reading.runOn]

end Market

end TermStructure
