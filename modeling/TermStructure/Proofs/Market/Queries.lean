import TermStructure.Proofs.Curve.Range
import TermStructure.Proofs.Instrument.Readings
import TermStructure.Proofs.Market.Freshness
import TermStructure.Proofs.Market.Jump
import TermStructure.Proofs.Market.Snapshots

/-!
# The range of queries

The curve that a bootstrap returns refuses what lies beyond its nodes, even if some helper had to read there
while it was solved. A curve of a market lets its user decide, and the decision bears on which questions are
answered, and on nothing else.
-/

namespace TermStructure

section
variable {α : Type} [Scalar α]

/-! ### The curve that is returned -/

/-- No pillar is before time zero. -/
theorem Pillar.nonneg_of_check [LawfulDifference α] [LawfulComparison α] {index : Nat} {previous : α}
    {pillars : List (Pillar α)} (h : check index previous pillars = .ok ()) : ∀ p ∈ pillars, 0 ≤ p.time := by
  induction pillars generalizing index previous with
  | nil =>
    intro p hp
    cases hp
  | cons q rest ih =>
    obtain ⟨hfinite, -, hrest⟩ := check_cons h
    intro p hp
    rcases List.mem_cons.mp hp with rfl | hp
    · refine LawfulComparison.le_of_not_lt hfinite LawfulDifference.isFinite_zero fun hneg => ?_
      unfold check at h
      rw [if_pos (by simp [hneg])] at h
      cases h
    · exact ih hrest p hp

variable [LawfulOrder α] [LawfulDifference α] [LawfulComparison α]

theorem BootstrapPlan.maxTime_nonneg {inputs : BootstrapInputs α} {config : BootstrapConfig α} {solver : RootFinder α}
    {plan : BootstrapPlan α} (hmake : make inputs config solver = .ok plan) : 0 ≤ plan.times.getLastD 0 := by
  obtain ⟨-, hcheck, -, -⟩ := make_ok hmake
  have hlast : plan.times.getLastD 0 = (plan.pillars.map (·.time)).getLastD 0 := List.getLastD_cons
  rw [hlast]
  rcases List.mem_cons.mp (List.getLastD_mem_cons (l := plan.pillars.map (·.time)) (a := 0)) with hzero | hpillar
  · rw [hzero]
    exact LawfulComparison.le_refl LawfulDifference.isFinite_zero
  · obtain ⟨p, hp, htime⟩ := List.mem_map.mp hpillar
    rw [← htime]
    exact Pillar.nonneg_of_check hcheck p hp

/-- The curve that a bootstrap returns refuses what lies beyond its nodes, whatever was allowed on the way. -/
theorem strict_of_bootstrap {inputs : BootstrapInputs α} {config : BootstrapConfig α} {solver : RootFinder α}
    {o : BootstrapOutcome α} (hkeeps : inputs.scheme.KeepsNodes) (h : bootstrap inputs config solver = .ok o) :
    o.curve.Strict o.nodes.maxTime := by
  obtain ⟨plan, hmake, hrun⟩ := bootstrap_ok h
  obtain ⟨d, curve, report, -, -, hcurve, hpublish⟩ := BootstrapPlan.run_published hrun
  obtain ⟨f, hf, rfl⟩ := BootstrapPlan.curveOver_ok hcurve
  obtain rfl := BootstrapPlan.publish_ok hpublish
  obtain ⟨hplan, -⟩ := BootstrapPlan.make_ok hmake
  have hscheme : plan.scheme = inputs.scheme := by rw [hplan]
  rw [hscheme] at hf
  have hxs : f.xs = plan.times := (hkeeps _ _ _ hf).1
  have hlow : f.low = 0 := congrArg (·.headD 0) hxs
  have hhigh : f.high = plan.times.getLastD 0 := congrArg (·.getLastD 0) hxs
  have hnonneg : 0 ≤ f.high := hhigh ▸ BootstrapPlan.maxTime_nonneg hmake
  have hstrict : NodeCurve.Strict ⟨plan.frame, f, false⟩ f.high := NodeCurve.strict_of_anchored rfl hlow hnonneg
  rw [hhigh] at hstrict
  exact hstrict

end

/-! ### The memory of a jump -/

namespace TurnOfYear

variable {α : Type} [Scalar α]

/-- The time of the jump is the same when it is asked for again at the same reference date, and no more is kept of it. -/
theorem jumpTime_again (e : TurnOfYear α) (reference : Date) (dayCount : DayCount) :
    (e.jumpTime reference dayCount).2.jumpTime reference dayCount = e.jumpTime reference dayCount := by
  cases hk : e.kept? reference with
  | some time =>
    have he : e.jumpTime reference dayCount = (.ok time, e) := by simp only [jumpTime, hk]
    rw [he, he]
  | none =>
    cases hj : e.jumpDate reference with
    | error error =>
      have he : e.jumpTime reference dayCount = (.error (.calendar error), e) := by simp only [jumpTime, hk, hj]
      rw [he, he]
    | ok date =>
      have he : e.jumpTime reference dayCount = (.ok (dayCount.yearFraction reference date),
          { e with
            window := some (reference, dayCount.yearFraction reference date)
            recomputations := e.recomputations + 1 }) := by
        simp only [jumpTime, hk, hj]
      rw [he]
      simp [jumpTime, kept?]

theorem apply_jumpTime (e : TurnOfYear α) (quotes : QuoteId → Option α) (t value : α) (reference : Date)
    (dayCount : DayCount) :
    (e.jumpTime reference dayCount).2.apply quotes t value reference dayCount
      = e.apply quotes t value reference dayCount := by
  unfold apply
  rw [jumpTime_again]

end TurnOfYear

namespace PiecewiseCurve

variable {α : Type} [Scalar α] {c d d' : PiecewiseCurve α} {quotes : QuoteId → Option α} {curve : NodeCurve α}
  {high : α}

/-- A jump bears on an answer as if no other had been given before. -/
theorem adjust_again (c : PiecewiseCurve α) (quotes : QuoteId → Option α) (p q : Probe α) (value value' : α) :
    ((c.adjust quotes p value).2.adjust quotes q value').1 = (c.adjust quotes q value').1 := by
  cases he : c.effect with
  | none =>
    have hc : (c.adjust quotes p value).2 = c := by simp only [adjust, he]
    rw [hc]
  | some e =>
    by_cases ha : c.adjusts p = true
    · have hc : (c.adjust quotes p value).2
          = { c with effect := some (e.jumpTime c.committed.reference c.config.dayCount).2 } := by
        simp only [adjust, he, if_pos ha, TurnOfYear.apply_snd]
      have hadjusts : PiecewiseCurve.adjusts
          { c with effect := some (e.jumpTime c.committed.reference c.config.dayCount).2 } q = c.adjusts q := by
        cases q <;> rfl
      rw [hc]
      by_cases hq : c.adjusts q = true
      · simp only [adjust, he, hadjusts, if_pos hq, TurnOfYear.apply_jumpTime]
      · simp only [adjust, he, hadjusts, if_neg hq]
    · have hc : (c.adjust quotes p value).2 = c := by simp only [adjust, he, if_neg ha]
      rw [hc]

/-! ### Questions to a solved curve -/

/-- The answer to a question about a time that is in range, over nodes from time zero to `high`. -/
def withinRange (allow : Bool) (high : α) (adjusted : Probe α → Except (CurveError α) α) (p : Probe α) :
    Except (CurveError α) α := do
  NodeCurve.rangeRule allow high p.time
  adjusted p

section
variable {allow : Bool} {adjusted : Probe α → Except (CurveError α) α} {p : Probe α}

theorem withinRange_of_ok (h : NodeCurve.rangeRule allow high p.time = .ok ()) :
    withinRange allow high adjusted p = adjusted p := by
  unfold withinRange
  rw [h]
  rfl

theorem withinRange_of_error {e : CurveError α} (h : NodeCurve.rangeRule allow high p.time = .error e) :
    withinRange allow high adjusted p = .error e := by
  unfold withinRange
  rw [h]
  rfl

end

/-- What a solved curve says if it may: what its nodes say, with the jump. -/
def adjusted (d : PiecewiseCurve α) (quotes : QuoteId → Option α) (curve : NodeCurve α) (p : Probe α) :
    Except (CurveError α) α :=
  (d.adjust quotes p (curve.saying p)).1

/-- The solved curve after questions to it: only what is kept of the jump has changed, and the jump has not. -/
structure Asked (d : PiecewiseCurve α) (quotes : QuoteId → Option α) (d' : PiecewiseCurve α) : Prop where
  resembles : d.Resembles d'
  adjust : ∀ p value, (d'.adjust quotes p value).1 = (d.adjust quotes p value).1

theorem Asked.answer (h : d.Asked quotes d') (hv : d.controller.verdict? = some (.ok ()))
    (hcurve : d.committed.curve = some curve) (hstrict : curve.Strict high) (p : Probe α) :
    (d'.answer quotes p).1 = withinRange d.extrapolates high (d.adjusted quotes curve) p ∧
      d.Asked quotes (d'.answer quotes p).2 := by
  have hensure : d'.ensure quotes = (.ok (), d') := ensure_of_verdict (h.resembles.same.verdict?.trans hv)
  have hanswer : d'.committed.answer d'.extrapolates p
      = (NodeCurve.rangeRule d.extrapolates high p.time).map fun _ => curve.saying p := by
    obtain ⟨observers, effect, rfl⟩ := h.resembles
    unfold CommittedCurve.answer
    dsimp only
    rw [hcurve]
    exact hstrict.answers d.extrapolates p
  unfold PiecewiseCurve.answer
  rw [hensure]
  dsimp only
  rw [hanswer]
  cases hrule : NodeCurve.rangeRule d.extrapolates high p.time with
  | error e => exact ⟨(withinRange_of_error hrule).symm, h⟩
  | ok _ =>
    refine ⟨?_, h.resembles.trans (resembles_adjust d' p _), fun q value => ?_⟩
    · rw [withinRange_of_ok hrule]
      exact h.adjust p _
    · exact (adjust_again d' quotes p q _ value).trans (h.adjust q value)

/-- A computation on a solved curve is given what the nodes say, with the jump, of the times that are in range. -/
theorem Asked.runOn {β : Type} (r : Reading α β) (h : d.Asked quotes d')
    (hv : d.controller.verdict? = some (.ok ())) (hcurve : d.committed.curve = some curve)
    (hstrict : curve.Strict high) :
    (r.runOn (fun c p => c.answer quotes p) d').1
      = r.run (withinRange d.extrapolates high (d.adjusted quotes curve)) := by
  -- Every question leaves another curve, so the induction is for all that were asked before.
  induction r generalizing d' with
  | done result => rfl
  | ask p next ih =>
    obtain ⟨hanswer, hasked⟩ := h.answer hv hcurve hstrict p
    simp only [Reading.runOn, Reading.run]
    rw [hanswer]
    exact ih _ hasked

/-- The first question solves the curve, and is answered by the solved one. -/
theorem answer_of_ensure (hd : c.ensure quotes = (.ok (), d)) (p : Probe α) : c.answer quotes p = d.answer quotes p := by
  have hv := verdict?_ensure c quotes
  rw [hd] at hv
  unfold answer
  rw [hd, ensure_of_verdict hv]

omit [Scalar α] in
theorem isValid_of_verdict (hv : d.controller.verdict? = some (.ok ())) : d.isValid = true := by
  unfold Controller.verdict? at hv
  split at hv
  · assumption
  · obtain ⟨e, -, he⟩ := Option.map_eq_some_iff.mp hv
    cases he

theorem alike_ensure (c : PiecewiseCurve α) (quotes : QuoteId → Option α) : c.Alike (c.ensure quotes).2 := by
  unfold PiecewiseCurve.ensure
  cases c.controller.verdict? with
  | some r => exact ⟨_, _, rfl⟩
  | none => cases c.solve quotes <;> exact ⟨_, _, rfl⟩

theorem read_of_ensure {β : Type} (hd : c.ensure quotes = (.ok (), d)) (hcurve : d.committed.curve = some curve)
    (hstrict : curve.Strict high) (r : Frame → Reading α β) :
    (c.read quotes r).1 = (r c.frame).run (withinRange c.extrapolates high (d.adjusted quotes curve)) := by
  have hv := verdict?_ensure c quotes
  rw [hd] at hv
  have hasked : d.Asked quotes d := ⟨.refl d, fun _ _ => rfl⟩
  have hrun := hasked.runOn (r c.frame) hv hcurve hstrict
  rw [extrapolates_of_ensure hd] at hrun
  rw [← hrun]
  unfold PiecewiseCurve.read
  cases r c.frame with
  | done result => rfl
  | ask p next =>
    simp only [Reading.runOn]
    rw [answer_of_ensure hd]

/-- A curve that is solved with a scheme that keeps its nodes has committed one that refuses what lies beyond them. -/
theorem Settled.strict_of_keepsNodes [LawfulOrder α] [LawfulDifference α] [LawfulComparison α] (h : c.Settled)
    (ho : c.controller.Orderly) (hkeeps : c.scheme.KeepsNodes) (hd : c.ensure quotes = (.ok (), d)) :
    ∃ curve, d.committed.curve = some curve ∧ curve.Strict d.committed.nodes.maxTime := by
  have hmoves : c.Moves quotes (c.ensure quotes).2 := moves_ensure c
  have hsettled := h.moves ho hmoves
  have hv := verdict?_ensure c quotes
  have halike := alike_ensure c quotes
  rw [hd] at hsettled hv halike
  obtain ⟨quotes', o, ho, hcommitted⟩ := hsettled.valid (isValid_of_verdict hv)
  have hkeeps' : d.scheme.KeepsNodes := by
    obtain ⟨controller, committed, rfl⟩ := halike
    exact hkeeps
  rw [hcommitted]
  exact ⟨o.curve, rfl, strict_of_bootstrap hkeeps' ho⟩

theorem Settled.strict_of_ensure [LawfulOrder α] [LawfulDifference α] [LawfulComparison α] (h : c.Settled)
    (ho : c.controller.Orderly) {method : Method} (hmethod : c.scheme = method.scheme)
    (hd : c.ensure quotes = (.ok (), d)) :
    ∃ curve, d.committed.curve = some curve ∧ curve.Strict d.committed.nodes.maxTime :=
  h.strict_of_keepsNodes ho (hmethod ▸ Method.scheme_keepsNodes method) hd

/-! ### The decision of the user -/

/-- The curve with another policy for reads beyond its nodes. -/
def extrapolating (c : PiecewiseCurve α) (allow : Bool) : PiecewiseCurve α := { c with extrapolates := allow }

/-- The policy has no part in a solve. -/
theorem ensure_extrapolating (c : PiecewiseCurve α) (quotes : QuoteId → Option α) (allow : Bool) :
    (c.extrapolating allow).ensure quotes = ((c.ensure quotes).1, (c.ensure quotes).2.extrapolating allow) := by
  have hsolve : (c.extrapolating allow).solve quotes = c.solve quotes := rfl
  have hverdict : (c.extrapolating allow).controller.verdict? = c.controller.verdict? := rfl
  unfold PiecewiseCurve.ensure
  rw [hsolve, hverdict]
  cases c.controller.verdict? with
  | some r => rfl
  | none => cases c.solve quotes <;> rfl

theorem adjusted_extrapolating (d : PiecewiseCurve α) (allow : Bool) :
    (d.extrapolating allow).adjusted quotes curve = d.adjusted quotes curve := by
  funext p
  have heffect : (d.extrapolating allow).effect = d.effect := rfl
  have hadjusts : (d.extrapolating allow).adjusts p = d.adjusts p := by cases p <;> rfl
  unfold adjusted adjust
  rw [heffect, hadjusts]
  cases d.effect with
  | none => rfl
  | some e => by_cases hp : d.adjusts p = true <;> simp [hp, extrapolating]

/-- What a curve has committed, whether it counts as valid and how often it was solved are the same for another, and
    would be if both were inspected now. -/
structure SolvedAlike (c c' : PiecewiseCurve α) (quotes : QuoteId → Option α) : Prop where
  committed : c'.committed = c.committed
  isValid : c'.isValid = c.isValid
  solves : c'.controller.solves = c.controller.solves
  inspect : (c'.inspect quotes).1 = (c.inspect quotes).1
  isValidThen : (c'.inspect quotes).2.isValid = (c.inspect quotes).2.isValid
  solvesThen : (c'.inspect quotes).2.controller.solves = (c.inspect quotes).2.controller.solves

theorem solvedAlike_extrapolating (c : PiecewiseCurve α) (quotes : QuoteId → Option α) (allow : Bool) :
    c.SolvedAlike (c.extrapolating allow) quotes := by
  have hinspect : (c.extrapolating allow).inspect quotes
      = ((c.inspect quotes).1, (c.inspect quotes).2.extrapolating allow) := by
    unfold PiecewiseCurve.inspect
    rw [ensure_extrapolating]
    rfl
  refine ⟨rfl, rfl, rfl, ?_, ?_, ?_⟩ <;> rw [hinspect]
  all_goals rfl

end PiecewiseCurve

namespace Market
open PiecewiseCurve

variable {α : Type} [Scalar α] {m : Market α} {i : Nat} {c d : PiecewiseCurve α} {curve : NodeCurve α} {high : α}

/-- Values and discount factors, at times and at dates, and forward rates are read from a curve at times in range. So is
    whatever else is computed from it. -/
structure AnswersWithin (m : Market α) (i : Nat) (frame : Frame) (allow : Bool) (high : α)
    (adjusted : Probe α → Except (CurveError α) α) : Prop where
  value (t : α) : (m.readCurve i fun _ => .value t).map (·.1) = some (withinRange allow high adjusted (.value t))
  discount (t : α) :
    (m.readCurve i fun _ => .discount t).map (·.1) = some (withinRange allow high adjusted (.discount t))
  discountAt (date : Date) :
    (m.readCurve i (Reading.discountAt · date)).map (·.1)
      = some (withinRange allow high adjusted (.discount (frame.time date)))
  forwardRate (start finish : α) : ¬finish ≤ start →
    (m.readCurve i fun _ => .forwardRate start finish).map (·.1) = some (do
      let d ← withinRange allow high adjusted (.discount start)
      let e ← withinRange allow high adjusted (.discount finish)
      return Scalar.ln (d / e) / (finish - start))
  read {β : Type} (r : Frame → Reading α β) :
    (m.readCurve i r).map (·.1) = some ((r frame).run (withinRange allow high adjusted))

theorem answersWithin_of_read {frame : Frame} {allow : Bool} {adjusted : Probe α → Except (CurveError α) α}
    (h : ∀ {β : Type} (r : Frame → Reading α β),
      (m.readCurve i r).map (·.1) = some ((r frame).run (withinRange allow high adjusted))) :
    m.AnswersWithin i frame allow high adjusted where
  value t := h _
  discount t := h _
  discountAt date := h _
  forwardRate start finish hlater := by
    rw [h]
    unfold Reading.forwardRate
    rw [if_neg hlater, Reading.run_bind]
    refine congrArg some (bind_congr fun d => ?_)
    rw [Reading.run_bind]
    rfl
  read r := h r

theorem answersWithin_of_ensure (hc : m.curves.get? i = some c) (hd : c.ensure m.values = (.ok (), d))
    (hcurve : d.committed.curve = some curve) (hstrict : curve.Strict high) :
    m.AnswersWithin i c.frame c.extrapolates high (d.adjusted m.values curve) := by
  refine answersWithin_of_read fun r => ?_
  simp only [readCurve, onCurve, hc, Option.map_some]
  rw [read_of_ensure hd hcurve hstrict r]

theorem get?_setExtrapolation (hc : m.curves.get? i = some c) (allow : Bool) :
    (m.act (.setExtrapolation i allow)).curves.get? i = some (c.extrapolating allow) := by
  simp only [act, setExtrapolation, Slots.get?_modify, hc, if_true, Option.map_some]
  rfl

/-- Questions to a curve that is solved with a method of the library are answered at times from zero to that of the last
    node, and refused at others, unless the user has them answered there. The curve that is committed refuses them
    whatever the helpers needed, and what the user decides bears on no solve. -/
theorem strict_query_range [LawfulOrder α] [LawfulDifference α] [LawfulComparison α] (hm : Reachable m)
    (hc : m.curves.get? i = some c) :
    (∀ (method : Method) (d : PiecewiseCurve α), c.scheme = method.scheme → c.ensure m.values = (.ok (), d) →
      ∃ curve, d.committed.curve = some curve ∧ curve.Strict d.committed.nodes.maxTime ∧
        m.AnswersWithin i c.frame c.extrapolates d.committed.nodes.maxTime (d.adjusted m.values curve) ∧
        ∀ allow, (m.act (.setExtrapolation i allow)).AnswersWithin i c.frame allow d.committed.nodes.maxTime
          (d.adjusted m.values curve)) ∧
    ∀ allow, ∃ c', (m.act (.setExtrapolation i allow)).curves.get? i = some c' ∧ c'.extrapolates = allow ∧
      c.SolvedAlike c' m.values := by
  refine ⟨fun method d hmethod hd => ?_, fun allow => ?_⟩
  · obtain ⟨curve, hcurve, hstrict⟩ := (hm.recorded.settled i c hc).strict_of_ensure (hm.orderly i c hc) hmethod hd
    refine ⟨curve, hcurve, hstrict, answersWithin_of_ensure hc hd hcurve hstrict, fun allow => ?_⟩
    have hd' : (c.extrapolating allow).ensure m.values = (.ok (), d.extrapolating allow) := by
      rw [ensure_extrapolating, hd]
    rw [← adjusted_extrapolating d allow]
    exact answersWithin_of_ensure (get?_setExtrapolation hc allow) hd' hcurve hstrict
  · exact ⟨_, get?_setExtrapolation hc allow, rfl, solvedAlike_extrapolating c m.values allow⟩

/-- A curve of one hazard rate, which is read a year after the only pillar. -/
def aheadSpec : CurveSpec ℚ where
  reference := .newYear 2025
  helpers := [⟨.other ⟨.newYear 2026, .newYear 2026, "Hazard rate",
    fun f => Reading.value (f.time (.newYear 2027))⟩, 0⟩]
  config := { (default : CurveConfig ℚ) with kind := .hazardRate, interpolation := .backwardFlat }

/-- The market of that curve, which is not solved yet. -/
def aheadMarket : Market ℚ := acts {} [.newQuote (some (1 / 100)), .build aheadSpec]

/-- A curve that was read beyond its last node to be solved is not to be read there, unless the user wants it to be. -/
theorem strict_query_range_ahead :
    ∃ c d, aheadMarket.curves.get? 0 = some c ∧ c.ensure aheadMarket.values = (.ok (), d) ∧
      d.committed.nodes.maxTime = 1 ∧
      (aheadMarket.readCurve 0 fun _ => .value 2).map (·.1) = some (.error (.extrapolation 2 0 1)) ∧
      ((aheadMarket.act (.setExtrapolation 0 true)).readCurve 0 fun _ => .value 2).map (·.1)
        = some (.ok (1 / 100)) ∧
      ∃ c', (aheadMarket.act (.setExtrapolation 0 true)).curves.get? 0 = some c' ∧
        c.SolvedAlike c' aheadMarket.values := by
  have hr : Reachable aheadMarket := Leads.refl.acts (by decide +kernel)
  obtain ⟨c, hb⟩ := ok_of_isSome (by decide +kernel : aheadSpec.build.toOption.isSome = true)
  have hc : aheadMarket.curves.get? 0 = some c := get?_act_build _ hb
  have hscheme : c.scheme = Method.backwardFlat.scheme := by
    rw [build_eq hb]
    rfl
  have hpolicy : c.extrapolates = false := by
    rw [build_eq hb]
    rfl
  have hsolved : (aheadMarket.curves.get? 0).all (fun c =>
      (c.ensure aheadMarket.values).1.toOption.isSome &&
        decide ((c.ensure aheadMarket.values).2.committed.nodes.maxTime = 1) &&
        (c.ensure aheadMarket.values).2.committed.curve.all fun curve =>
          ((c.ensure aheadMarket.values).2.adjusted aheadMarket.values curve (.value 2)).toOption == some (1 / 100))
      = true := by
    decide +kernel
  rw [hc, Option.all_some] at hsolved
  rcases hd : c.ensure aheadMarket.values with ⟨r | _, d⟩
  · rw [hd] at hsolved
    cases hsolved
  rw [hd] at hsolved
  obtain ⟨hsolved, hvalue⟩ := (Bool.and_eq_true _ _).mp hsolved
  have hmax : d.committed.nodes.maxTime = 1 := of_decide_eq_true ((Bool.and_eq_true _ _).mp hsolved).2
  obtain ⟨hqueries, htoggle⟩ := strict_query_range hr hc
  obtain ⟨curve, hcurve, -, hstrict, hrelaxed⟩ := hqueries .backwardFlat d hscheme hd
  obtain ⟨c', hc', -, hsame⟩ := htoggle true
  rw [hcurve] at hvalue
  refine ⟨c, d, hc, hd, hmax, ?_, ?_, c', hc', hsame⟩
  · rw [hstrict.value, hmax, hpolicy]
    exact congrArg some (withinRange_of_error (by decide +kernel))
  · have hanswer := ok_of_toOption (beq_iff_eq.mp hvalue)
    rw [(hrelaxed true).value, hmax, ← hanswer]
    exact congrArg some (withinRange_of_ok (NodeCurve.rangeRule_eq_ok_iff.mpr ⟨rfl, .inl rfl⟩))

end Market

end TermStructure
