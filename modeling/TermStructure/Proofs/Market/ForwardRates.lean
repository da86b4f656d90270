import TermStructure.Proofs.Bootstrap.Determination
import TermStructure.Proofs.Interpolation.Forwards
import TermStructure.Proofs.Market.ReadBack

/-!
# Forward rates

The forward rate from one time to a later one is read from two discount factors. On a log-linear curve it averages the
forwards of the segments between, also where the two times lie in different segments or beyond the nodes.
-/

namespace TermStructure

variable {α : Type} [ScalarField α] [ExactScalar α] {a b t : α}

omit [ExactScalar α] in
theorem Reading.run_forwardRate {A : Probe α → Except (CurveError α) α} {x y : α} (hab : a < b)
    (hx : A (.discount a) = .ok x) (hy : A (.discount b) = .ok y) :
    (forwardRate a b).run A = .ok (Scalar.ln (x / y) / (b - a)) := by
  unfold forwardRate
  rw [if_neg (not_le.mpr hab), run_bind, run_discount hx]
  change Reading.run A _ = _
  rw [run_bind, run_discount hy]
  rfl

/-! ### Curves over nodes -/

theorem CurveKind.isProbabilityLike_iff {kind : CurveKind} :
    kind.isProbabilityLike = true ↔ kind = .discount ∨ kind = .survivalProbability := by
  cases kind <;> simp [isProbabilityLike]

namespace NodeCurve

variable {c : NodeCurve α}

theorem answer_discount (hkind : c.frame.kind.isProbabilityLike = true)
    (h : c.extrapolates = true ∨ c.interpolant.low ≤ t ∧ t ≤ c.interpolant.high) :
    c.answer (.discount t) = .ok (c.interpolant.value t) :=
  answerWith_discount (CurveKind.isProbabilityLike_iff.mp hkind) h

theorem read_forwardRate (hkind : c.frame.kind.isProbabilityLike = true) (hab : a < b)
    (h : c.extrapolates = true ∨ c.interpolant.low ≤ a ∧ b ≤ c.interpolant.high) :
    c.read (.forwardRate a b) = .ok (Scalar.ln (c.interpolant.value a / c.interpolant.value b) / (b - a)) := by
  have hstart := answer_discount hkind (h.imp_right fun hrange => ⟨hrange.1, hab.le.trans hrange.2⟩)
  have hfinish := answer_discount hkind (h.imp_right fun hrange => ⟨hrange.1.trans hab.le, hrange.2⟩)
  exact Reading.run_forwardRate hab hstart hfinish

end NodeCurve

open LogLinear (Averages)

omit [ExactScalar α] in
/-- A log-linear interpolant answers for the forwards between any two times. -/
theorem Method.averages_of_build [LawfulProducts α] {xs ys : List α} {f : Interpolant α}
    (h : logLinear.build xs ys = .ok f) (hab : a < b) :
    Averages xs ys a b (Scalar.ln (f.value a / f.value b) / (b - a)) := by
  obtain ⟨k, rfl, rfl, rfl, -⟩ := exists_knots h
  exact LogLinear.averages k hab

/-! ### Curves of a market -/

omit [ExactScalar α] in
theorem PiecewiseCurve.effect_of_ensure {c d : PiecewiseCurve α} {quotes : QuoteId → Option α}
    {r : Except (CurveError α) Unit} (hd : c.ensure quotes = (r, d)) : d.effect = c.effect := by
  have halike := alike_ensure c quotes
  rw [hd] at halike
  obtain ⟨controller, committed, rfl⟩ := halike
  rfl

namespace Market
open PiecewiseCurve

variable {m : Market α} {i : Nat} {c d : PiecewiseCurve α}

theorem readCurve_forwardRate (hm : Reachable m) (hc : m.curves.get? i = some c) (heffect : c.effect = none)
    {method : Method} (hmethod : c.scheme = method.scheme) (hkind : c.config.kind.isProbabilityLike = true)
    (hd : c.ensure m.values = (.ok (), d)) (hab : a < b)
    (hrange : c.extrapolates = true ∨ 0 ≤ a ∧ b ≤ d.committed.nodes.maxTime) :
    ∃ f, method.build d.committed.nodes.times d.committed.nodes.values = .ok f ∧
      (m.readCurve i fun _ => .forwardRate a b).map (·.1)
        = some (.ok (Scalar.ln (f.value a / f.value b) / (b - a))) := by
  have hsettled := hm.recorded.settled i c hc
  have ho := hm.orderly i c hc
  obtain ⟨curve, hcurve, hstrict⟩ := hsettled.strict_of_ensure ho hmethod hd
  obtain ⟨quotes', retried, haligned⟩ := hsettled.aligned_of_ensure ho hd
  obtain ⟨curve', hcurve', hframe, hbuild, -⟩ := haligned.curve
  obtain rfl : curve = curve' := Option.some.inj (hcurve.symm.trans hcurve')
  rw [hmethod] at hbuild
  have heffect' : d.effect = none := (effect_of_ensure hd).trans heffect
  have hkind' : curve.frame.kind.isProbabilityLike = true := by
    rw [hframe]
    exact hkind
  have hanswer {t : α} (ht : c.extrapolates = true ∨ 0 ≤ t ∧ t ≤ d.committed.nodes.maxTime) :
      withinRange c.extrapolates d.committed.nodes.maxTime (d.adjusted m.values curve) (.discount t)
        = .ok (curve.interpolant.value t) := by
    rw [withinRange_of_ok (NodeCurve.rangeRule_eq_ok_iff.mpr ⟨ExactScalar.isNaN_eq _, ht⟩),
      adjusted_of_no_effect heffect', NodeCurve.saying_discount hkind']
  have hstart := hanswer (hrange.imp_right fun h => ⟨h.1, hab.le.trans h.2⟩)
  have hfinish := hanswer (hrange.imp_right fun h => ⟨h.1.trans hab.le, h.2⟩)
  refine ⟨curve.interpolant, hbuild, ?_⟩
  rw [(answersWithin_of_ensure hc hd hcurve hstrict).read, Reading.run_forwardRate hab hstart hfinish]

/-- On log-linear curves of discount factors or survival probabilities the forward rate from one time to a later one
    averages the forwards of the segments, where the first and the last segment go on without end. So it is that of the
    segment where both times lie in one, and it stays the last one beyond the last node. This is so for curves over any
    increasing nodes with positive values, and for those of a market that were solved without a jump, at all times at
    which they answer. -/
theorem forwards_log_linear [LawfulProducts α] :
    (∀ xs ys : List α, 2 ≤ xs.length → xs.length = ys.length → xs.Pairwise (· < ·) → (∀ y ∈ ys, 0 < y) →
      ∃ f, Method.logLinear.build xs ys = .ok f ∧
        ∀ (frame : Frame) (allow : Bool) (a b : α), frame.kind.isProbabilityLike = true → a < b →
          allow = true ∨ xs.headD 0 ≤ a ∧ b ≤ xs.getLastD 0 →
          ∃ rate, NodeCurve.read ⟨frame, f, allow⟩ (.forwardRate a b) = .ok rate ∧ Averages xs ys a b rate) ∧
    ∀ (m : Market α) (i : Nat) (c d : PiecewiseCurve α), Reachable m → m.curves.get? i = some c → c.effect = none →
      c.scheme = Method.logLinear.scheme → c.config.kind.isProbabilityLike = true → c.ensure m.values = (.ok (), d) →
      ∀ a b : α, a < b → c.extrapolates = true ∨ 0 ≤ a ∧ b ≤ d.committed.nodes.maxTime →
        ∃ rate, (m.readCurve i fun _ => .forwardRate a b).map (·.1) = some (.ok rate) ∧
          Averages d.committed.nodes.times d.committed.nodes.values a b rate := by
  constructor
  · intro xs ys two_le length_eq increasing positive
    obtain ⟨f, hf⟩ := Method.build_of_increasing (m := .logLinear) rfl two_le length_eq increasing fun _ => positive
    obtain ⟨hxs, -⟩ := Method.build_ok hf
    refine ⟨f, hf, fun frame allow a b hkind hab hrange => ?_⟩
    have hrange' : allow = true ∨ f.low ≤ a ∧ b ≤ f.high := by
      rw [Interpolant.low, Interpolant.high, hxs]
      exact hrange
    exact ⟨_, NodeCurve.read_forwardRate (c := ⟨frame, f, allow⟩) hkind hab hrange', Method.averages_of_build hf hab⟩
  · intro m i c d hm hc heffect hscheme hkind hd a b hab hrange
    obtain ⟨f, hf, hread⟩ := readCurve_forwardRate hm hc heffect hscheme hkind hd hab hrange
    exact ⟨_, hread, Method.averages_of_build hf hab⟩

/-! ### A single node -/

/-- Searches end at once. -/
noncomputable def fixedFinder : RootFinder ℝ := ⟨"Fixed", fun _ _ _ => .done (.ok ⟨Real.exp (-1), 0, 0, 0⟩)⟩

/-- A curve of one rate with the forward one. What is found is not checked. -/
noncomputable def unitSpec : CurveSpec ℝ where
  reference := .newYear 2025
  helpers := [⟨.zeroRate ⟨.newYear 2026⟩, 0⟩]
  config := { (default : CurveConfig ℝ) with
    allowExtrapolation := true
    bootstrap := { (default : BootstrapConfig ℝ) with globalCheck := false } }
  solver := some fixedFinder

/-- The market of that curve, which is not solved yet. -/
noncomputable def unitMarket : Market ℝ := acts {} [.newQuote (some 1), .build unitSpec]

theorem unitSpec_bootstrap_validate : unitSpec.config.bootstrap.validate = .ok () :=
  BootstrapPlan.validate_default (α := ℝ)

theorem unitSpec_build : ∃ c, unitSpec.build = .ok c := by
  have hvalid : unitSpec.validate = .ok () := by
    change (unitSpec.config.bootstrap.validate >>= fun _ => unitSpec.config.validateInterpolation) = _
    rw [unitSpec_bootstrap_validate]
    rfl
  unfold CurveSpec.build
  rw [hvalid]
  exact ⟨_, rfl⟩

/-- The only search finds what it has to. -/
theorem pass_of_fixed {plan : BootstrapPlan ℝ} {p : Pillar ℝ} (hsolver : plan.solver = fixedFinder)
    (hkind : plan.frame.kind = .discount) (hpillars : plan.pillars = [p]) :
    ∃ solves, plan.pass [] = .ok ⟨[1, Real.exp (-1)], solves⟩ := by
  have hsolve (site : PillarSite ℝ) (hsite : site.plan = plan) (guess : ℝ) :
      (site.solve guess).result = .ok (Real.exp (-1)) := by
    have hrun : (site.attempt guess site.bracket site.looksAhead).run = ⟨[], .ok ⟨Real.exp (-1), 0, 0, 0⟩⟩ := by
      unfold PillarSite.attempt
      rw [hsite, hsolver]
      rfl
    unfold PillarSite.solve
    rw [PillarSite.solveFrom]
    unfold Attempt.firstError?
    rw [hrun]
    rfl
  unfold BootstrapPlan.pass
  rw [hpillars, hkind]
  unfold BootstrapPlan.passFrom
  dsimp only
  rw [hsolve _ rfl]
  exact ⟨_, rfl⟩

theorem bootstrap_unit (quote : Option ℝ) :
    ∃ o, bootstrap ⟨parFrame, Method.logLinear.scheme, [⟨(ZeroRate.mk (.newYear 2026)).instrument, quote⟩]⟩
        unitSpec.config.bootstrap fixedFinder = .ok o ∧ o.nodes = ⟨[0, 1], [1, Real.exp (-1)]⟩ := by
  let h : Helper ℝ := ⟨(ZeroRate.mk (.newYear 2026)).instrument, quote⟩
  let plan : BootstrapPlan ℝ :=
    ⟨parFrame, Method.logLinear.scheme, unitSpec.config.bootstrap, fixedFinder, [.make parFrame h]⟩
  have hspacing : Pillar.minSpacing < (parFrame.time h.instrument.pillar : ℝ) := parTime_eq ▸ minSpacing_lt_one
  have hmake : BootstrapPlan.make ⟨parFrame, Method.logLinear.scheme, [h]⟩ unitSpec.config.bootstrap fixedFinder = .ok plan :=
    BootstrapPlan.make_of_single unitSpec_bootstrap_validate parFrame .logLinear h fixedFinder hspacing
  have htimes : plan.times = [0, 1] := by
    change [0, (parFrame.time (.newYear 2026) : ℝ)] = _
    rw [parTime_eq]
  have hpositive : ∀ y ∈ [1, Real.exp (-1)], 0 < y := by
    intro y hy
    rcases List.mem_pair.mp hy with rfl | rfl
    · exact one_pos
    · exact Real.exp_pos _
  obtain ⟨solves, hpass⟩ : ∃ solves, plan.pass [] = .ok ⟨[1, Real.exp (-1)], solves⟩ := pass_of_fixed rfl rfl rfl
  obtain ⟨f, hf⟩ : ∃ f, Method.logLinear.build [0, 1] [1, Real.exp (-1)] = .ok f :=
    Method.build_of_increasing rfl (by decide) rfl (by simp) fun _ => hpositive
  have hcurve : plan.finishedCurve [1, Real.exp (-1)] = .ok ⟨parFrame, f, false⟩ := by
    have hbuild : plan.scheme.build [0, 1] [1, Real.exp (-1)] = .ok f := hf
    unfold BootstrapPlan.finishedCurve BootstrapPlan.curveOver
    rw [htimes, hbuild]
  have hnodes := BootstrapPlan.ofSolution_of_pass hmake hpass
  rw [htimes] at hnodes
  have hdraft : plan.draft = .ok ⟨⟨[1, Real.exp (-1)], solves⟩, []⟩ := by
    unfold BootstrapPlan.draft
    rw [hpass]
    rfl
  unfold bootstrap
  rw [hmake]
  change ∃ o, plan.run = .ok o ∧ _
  unfold BootstrapPlan.run
  rw [hdraft]
  change ∃ o, (plan.finishedCurve [1, Real.exp (-1)] >>= _) = .ok o ∧ _
  rw [hcurve]
  change ∃ o, (NodeStore.ofSolution plan.times [1, Real.exp (-1)] >>= _) = .ok o ∧ _
  rw [htimes, hnodes]
  exact ⟨_, rfl, rfl⟩

theorem ensure_unit {c : PiecewiseCurve ℝ} (hb : unitSpec.build = .ok c) (quotes : QuoteId → Option ℝ) :
    ∃ d, c.ensure quotes = (.ok (), d) ∧ d.committed.nodes = ⟨[0, 1], [1, Real.exp (-1)]⟩ := by
  obtain ⟨o, ho, hnodes⟩ := bootstrap_unit (quotes 0)
  obtain ⟨d, hd, hcommitted⟩ := ensure_of_build hb (List.mergeSort_singleton _) ho
  exact ⟨d, hd, (congrArg CommittedCurve.nodes hcommitted).trans hnodes⟩

/-- From within the first of two segments to beyond the last node, and beyond the single node of a solved curve. -/
theorem forwards_log_linear_beyond :
    (∃ f rate, Method.logLinear.build [0, 1, 2] [1, Real.exp (-1), Real.exp (-3)] = .ok f ∧
      NodeCurve.read ⟨parFrame, f, true⟩ (.forwardRate (1 / 2) 4) = .ok rate ∧
      (4 - 1 / 2) * rate = (1 - 1 / 2) * 1 + (4 - 1) * 2) ∧
    (unitMarket.readCurve 0 fun _ => .forwardRate 2 3).map (·.1) = some (.ok 1) := by
  obtain ⟨hcurves, hmarket⟩ := forwards_log_linear (α := ℝ)
  have hln (x : ℝ) : Scalar.ln (Real.exp x) = x := Real.log_exp x
  have hone : Scalar.ln (1 : ℝ) = 0 := Real.log_one
  constructor
  · have hpositive : ∀ y ∈ [1, Real.exp (-1), Real.exp (-3)], 0 < y := by simp [Real.exp_pos]
    obtain ⟨f, hf, hread⟩ := hcurves [0, 1, 2] [1, Real.exp (-1), Real.exp (-3)] (by decide) rfl (by simp) hpositive
    obtain ⟨rate, hrate, haverages⟩ := hread parFrame true (1 / 2) 4 rfl (by norm_num) (.inl rfl)
    refine ⟨f, rate, hf, hrate, haverages.total.trans ?_⟩
    simp [Finset.sum_range_succ, LogLinear.forward, LogLinear.overlap, hln, hone]
    norm_num
  · have hr : Reachable unitMarket := Leads.refl.acts (by decide +kernel)
    obtain ⟨c, hb⟩ := unitSpec_build
    have hc : unitMarket.curves.get? 0 = some c := get?_act_build _ hb
    obtain ⟨d, hd, hnodes⟩ := ensure_unit hb unitMarket.values
    obtain rfl := build_eq hb
    obtain ⟨rate, hrate, haverages⟩ :=
      hmarket unitMarket 0 _ d hr hc rfl rfl rfl hd 2 3 (by norm_num) (.inl rfl)
    have hflat := haverages.flat 0
    rw [hnodes] at hflat
    have hforward : LogLinear.forward [0, 1] [1, Real.exp (-1)] 0 = 1 := by
      simp [LogLinear.forward, hln, hone]
    rw [hrate, hflat (by decide) (.inl rfl) (.inl rfl), hforward]

end Market

end TermStructure
