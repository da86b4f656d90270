import TermStructure.Proofs.Instrument.Response
import TermStructure.Proofs.RootFinding.Finders
import TermStructure.Proofs.Bootstrap.Domain

/-!
# Determined nodes

Where discount factors or survival probabilities are interpolated along straight lines, or along straight
lines between their logarithms, the quote that is implied at a pillar falls as the value there grows. So the
market quote and the values at the nodes before it leave one value at most, however it is searched for.
-/

namespace TermStructure

variable {α : Type} [ScalarField α]

section
variable [ExactScalar α] {c : NodeCurve α} {t : α}

theorem Interpolant.checkRange_of_exact {f : Interpolant α} {allow : Bool} (h : allow = true ∨ f.low ≤ t ∧ t ≤ f.high) :
    f.checkRange t allow = .ok () := by
  have hrange : (allow || f.inRange t) = true := by
    unfold inRange
    rcases h with rfl | ⟨hlow, hhigh⟩
    · rfl
    · rw [decide_eq_true hlow, decide_eq_true hhigh]
      exact Bool.or_true allow
  unfold checkRange
  rw [ExactScalar.isNaN_eq, hrange]
  rfl

/-- Within the nodes, and beyond them if that is allowed, a curve of discount factors or survival probabilities answers
    with its values. -/
theorem NodeCurve.answerWith_discount (hkind : c.frame.kind = .discount ∨ c.frame.kind = .survivalProbability)
    {allow : Bool} (h : allow = true ∨ c.interpolant.low ≤ t ∧ t ≤ c.interpolant.high) :
    c.answerWith allow (.discount t) = .ok (c.interpolant.value t) := by
  have hvalue : c.valueWith t allow = .ok (c.interpolant.value t) := by
    unfold valueWith Interpolant.evaluate
    rw [Interpolant.checkRange_of_exact h]
    rfl
  change c.discountWith t allow = _
  unfold discountWith
  rcases hkind with hkind | hkind <;> rw [hkind] <;> exact hvalue

end

theorem NodeCurve.read_quoteError {c : NodeCurve α} {h : Helper α} {f : Frame} {implied market : α}
    (himplied : c.read (h.instrument.implied f) = .ok implied) (hquote : h.quote = some market) :
    c.read (h.quoteError f) = .ok (implied - market) := by
  have hmarket : h.marketQuote = .ok market := by
    unfold Helper.marketQuote
    rw [hquote]
  unfold read at himplied ⊢
  unfold Helper.quoteError
  rw [Reading.run_bind, himplied, hmarket]
  rfl

/-! ### The trial curves -/

namespace BootstrapPlan

variable {plan : BootstrapPlan α} {k : Nat} {p : Pillar α}

/-- The times up to a pillar end with its own. -/
theorem times_take (hk : plan.pillars[k]? = some p) :
    (plan.times.take (k + 2)).length = k + 2 ∧ (plan.times.take (k + 2)).getLastD 0 = p.time := by
  have htime := times_succ hk
  obtain ⟨hlt, -⟩ := List.getElem?_eq_some_iff.mp htime
  have hlength : (plan.times.take (k + 2)).length = k + 2 := by
    rw [List.length_take]
    omega
  have hend : k + 2 - 1 = k + 1 := rfl
  refine ⟨hlength, ?_⟩
  rw [List.getLastD_eq_getLast?, List.getLast?_eq_getElem?, hlength, hend, List.getElem?_take_of_lt (Nat.lt_succ_self _),
    htime]
  rfl

end BootstrapPlan

namespace PillarSite

variable {site : PillarSite α} {m : Method}

/-- The objective is a quote, which falls as the value grows, less the quote of the market. -/
structure Determines (site : PillarSite α) (implied : α → α) (market : α) : Prop where
  falls : ∀ x y, 0 < x → x < y → implied y < implied x
  /-- It does so whether reads beyond the nodes are answered or not. -/
  implies : ∀ allow x, 0 < x → ∃ curve, site.trialCurve x = .ok curve ∧
    (curve.extrapolating allow).read (site.pillar.helper.instrument.implied site.plan.frame) = .ok (implied x) ∧
    site.objective allow x = .ok (implied x - market)

theorem Determines.unique {implied : α → α} {market : α} (h : site.Determines implied market) {x y : α} (hx : 0 < x)
    (hy : 0 < y) {allow allow' : Bool} (hatx : site.objective allow x = .ok 0)
    (haty : site.objective allow' y = .ok 0) : x = y := by
  obtain ⟨-, -, -, hobjective⟩ := h.implies allow x hx
  obtain ⟨-, -, -, hobjective'⟩ := h.implies allow' y hy
  rw [hatx] at hobjective
  rw [haty] at hobjective'
  have hsame : implied x = implied y :=
    sub_left_inj.mp ((Except.ok.inj hobjective).symm.trans (Except.ok.inj hobjective'))
  rcases lt_trichotomy x y with hlt | heq | hgt
  · exact absurd hsame (h.falls x y hx hlt).ne'
  · exact heq
  · exact absurd hsame (h.falls y x hy hgt).ne

variable [ExactScalar α]

theorem finiteAnswer?_ok (y : α) : finiteAnswer? (.ok y) = some y := by
  change finite? y = some y
  unfold finite?
  rw [if_pos (ExactScalar.isFinite_eq y)]

/-- A root that was found with no residual, from whatever guess and in whatever interval of positive numbers, is
    a positive number at which the objective is zero. -/
theorem objective_of_exact {bracket : Bracket α} {allow : Bool} {finder : RootFinder α} (hfinder : finder.IsStandard)
    (htolerance : 0 ≤ site.plan.config.solverSettings.tolerance) (hpositive : 0 < bracket.lower)
    (hproper : bracket.lower < bracket.upper) {guess : α} {r : Root α}
    (hr : ((site.problem bracket allow).run finder guess).result = .ok r) (hexact : r.residual = 0) :
    0 < r.root ∧ site.objective allow r.root = .ok 0 := by
  obtain ⟨width, hends⟩ := hfinder.ends (P := site.problem bracket allow) ⟨hproper, htolerance⟩ guess
  obtain ⟨hasked, hvalue⟩ := (hends.located hr).known
  obtain ⟨hlower, -⟩ := hends.confined.inside _ hasked
  refine ⟨hpositive.trans_le hlower, ?_⟩
  rw [hexact] at hvalue
  change finiteAnswer? (site.objective allow r.root) = some 0 at hvalue
  cases hobjective : site.objective allow r.root with
  | error e =>
    rw [hobjective] at hvalue
    cases hvalue
  | ok y =>
    rw [hobjective, finiteAnswer?_ok] at hvalue
    rw [Option.some.inj hvalue]

variable [LawfulLn α]

/-- The trial curves of an unseeded pass respond to the value at the pillar. -/
theorem trialCurve_responds (site : PillarSite α) (hm : m = .linear ∨ m = .logLinear) (hscheme : site.plan.scheme = m.scheme)
    (hkind : site.plan.frame.kind = .discount ∨ site.plan.frame.kind = .survivalProbability)
    (hincreasing : site.plan.times.Pairwise (· < ·)) {k : Nat} (hk : site.plan.pillars[k]? = some site.pillar)
    (hlength : site.before.length = k + 1) (hpositive : ∀ y ∈ site.before, 0 < y) (hafter : site.after = []) :
    ∃ D, Responds D site.pillar.time ∧ ∀ x, 0 < x → ∃ curve, site.trialCurve x = .ok curve ∧
      ∀ allow t, 0 ≤ t → t ≤ site.pillar.time → (curve.extrapolating allow).answer (.discount t) = .ok (D x t) := by
  have htimes : site.trialTimes = site.plan.times.take (k + 2) := by
    rw [trialTimes, index, hlength, hafter]
    rfl
  obtain ⟨hcount, hlast⟩ := BootstrapPlan.times_take hk
  have hne : site.before ≠ [] := by
    intro hnil
    rw [hnil] at hlength
    cases hlength
  have htrial : site.trialTimes.Pairwise (· < ·) := by
    rw [htimes]
    exact hincreasing.take
  have hcount' : site.trialTimes.length = site.before.length + 1 := by rw [htimes, hcount, hlength]
  have hstart : site.trialTimes.headD 0 = 0 := by
    rw [htimes]
    rfl
  obtain ⟨D, hD, hbuild⟩ := Method.responds hm htrial hcount' hne hpositive hstart
  rw [htimes, hlast] at hD
  refine ⟨D, hD, fun x hx => ?_⟩
  obtain ⟨f, hf, hxs, hvalue⟩ := hbuild x hx
  refine ⟨⟨site.plan.frame, f, false⟩, ?_, fun allow t h0 ht => ?_⟩
  · have hscheme' : site.plan.scheme.build site.trialTimes (site.trialValues x) = .ok f := by
      rw [hscheme, trialValues, hafter]
      exact hf
    exact BootstrapPlan.curveOver_of_build hscheme' site.index
  · have hlow : f.low ≤ t := by
      rw [Interpolant.low, hxs, htimes]
      exact h0
    have hhigh : t ≤ f.high := by
      rw [Interpolant.high, hxs, htimes, hlast]
      exact ht
    rw [← hvalue]
    exact NodeCurve.answerWith_discount hkind (.inr ⟨hlow, hhigh⟩)

/-- On trial curves that respond to it the value at a pillar is determined. -/
theorem exists_determines {D : α → α → α} (hD : Responds D site.pillar.time)
    (htrial : ∀ x, 0 < x → ∃ curve, site.trialCurve x = .ok curve ∧
      ∀ allow t, 0 ≤ t → t ≤ site.pillar.time → (curve.extrapolating allow).answer (.discount t) = .ok (D x t))
    (hpillar : site.pillar.time = site.plan.frame.time site.pillar.helper.instrument.pillar)
    (htime : 0 < site.pillar.time) {product : Product α} (hstandard : product.IsStandard)
    (hinstrument : site.pillar.helper.instrument = product.instrument)
    (hstart : product.StartsFrom site.plan.frame.reference) {market : α}
    (hquote : site.pillar.helper.quote = some market) : ∃ implied, site.Determines implied market := by
  rw [hinstrument] at hpillar
  rw [hpillar] at hD htime
  obtain ⟨implied, hreads, hfalls⟩ := hstandard.falls hstart htime hD
  refine ⟨implied, hfalls, fun allow x hx => ?_⟩
  obtain ⟨curve, hcurve, hanswers⟩ := htrial x hx
  have hread : (curve.extrapolating allow).read (site.pillar.helper.instrument.implied site.plan.frame) =
      .ok (implied x) := by
    rw [hinstrument]
    exact hreads x hx _ fun t h0 ht => hanswers allow t h0 (ht.trans hpillar.ge)
  refine ⟨curve, hcurve, hread, ?_⟩
  unfold objective
  rw [hcurve]
  exact NodeCurve.read_quoteError hread hquote

end PillarSite

/-- The quote determines the node. At a pillar of an unseeded pass, after any positive values at the nodes before
    it, let discount factors or survival probabilities be interpolated along straight lines or log-linearly, and
    let the instrument be one of the library that starts no earlier than the curve. Then the quote it implies
    strictly falls as the value at the pillar grows, so there is one positive root at most. Two roots without
    residual are the same, whichever way, from whichever guess and in whichever interval of positive numbers they
    were found. -/
theorem node_determined [ExactScalar α] [LawfulLn α] {inputs : BootstrapInputs α} {config : BootstrapConfig α}
    {solver : RootFinder α} {plan : BootstrapPlan α} (hmake : BootstrapPlan.make inputs config solver = .ok plan)
    {m : Method} (hm : m = .linear ∨ m = .logLinear) (hscheme : inputs.scheme = m.scheme)
    (hkind : inputs.frame.kind = .discount ∨ inputs.frame.kind = .survivalProbability)
    {k : Nat} {p : Pillar α} (hk : plan.pillars[k]? = some p) {product : Product α} (hstandard : product.IsStandard)
    (hinstrument : p.helper.instrument = product.instrument) (hstart : product.StartsFrom inputs.frame.reference)
    {market : α} (hquote : p.helper.quote = some market) {before : List α} (hlength : before.length = k + 1)
    (hpositive : ∀ y ∈ before, 0 < y) :
    (∃ implied, PillarSite.Determines ⟨plan, p, before, []⟩ implied market) ∧
    (∀ (x y : α) (allow allow' : Bool), 0 < x → 0 < y → PillarSite.objective ⟨plan, p, before, []⟩ allow x = .ok 0 →
      PillarSite.objective ⟨plan, p, before, []⟩ allow' y = .ok 0 → x = y) ∧
    ∀ (finder finder' : RootFinder α) (guess guess' : α) (bracket bracket' : Bracket α) (allow allow' : Bool)
      (r r' : Root α), finder.IsStandard → finder'.IsStandard → 0 < bracket.lower → bracket.lower < bracket.upper →
      0 < bracket'.lower → bracket'.lower < bracket'.upper →
      ((PillarSite.problem ⟨plan, p, before, []⟩ bracket allow).run finder guess).result = .ok r →
      ((PillarSite.problem ⟨plan, p, before, []⟩ bracket' allow').run finder' guess').result = .ok r' →
      r.residual = 0 → r'.residual = 0 → r.root = r'.root := by
  obtain ⟨hplan, hcheck, -, hvalid⟩ := BootstrapPlan.make_ok hmake
  have hframe : plan.frame = inputs.frame := by rw [hplan]
  have hscheme' : plan.scheme = m.scheme := by rw [hplan, hscheme]
  have hconfig : plan.config = config := by rw [hplan]
  have hincreasing : plan.times.Pairwise (· < ·) := Pillar.increasing_of_check hcheck
  have hmember := List.mem_of_getElem? hk
  have hpillar : p.time = plan.frame.time p.helper.instrument.pillar := by
    rw [hframe, ← BootstrapPlan.make_helper hmake hmember]
    rfl
  have htime : 0 < p.time := List.rel_of_pairwise_cons hincreasing (List.mem_map_of_mem hmember)
  rw [← hframe] at hkind hstart
  obtain ⟨D, hD, htrial⟩ := PillarSite.trialCurve_responds ⟨plan, p, before, []⟩ hm hscheme' hkind hincreasing hk
    hlength hpositive rfl
  obtain ⟨implied, hdetermines⟩ := PillarSite.exists_determines hD htrial hpillar htime hstandard hinstrument hstart
    hquote
  refine ⟨⟨implied, hdetermines⟩, fun x y allow allow' hx hy hatx haty => hdetermines.unique hx hy hatx haty, ?_⟩
  intro finder finder' guess guess' bracket bracket' allow allow' r r' hfinder hfinder' hlower hproper hlower' hproper'
    hr hr' hexact hexact'
  have htolerance : 0 ≤ plan.config.solverSettings.tolerance := by
    rw [hconfig]
    exact (BootstrapConfig.validate_ok hvalid).1
  obtain ⟨hpos, hroot⟩ := PillarSite.objective_of_exact hfinder htolerance hlower hproper hr hexact
  obtain ⟨hpos', hroot'⟩ := PillarSite.objective_of_exact hfinder' htolerance hlower' hproper' hr' hexact'
  exact hdetermines.unique hpos hpos' hroot hroot'

/-! ### A swap and a rate -/

/-- Discount factors from the first day of 2025 on. -/
def parFrame : Frame := ⟨.newYear 2025, .act365Fixed, .discount⟩

/-- A swap with two yearly payments. -/
def yearlySwap : Swap := ⟨.newYear 2025, .newYear 2027, .act365Fixed, [.newYear 2026, .newYear 2027]⟩

noncomputable def yearlySwapHelper (quote : ℝ) : Helper ℝ := ⟨yearlySwap.instrument, some quote⟩

/-- A rate of zero, so that the discount factor is one. -/
noncomputable def parRate : Helper ℝ := ⟨(ZeroRate.mk (.newYear 2026)).instrument, some 0⟩

/-- The plan for the rate. -/
noncomputable def parPlan : BootstrapPlan ℝ :=
  ⟨parFrame, Method.logLinear.scheme, default, Bisection.finder, [.make parFrame parRate]⟩

/-- Its only pillar. -/
noncomputable def parSite : PillarSite ℝ := ⟨parPlan, .make parFrame parRate, [1], []⟩

theorem parFrame_time (years : Nat) (date : Date) (h : (Date.newYear 2025).daysUntil date = 365 * years) :
    (parFrame.time date : ℝ) = years := by
  change (Scalar.yearFraction ((Date.newYear 2025).daysUntil date) 365 : ℝ) = years
  rw [ExactScalar.yearFraction_eq, h]
  push_cast
  field_simp

theorem minSpacing_lt_one : (Pillar.minSpacing : ℝ) < 1 := by
  rw [Pillar.minSpacing, ExactScalar.ofScientific_eq]
  norm_num

/-- Either way to search stops at once where there is no residual. -/
theorem exact_runs {P : Problem ℝ (Except (CurveError ℝ) ℝ)} (hP : P.IsProper)
    (hread : ∀ x, P.Inside x → (P.read (P.objective x)).isSome) {x : ℝ} (hx : P.Inside x)
    (hexact : P.read (P.objective x) = some 0) :
    (P.run (Brent.finder default) x).result = .ok ⟨x, 0, 0, 1⟩ ∧
      (x = P.within.lower → (P.run Bisection.finder x).result = .ok ⟨x, 0, 0, 2⟩) := by
  have hzero : Scalar.abs (0 : ℝ) ≤ P.settings.tolerance := by
    rw [ExactScalar.abs_eq, abs_zero]
    exact hP.tolerance_nonneg
  constructor
  · have horigin : Brent.origin P.within x = x := by
      unfold Brent.origin Bracket.nearest Scalar.nearest
      rw [if_pos (ExactScalar.isFinite_eq x), if_neg (not_lt.mpr hx.1), if_neg (not_lt.mpr hx.2)]
    change ((Brent.search default x P.within P.settings).run P.objective P.read).result = _
    unfold Brent.search
    dsimp only
    rw [Brent.reach_origin? hP.lower_lt_upper.le, horigin, Problem.run_evaluate_some hexact, if_pos hzero]
    rfl
  · rintro rfl
    obtain ⟨y, hy⟩ := Option.isSome_iff_exists.mp (hread P.within.upper ⟨hP.lower_lt_upper.le, le_refl _⟩)
    change ((Bisection.search P.within.lower P.within P.settings).run P.objective P.read).result = _
    unfold Bisection.search
    dsimp only
    rw [Problem.run_evaluate_some hexact]
    dsimp only
    rw [Problem.run_evaluate_some hy, if_pos hzero]
    rfl

theorem parTime_eq : (parFrame.time (.newYear 2026) : ℝ) = 1 := by
  rw [parFrame_time 1 _ (by decide), Nat.cast_one]

theorem make_parPlan :
    BootstrapPlan.make ⟨parFrame, Method.logLinear.scheme, [parRate]⟩ default Bisection.finder = .ok parPlan := by
  refine BootstrapPlan.make_singleton parFrame .logLinear parRate Bisection.finder ?_
  change Pillar.minSpacing < (parFrame.time (.newYear 2026) : ℝ)
  rw [parTime_eq]
  exact minSpacing_lt_one

theorem positive_singleton : ∀ y ∈ [(1 : ℝ)], 0 < y := by
  intro y hy
  rw [List.mem_singleton.mp hy]
  exact one_pos

/-- A discount factor of one implies a rate of zero. -/
theorem implied_one {implied : ℝ → ℝ} {market : ℝ} (h : parSite.Determines implied market) : implied 1 = 0 := by
  have hpos : (0 : ℝ) < parFrame.time (.newYear 2026) := by
    rw [parTime_eq]
    exact one_pos
  have hincreasing : parSite.plan.times.Pairwise (· < ·) :=
    Pillar.increasing_of_check (BootstrapPlan.make_ok make_parPlan).2.1
  have hpillar : parSite.pillar.time = parFrame.time (.newYear 2026) := rfl
  obtain ⟨D, hD, htrial⟩ := PillarSite.trialCurve_responds parSite (.inr rfl) rfl (.inl rfl) hincreasing (k := 0) rfl
    rfl positive_singleton rfl
  obtain ⟨curve, hcurve, hread, -⟩ := h.implies false 1 one_pos
  obtain ⟨curve', hcurve', hanswers⟩ := htrial 1 one_pos
  cases hcurve.symm.trans hcurve'
  rw [hpillar] at hD hanswers
  have hanswer := hanswers false _ hpos.le (le_refl _)
  rw [hD.last one_pos] at hanswer
  have hrate := Except.ok.inj (hread.symm.trans (ZeroRate.run_implied ⟨.newYear 2026⟩ hpos hanswer))
  have hln : Scalar.ln (1 : ℝ) = 0 := Real.log_one
  rw [hrate, hln, neg_zero, zero_div]

theorem read_objective {implied : ℝ → ℝ} {market : ℝ} (h : parSite.Determines implied market) (bracket : Bracket ℝ)
    (allow : Bool) {x : ℝ} (hx : 0 < x) :
    (parSite.problem bracket allow).read ((parSite.problem bracket allow).objective x) = some (implied x - market) := by
  obtain ⟨-, -, -, hobjective⟩ := h.implies allow x hx
  change PillarSite.finiteAnswer? (parSite.objective allow x) = _
  rw [hobjective, PillarSite.finiteAnswer?_ok]

theorem par_runs {implied : ℝ → ℝ} (h : parSite.Determines implied 0) (bracket : Bracket ℝ) (allow : Bool)
    (hpositive : 0 < bracket.lower) (hone : bracket.lower ≤ 1) (hproper : 1 < bracket.upper) :
    ((parSite.problem bracket allow).run (Brent.finder default) 1).result = .ok ⟨1, 0, 0, 1⟩ ∧
      (1 = bracket.lower → ((parSite.problem bracket allow).run Bisection.finder 1).result = .ok ⟨1, 0, 0, 2⟩) := by
  have htolerance : 0 ≤ parSite.plan.config.solverSettings.tolerance :=
    (BootstrapConfig.validate_ok BootstrapPlan.validate_default).1
  refine exact_runs ⟨hone.trans_lt hproper, htolerance⟩ (fun x hx => ?_) ⟨hone, hproper.le⟩ ?_
  · rw [read_objective h bracket allow (hpositive.trans_le hx.1)]
    rfl
  · rw [read_objective h bracket allow one_pos, implied_one h, sub_zero]

theorem node_determined_par :
    (∃ plan implied, BootstrapPlan.make ⟨parFrame, Method.linear.scheme, [yearlySwapHelper (1 / 20)]⟩ default
        Bisection.finder = .ok plan ∧
      PillarSite.Determines ⟨plan, .make parFrame (yearlySwapHelper (1 / 20)), [1], []⟩ implied (1 / 20)) ∧
    ∃ r r', ((parSite.problem ⟨1 / 2, 2⟩ false).run (Brent.finder default) 1).result = .ok r ∧
      ((parSite.problem ⟨1, 3⟩ true).run Bisection.finder 1).result = .ok r' ∧ r.root = r'.root := by
  constructor
  · have hswap : Swap.make (.newYear 2025) (.newYear 2027) 12 .act365Fixed = .ok yearlySwap := by rfl
    have htime : (parFrame.time (.newYear 2027) : ℝ) = (2 : ℕ) := parFrame_time 2 _ (by decide)
    have hspacing : Pillar.minSpacing < (parFrame.time (.newYear 2027) : ℝ) := by
      rw [htime]
      exact minSpacing_lt_one.trans (by norm_num)
    have hmake := BootstrapPlan.make_singleton parFrame .linear (yearlySwapHelper (1 / 20)) Bisection.finder hspacing
    have hstart : parFrame.reference ≤ yearlySwap.start := by decide
    obtain ⟨⟨implied, himplied⟩, -⟩ := node_determined hmake (.inl rfl) rfl (.inl rfl) (k := 0) rfl (.swap hswap) rfl
      hstart rfl rfl positive_singleton
    exact ⟨_, implied, hmake, himplied⟩
  · obtain ⟨⟨implied, himplied⟩, -, hunique⟩ := node_determined make_parPlan (.inr rfl) rfl (.inl rfl) (k := 0) rfl
      (.zeroRate ⟨.newYear 2026⟩) rfl trivial rfl rfl positive_singleton
    have hbrent := (par_runs himplied ⟨1 / 2, 2⟩ false (by norm_num) (by norm_num) (by norm_num)).1
    have hbisection := (par_runs himplied ⟨1, 3⟩ true one_pos (le_refl _) (by norm_num)).2 rfl
    exact ⟨_, _, hbrent, hbisection, hunique _ _ 1 1 _ _ _ _ _ _ (.brent default) .bisection (by norm_num) (by norm_num)
      one_pos (by norm_num) hbrent hbisection rfl rfl⟩

end TermStructure
