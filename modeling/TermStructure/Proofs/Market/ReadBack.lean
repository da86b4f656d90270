import TermStructure.Proofs.Interpolation.Nodes
import TermStructure.Proofs.Market.Queries

/-!
# Reading the nodes back

What inspectors show of a solved curve is what readers of the curve are told. At the time of a node they are told
its value, and at its date too if the values are discount factors or survival probabilities. No node is out of range,
so the user's decision about reads beyond the nodes has no part in it.
-/

namespace TermStructure

namespace PiecewiseCurve

variable {α : Type} [Scalar α] {c d : PiecewiseCurve α} {quotes : QuoteId → Option α} {curve : NodeCurve α}

theorem adjusted_of_no_effect (h : c.effect = none) (p : Probe α) : c.adjusted quotes curve p = .ok (curve.saying p) := by
  unfold adjusted adjust
  rw [h]

/-- A curve that is solved has committed what was made from its present helpers. -/
theorem Settled.aligned_of_ensure [LawfulOrder α] [LawfulDifference α] (h : c.Settled) (ho : c.controller.Orderly)
    (hd : c.ensure quotes = (.ok (), d)) :
    ∃ quotes' retried, d.committed.Aligned c.frame c.scheme (c.helpers.map (·.priced quotes')) retried := by
  have hmoves : c.Moves quotes (c.ensure quotes).2 := moves_ensure c
  have hsettled := h.moves ho hmoves
  have hv := verdict?_ensure c quotes
  have halike := alike_ensure c quotes
  rw [hd] at hsettled hv halike
  obtain ⟨quotes', plan, -, haligned⟩ := (hsettled.valid (isValid_of_verdict hv)).aligned
  obtain ⟨controller, committed, rfl⟩ := halike
  exact ⟨_, _, haligned⟩

end PiecewiseCurve

variable {α : Type} [ScalarField α] [ExactScalar α]

/-- At the time of a node the curve over the nodes has its value to say, and it is in range. -/
theorem CommittedCurve.Aligned.saying_node [LawfulInverse α] {committed : CommittedCurve α} {frame : Frame}
    {method : Method} {helpers : List (Helper α)} {retried : Bool}
    (h : committed.Aligned frame method.scheme helpers retried) {curve : NodeCurve α}
    (hcurve : committed.curve = some curve) {k : Nat} {t y : α} (ht : committed.nodes.times[k]? = some t)
    (hy : committed.nodes.values[k]? = some y) :
    curve.saying (.value t) = y ∧ (frame.kind.isProbabilityLike = true → curve.saying (.discount t) = y) ∧
      ∀ allow, NodeCurve.rangeRule allow committed.nodes.maxTime t = .ok () := by
  obtain ⟨curve', hcurve', hframe, hbuild, -⟩ := h.curve
  obtain rfl : curve = curve' := Option.some.inj (hcurve.symm.trans hcurve')
  obtain ⟨hk, rfl⟩ := List.getElem?_eq_some_iff.mp ht
  obtain ⟨hk', rfl⟩ := List.getElem?_eq_some_iff.mp hy
  have hvalue := Method.value_at_node hbuild hk
  rw [List.getD_eq_getElem _ _ hk, List.getD_eq_getElem _ _ hk'] at hvalue
  refine ⟨hvalue, fun hkind => ?_, fun allow => ?_⟩
  · rw [← hframe] at hkind
    exact (NodeCurve.saying_discount hkind _).trans hvalue
  · obtain ⟨hlow, hhigh⟩ := Method.node_within hbuild hk
    have hstart : committed.nodes.times.getD 0 0 = 0 := by
      rw [List.getD_eq_getElem?_getD, ← List.head?_eq_getElem?, h.firstTime, Option.getD_some]
    rw [hstart, List.getD_eq_getElem _ _ hk] at hlow
    rw [List.getD_eq_getElem _ _ hk] at hhigh
    exact NodeCurve.rangeRule_eq_ok_iff.mpr ⟨ExactScalar.isNaN_eq _, .inr ⟨hlow, hhigh⟩⟩

namespace Market
open PiecewiseCurve

variable {m : Market α} {i : Nat} {c d : PiecewiseCurve α}

/-- Readers of a curve are told the values of the nodes that are committed, by time and, where a value can be read at a
    date, by date. -/
structure ReadsBack (m : Market α) (i : Nat) (kind : CurveKind) (committed : CommittedCurve α) : Prop where
  value (k : Nat) (t y : α) : committed.nodes.times[k]? = some t → committed.nodes.values[k]? = some y →
    (m.readCurve i fun _ => .value t).map (·.1) = some (.ok y)
  discountAt (k : Nat) (date : Date) (y : α) : kind.isProbabilityLike = true → committed.dates[k]? = some date →
    committed.nodes.values[k]? = some y → (m.readCurve i (Reading.discountAt · date)).map (·.1) = some (.ok y)

theorem readsBack_of_ensure [LawfulInverse α] (hc : m.curves.get? i = some c) (heffect : d.effect = none)
    (hd : c.ensure m.values = (.ok (), d)) {method : Method} {helpers : List (Helper α)} {retried : Bool}
    (haligned : d.committed.Aligned c.frame method.scheme helpers retried) {curve : NodeCurve α}
    (hcurve : d.committed.curve = some curve) (hstrict : curve.Strict d.committed.nodes.maxTime) :
    m.ReadsBack i c.config.kind d.committed := by
  have hanswers := answersWithin_of_ensure hc hd hcurve hstrict
  refine ⟨fun k t y ht hy => ?_, fun k date y hkind hdate hy => ?_⟩
  · obtain ⟨hsaying, -, hrange⟩ := haligned.saying_node hcurve ht hy
    rw [hanswers.value, withinRange_of_ok (hrange _), adjusted_of_no_effect heffect, hsaying]
  · have ht : d.committed.nodes.times[k]? = some (c.frame.time date) := by
      rw [haligned.times, List.getElem?_map, hdate, Option.map_some]
    obtain ⟨-, hsaying, hrange⟩ := haligned.saying_node hcurve ht hy
    rw [hanswers.discountAt, withinRange_of_ok (hrange _), adjusted_of_no_effect heffect, hsaying hkind]

/-- A curve without a jump that can be solved with a method of the library shows as many values and dates as times.
    Read at the time of a node, it gives the value there, and so it does at the date of the node if its values are
    discount factors or survival probabilities. This is so for every node, the first and the last included, whether or
    not the user has reads beyond the nodes answered. -/
theorem nodes_read_back [LawfulInverse α] (hm : Reachable m) (hc : m.curves.get? i = some c) (heffect : c.effect = none)
    {method : Method} (hmethod : c.scheme = method.scheme) (hd : c.ensure m.values = (.ok (), d)) :
    (m.inspectCurve i).map (·.1) = some d.committed ∧
      d.committed.nodes.times.length = c.helpers.length + 1 ∧
      d.committed.nodes.values.length = d.committed.nodes.times.length ∧
      d.committed.dates.length = d.committed.nodes.times.length ∧
      m.ReadsBack i c.config.kind d.committed ∧
      ∀ allow, (m.act (.setExtrapolation i allow)).ReadsBack i c.config.kind d.committed := by
  have hsettled := hm.recorded.settled i c hc
  have ho := hm.orderly i c hc
  obtain ⟨curve, hcurve, hstrict⟩ := hsettled.strict_of_ensure ho hmethod hd
  obtain ⟨quotes', retried, haligned⟩ := hsettled.aligned_of_ensure ho hd
  rw [hmethod] at haligned
  have heffect' : d.effect = none := by
    have halike := alike_ensure c m.values
    rw [hd] at halike
    obtain ⟨controller, committed, rfl⟩ := halike
    exact heffect
  have hinspect : (m.inspectCurve i).map (·.1) = some d.committed := by
    simp only [inspectCurve, onCurve, hc, Option.map_some, PiecewiseCurve.inspect, hd]
  have hsize : d.committed.nodes.times.length = c.helpers.length + 1 := by
    rw [← c.helpers.length_map (·.priced quotes')]
    exact haligned.size
  refine ⟨hinspect, hsize, haligned.valueCount, haligned.dateCount,
    readsBack_of_ensure hc heffect' hd haligned hcurve hstrict, fun allow => ?_⟩
  -- What the user decides about reads beyond the nodes is kept beside what a solve commits, and changes none of it.
  have hd' : (c.extrapolating allow).ensure m.values = (.ok (), d.extrapolating allow) := by
    rw [ensure_extrapolating, hd]
  exact readsBack_of_ensure (c := c.extrapolating allow) (d := d.extrapolating allow) (get?_setExtrapolation hc allow)
    heffect' hd' haligned hcurve hstrict

/-- A survival probability that is read at its own pillar. -/
def survivalAt (date : Date) (quote : QuoteId) : MarketHelper ℚ :=
  ⟨.other ⟨date, date, "Survival probability", fun f => Reading.discountAt f date⟩, quote⟩

/-- A spline through two survival probabilities, so it has two pieces. -/
def splineSpec : CurveSpec ℚ where
  reference := .newYear 2025
  helpers := [survivalAt (.newYear 2026) 0, survivalAt (.newYear 2027) 1]
  config := { (default : CurveConfig ℚ) with kind := .survivalProbability, interpolation := .cubicSpline }

/-- The two quotes. -/
def splineQuotes : Market ℚ := acts {} [.newQuote (some (19 / 20)), .newQuote (some (22 / 25))]

/-- The market of that curve, which is not solved yet. -/
def splineMarket : Market ℚ := splineQuotes.act (.build splineSpec)

/-- What the curve is bootstrapped from. -/
def splinePriced : BootstrapInputs ℚ :=
  ⟨⟨.newYear 2025, .act365Fixed, .survivalProbability⟩, Method.cubicSpline.scheme,
    splineSpec.helpers.map (·.priced splineQuotes.values)⟩

/-- The plan for the curve. -/
def splinePlan : BootstrapPlan ℚ :=
  ⟨splinePriced.frame, splinePriced.scheme, default, Brent.finder default,
    splinePriced.helpers.map (Pillar.make splinePriced.frame)⟩

theorem ensure_spline {c : PiecewiseCurve ℚ} (hb : splineSpec.build = .ok c) :
    ∃ d, c.ensure splineMarket.values = (.ok (), d) ∧ d.committed.nodes = ⟨[0, 1, 2], [1, 19 / 20, 22 / 25]⟩ ∧
      d.committed.dates = [.newYear 2025, .newYear 2026, .newYear 2027] := by
  have horder : MarketHelper.inOrder splineSpec.helpers = splineSpec.helpers :=
    List.mergeSort_of_pairwise (by decide +kernel)
  have hmake : BootstrapPlan.make splinePriced default (Brent.finder default) = .ok splinePlan :=
    BootstrapPlan.make_of_pairwise rfl (ok_of_toOption (by decide +kernel)) (by decide) (List.cons_ne_nil _ _)
      (by decide +kernel) (ok_of_toOption (by decide +kernel))
  have hrun : (splinePlan.run.toOption.map fun o => (o.nodes.times, o.nodes.values, o.pillarDates)) =
      some ([0, 1, 2], [1, 19 / 20, 22 / 25], [.newYear 2026, .newYear 2027]) := by
    decide +kernel
  obtain ⟨⟨⟨times, values⟩, dates, _⟩, ho, hfields⟩ := Option.map_eq_some_iff.mp hrun
  cases hfields
  have hbootstrap : bootstrap splinePriced default (Brent.finder default) = splinePlan.run := by
    unfold bootstrap
    rw [hmake]
    rfl
  have hvalues : splineMarket.values = splineQuotes.values := by
    funext id
    rw [values_eq, values_eq, splineMarket, board_act]
    rfl
  obtain ⟨d, hd, hcommitted⟩ := ensure_of_build hb horder (hbootstrap.trans (ok_of_toOption ho))
  rw [hvalues]
  exact ⟨d, hd, congrArg CommittedCurve.nodes hcommitted, congrArg CommittedCurve.dates hcommitted⟩

/-- The spline is read back at its nodes: where its pieces meet, and at the last one too if reads beyond it are
    refused. -/
theorem nodes_read_back_spline :
    ∃ c d, splineMarket.curves.get? 0 = some c ∧ c.ensure splineMarket.values = (.ok (), d) ∧
      d.committed.nodes = ⟨[0, 1, 2], [1, 19 / 20, 22 / 25]⟩ ∧
      (splineMarket.readCurve 0 fun _ => .value 0).map (·.1) = some (.ok 1) ∧
      (splineMarket.readCurve 0 fun _ => .value 1).map (·.1) = some (.ok (19 / 20)) ∧
      (splineMarket.readCurve 0 (Reading.discountAt · (.newYear 2026))).map (·.1) = some (.ok (19 / 20)) ∧
      ((splineMarket.act (.setExtrapolation 0 false)).readCurve 0 fun _ => .value 2).map (·.1) = some (.ok (22 / 25)) ∧
      ((splineMarket.act (.setExtrapolation 0 false)).readCurve 0 (Reading.discountAt · (.newYear 2027))).map (·.1)
        = some (.ok (22 / 25)) := by
  have hquotes : Reachable splineQuotes := Leads.refl.acts (by decide +kernel)
  have hr : Reachable splineMarket := .step (.build splineSpec) hquotes (by decide +kernel) rfl
  obtain ⟨c, hb⟩ := ok_of_isSome (by decide +kernel : splineSpec.build.toOption.isSome = true)
  have hc : splineMarket.curves.get? 0 = some c := get?_act_build _ hb
  obtain ⟨d, hd, hnodes, hdates⟩ := ensure_spline hb
  have heffect : c.effect = none := by
    rw [build_eq hb]
    rfl
  have hscheme : c.scheme = Method.cubicSpline.scheme := by
    rw [build_eq hb]
    rfl
  have hkind : c.config.kind.isProbabilityLike = true := by
    rw [build_eq hb]
    rfl
  have htime (k : Nat) : d.committed.nodes.times[k]? = ([0, 1, 2] : List ℚ)[k]? := by rw [hnodes]
  have hvalue (k : Nat) : d.committed.nodes.values[k]? = ([1, 19 / 20, 22 / 25] : List ℚ)[k]? := by rw [hnodes]
  have hdate (k : Nat) : d.committed.dates[k]? = [Date.newYear 2025, .newYear 2026, .newYear 2027][k]? := by
    rw [hdates]
  obtain ⟨-, -, -, -, hreads, htoggled⟩ := nodes_read_back hr hc heffect hscheme hd
  exact ⟨c, d, hc, hd, hnodes, hreads.value 0 0 1 (htime 0) (hvalue 0), hreads.value 1 1 _ (htime 1) (hvalue 1),
    hreads.discountAt 1 _ _ hkind (hdate 1) (hvalue 1), (htoggled false).value 2 2 _ (htime 2) (hvalue 2),
    (htoggled false).discountAt 2 _ _ hkind (hdate 2) (hvalue 2)⟩

end Market

end TermStructure
