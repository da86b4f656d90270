import TermStructure.Proofs.Calendar.Order
import TermStructure.Proofs.Bootstrap.Stages
import TermStructure.RootFinding.Brent

/-!
# Repricing

A bootstrap that is asked to check its helpers publishes a curve only if every helper is repriced on it.
Three paths lead there, and on each of them the values, the curve and the report belong together.
-/

namespace TermStructure

variable {α : Type} [Scalar α]

/-- The quote implied by a helper on a curve over nodes up to a time. The curve answers beyond its nodes
    only if the helper says that it reads there, or was refused to. -/
def Implies (curve : NodeCurve α) (maxTime : α) (p : Pillar α) (implied : α) : Prop :=
  ∃ allow, (curve.extrapolating allow).read (p.helper.instrument.implied curve.frame) = .ok implied ∧
    (allow = true → p.latestTime > maxTime ∨ ∃ t low high,
      (curve.extrapolating false).read (p.helper.instrument.implied curve.frame) = .error (.extrapolation t low high))

/-- What a check compares, whether it passes or not: the quote that a curve implies for a pillar with that of the
    market. -/
structure Compares (curve : NodeCurve α) (maxTime accuracy : α) (index : Nat) (p : Pillar α)
    (check : RepricingCheck α) : Prop where
  index : check.index = index
  description : check.description = p.helper.instrument.description
  market : p.helper.quote = some check.market
  implied : Implies curve maxTime p check.implied
  residual : check.residual = check.implied - check.market
  error : check.error = Scalar.abs check.residual
  passed : check.passed = decide (check.error ≤ accuracy)

/-- What a check says of a pillar that is repriced on a curve within an accuracy. -/
structure Reprices (curve : NodeCurve α) (maxTime accuracy : α) (index : Nat) (p : Pillar α)
    (check : RepricingCheck α) : Prop where
  index : check.index = index
  description : check.description = p.helper.instrument.description
  market : p.helper.quote = some check.market
  implied : Implies curve maxTime p check.implied
  residual : check.residual = check.implied - check.market
  within : Scalar.abs (check.implied - check.market) ≤ accuracy
  passed : check.passed = true
  isNumber : Scalar.isNaN check.implied = false

namespace BootstrapPlan

variable {plan : BootstrapPlan α} {curve : NodeCurve α} {p : Pillar α} {index : Nat} {check : RepricingCheck α}

theorem reprice_implies {allow : Bool} {market implied : α} (hq : p.helper.quote = some market)
    (hi : (curve.extrapolating allow).read (p.helper.instrument.implied curve.frame) = .ok implied)
    (ha : allow = plan.declares p ∨ allow = true ∧ ∃ t low high,
      RepricingCheck.evaluate index p.helper (curve.extrapolating (plan.declares p)) plan.config.accuracy
        = .error (.extrapolation t low high)) : Implies curve (plan.times.getLastD 0) p implied := by
  refine ⟨allow, hi, fun hallow => ?_⟩
  rcases ha with ha | ⟨-, t, low, high, he⟩
  · rw [hallow] at ha
    exact .inl (of_decide_eq_true ha.symm)
  · cases hd : plan.declares p with
    | true => exact .inl (of_decide_eq_true hd)
    | false =>
      rw [hd, RepricingCheck.evaluate_eq hq] at he
      exact .inr ⟨t, low, high, error_of_map he⟩

theorem compares_of_reprice (h : plan.reprice curve index p = .ok check) :
    Compares curve (plan.times.getLastD 0) plan.config.accuracy index p check := by
  obtain ⟨allow, he, ha⟩ := reprice_ok h
  obtain ⟨market, implied, hq, hi, rfl⟩ := RepricingCheck.evaluate_ok he
  exact ⟨rfl, rfl, hq, reprice_implies hq hi ha, rfl, rfl, rfl⟩

/-- A check that passed has repriced its pillar. What is not a number does not pass. -/
theorem reprices_of_passed [LawfulNaN α] (h : plan.reprice curve index p = .ok check) (hp : check.passed = true) :
    Reprices curve (plan.times.getLastD 0) plan.config.accuracy index p check := by
  have hc := compares_of_reprice h
  have hle : Scalar.abs (check.implied - check.market) ≤ plan.config.accuracy := by
    rw [← hc.residual, ← hc.error]
    exact of_decide_eq_true (hc.passed.symm.trans hp)
  refine ⟨hc.index, hc.description, hc.market, hc.implied, hc.residual, hle, hp, Bool.eq_false_iff.mpr fun hn => ?_⟩
  exact LawfulNaN.not_le_of_isNaN (LawfulNaN.isNaN_abs (LawfulNaN.isNaN_sub hn)) hle

end BootstrapPlan

/-- Whenever a bootstrap that checks its helpers returns, by whichever path, its report has a check for
    each helper in the order of the pillars, every helper is repriced within the accuracy on the curve
    that is returned, and that curve is built over the nodes that are returned. -/
theorem bootstrap_reprices [LawfulNaN α] {inputs : BootstrapInputs α} {config : BootstrapConfig α}
    {solver : RootFinder α} {o : BootstrapOutcome α} (hg : config.globalCheck = true)
    (h : bootstrap inputs config solver = .ok o) :
    ∃ pillars report, pillars = Pillar.inOrder (inputs.helpers.map (Pillar.make inputs.frame)) ∧
      pillars.Perm (inputs.helpers.map (Pillar.make inputs.frame)) ∧
      o.nodes.times = 0 :: pillars.map (·.time) ∧ o.pillarDates = pillars.map (·.date) ∧
      inputs.scheme.build o.nodes.times o.nodes.values = .ok o.curve.interpolant ∧
      o.curve.frame = inputs.frame ∧ o.curve.extrapolates = false ∧
      o.report = some report ∧ report.checks.length = pillars.length ∧ report.allPassed = true ∧
      ∀ k p, pillars[k]? = some p → ∃ check, report.checks[k]? = some check ∧
        Reprices o.curve o.nodes.maxTime config.accuracy (k + 1) p check := by
  obtain ⟨plan, hplan, hrun⟩ := bootstrap_ok h
  obtain ⟨rfl, -⟩ := BootstrapPlan.make_ok hplan
  obtain ⟨d, curve, report, hc⟩ := BootstrapPlan.run_ok hg hrun
  obtain ⟨hcurve, checks, hchecks, rfl⟩ := BootstrapPlan.globalCheck_ok hc.check
  obtain ⟨f, hf, rfl⟩ := BootstrapPlan.curveOver_ok hcurve
  obtain ⟨hlen, hall⟩ := BootstrapPlan.repriceFrom_ok hchecks
  cases BootstrapPlan.publish_ok hc.publish
  refine ⟨_, _, rfl, List.mergeSort_perm _ _, rfl, rfl, hf, rfl, rfl, rfl, hlen, hc.passed, fun k p hk => ?_⟩
  obtain ⟨check, hcheck, hp⟩ := hall k p hk
  have hpassed : check.passed = true := List.all_eq_true.mp hc.passed check (List.mem_of_getElem? hcheck)
  refine ⟨check, hcheck, ?_⟩
  rw [Nat.add_comm k 1]
  exact BootstrapPlan.reprices_of_passed hp hpassed

/-- A hazard rate quoted for one date. -/
def flatHazard (date : Date) : Helper ℚ :=
  ⟨⟨date, date, "Hazard rate", fun f => Reading.value (f.time date)⟩, some (1 / 100)⟩

/-- A curve of one hazard rate. -/
def flatInputs : BootstrapInputs ℚ where
  frame := ⟨.newYear 2025, .act365Fixed, .hazardRate⟩
  scheme := Method.backwardFlat.scheme
  helpers := [flatHazard (.newYear 2026)]

theorem bootstrap_reprices_flat : ∃ o report, bootstrap flatInputs default (Brent.finder default) = .ok o ∧
    o.report = some report ∧ report.checks.length = 1 ∧ report.allPassed = true := by
  obtain ⟨o, h⟩ := ok_of_isSome
    (by decide +kernel : (bootstrap flatInputs default (Brent.finder default)).toOption.isSome = true)
  obtain ⟨pillars, report, -, hperm, -, -, -, -, -, hreport, hlen, hpassed, -⟩ := bootstrap_reprices rfl h
  refine ⟨o, report, h, hreport, ?_, hpassed⟩
  rw [hlen, hperm.length_eq]
  rfl

end TermStructure
