import TermStructure.Proofs.Bootstrap.Failures
import TermStructure.RootFinding.Brent

/-!
# Looking ahead

A helper may read the curve before its first node, beyond its own pillar or beyond the last one, and need not say
so. Wherever it is read in a bootstrap, it is read at last on a curve that answers there, so that being refused an
answer is never what a bootstrap fails with.
-/

namespace TermStructure

/-- Somewhere underneath, a read beyond the nodes was refused. -/
def CurveError.LeavesNodes {α : Type} : CurveError α → Prop
  | .extrapolation .. => True
  | .helper _ source => source.LeavesNodes
  | _ => False

theorem CurveError.isExtrapolation_of_leavesNodes {α : Type} {source : NumericError α}
    (h : (ofNumeric source).LeavesNodes) : (ofNumeric source).IsExtrapolation := by
  cases source <;> exact h

variable {α : Type} [Scalar α]

/-- The instrument has no errors of its own. Whatever it reads and whenever, it fails only with what some
    question is answered by the curve. -/
def Instrument.Relays (i : Instrument α) : Prop :=
  ∀ (c : NodeCurve α) (e : CurveError α), c.read (i.implied c.frame) = .error e → ∃ p, c.answer p = .error e

/-- A computation that passes on what it is answered has no errors of its own. -/
theorem Instrument.relays_of_reports {i : Instrument α} (h : ∀ f E, (i.implied f).Reports E) : i.Relays := fun c _ he =>
  (h c.frame fun e => ∃ p, c.answer p = .error e).run (fun p _ hp => ⟨p, hp⟩) he

theorem Product.IsStandard.relays {p : Product α} (h : p.IsStandard) : p.instrument.Relays :=
  Instrument.relays_of_reports fun f _ => h.reports f

/-- Whoever tells of a refusal only where reads beyond the nodes are answered has none to tell of. -/
theorem Instrument.Relays.not_leavesNodes {i : Instrument α} (h : i.Relays) {c : NodeCurve α} {e : CurveError α}
    (he : c.read (i.implied c.frame) = .error e) (hallow : e.IsExtrapolation → c.extrapolates = true) :
    ¬e.LeavesNodes := by
  obtain ⟨p, hp⟩ := h c e he
  obtain ⟨t, source, -, rfl⟩ := NodeCurve.answerWith_error hp
  intro hleaves
  have hrefused := CurveError.isExtrapolation_of_leavesNodes hleaves
  exact NodeCurve.not_isExtrapolation_of_answer (hallow hrefused) hp hrefused

theorem PillarSite.Fails.not_leavesNodes {site : PillarSite α} {e : CurveError α} (h : site.Fails e)
    (hrelays : site.pillar.helper.instrument.Relays) : ¬e.LeavesNodes := by
  cases h with
  | @helper _ _ source objective relaxed =>
    change ¬source.LeavesNodes
    rcases objective_error objective with ⟨source, rfl⟩ | hquote | ⟨curve, hcurve, hread⟩
    · exact id
    · obtain ⟨fault, rfl⟩ := Helper.marketQuote_error hquote
      exact id
    · obtain ⟨f, -, rfl⟩ := BootstrapPlan.curveOver_ok hcurve
      exact hrelays.not_leavesNodes hread relaxed
  | _ => exact id

namespace BootstrapPlan

variable {plan : BootstrapPlan α} {e : CurveError α}

/-- No instrument of the plan has errors of its own. -/
def Relays (plan : BootstrapPlan α) : Prop := ∀ p ∈ plan.pillars, p.helper.instrument.Relays

theorem Relays.not_leavesNodes_of_pass (h : plan.Relays) {seeds : List α} (he : plan.pass seeds = .error e) :
    ¬e.LeavesNodes := by
  obtain ⟨site, -, -, hpillar, hfails⟩ := pass_error he
  exact hfails.not_leavesNodes (h _ (List.mem_of_getElem? hpillar))

theorem Relays.not_leavesNodes_of_repriceFrom (h : plan.Relays) {curve : NodeCurve α}
    (he : plan.repriceFrom curve 1 plan.pillars = .error e) : ¬e.LeavesNodes := by
  obtain ⟨k, p, hp, hreprice⟩ := repriceFrom_error he
  obtain ⟨allow, source, rfl, hcheck, hallow⟩ := reprice_error hreprice
  change ¬source.LeavesNodes
  rcases RepricingCheck.evaluate_error hcheck with hquote | hread
  · obtain ⟨fault, rfl⟩ := Helper.marketQuote_error hquote
    exact id
  · exact (h p (List.mem_of_getElem? hp)).not_leavesNodes hread hallow

theorem Relays.not_leavesNodes_of_globalCheck (h : plan.Relays) {values : List α}
    (he : plan.globalCheck values = .error e) : ¬e.LeavesNodes := by
  rcases error_of_bind he with he | ⟨curve, -, he⟩
  · obtain ⟨source, rfl⟩ := curveOver_error he
    exact id
  · rcases error_of_bind he with he | ⟨checks, -, he⟩
    · exact h.not_leavesNodes_of_repriceFrom he
    · cases he

theorem Relays.not_leavesNodes_of_retry (h : plan.Relays) {d : Draft α} (he : plan.retry d = .error e) :
    ¬e.LeavesNodes := by
  rcases error_of_bind he with he | ⟨d', -, he⟩
  · rcases error_of_bind he with he | ⟨pass, -, he⟩
    · exact h.not_leavesNodes_of_pass he
    · cases he
  · rcases error_of_bind he with he | ⟨checked, -, he⟩
    · exact h.not_leavesNodes_of_globalCheck he
    · cases he

theorem Relays.not_leavesNodes_of_run (h : plan.Relays) (he : plan.run = .error e) : ¬e.LeavesNodes := by
  cases fails_of_run he with
  | pass seeded failed => exact h.not_leavesNodes_of_pass failed
  | curve drafted failed =>
    obtain ⟨source, rfl⟩ := curveOver_error failed
    exact id
  | reprice failed => exact h.not_leavesNodes_of_repriceFrom failed
  | check checked failed =>
    obtain ⟨worst, -, rfl⟩ := RepricingReport.failure?_eq_some failed
    exact id
  | store drafted failed =>
    rcases NodeStore.ofSolution_error failed with ⟨fault, rfl⟩ | ⟨t, rfl⟩ <;> exact id

end BootstrapPlan

/-- If the helpers fail only with what the curve answers, then no pass of a bootstrap, seeded with whatever values, no
    check of whatever values, no pass after a failed check and not the bootstrap as a whole ends with a refused
    read beyond the nodes, neither as it is nor as the error of a helper. This holds wherever the helpers read, whether
    they say so or not, and for every scheme and root finder. -/
theorem look_ahead_never_fails {inputs : BootstrapInputs α} {config : BootstrapConfig α} {solver : RootFinder α}
    (hrelays : ∀ h ∈ inputs.helpers, h.instrument.Relays) :
    (∀ plan, BootstrapPlan.make inputs config solver = .ok plan →
      (∀ seeds e, plan.pass seeds = .error e → ¬e.LeavesNodes) ∧
      (∀ values e, plan.globalCheck values = .error e → ¬e.LeavesNodes) ∧
      (∀ d e, plan.retry d = .error e → ¬e.LeavesNodes) ∧
      ∀ e, plan.run = .error e → ¬e.LeavesNodes) ∧
    ∀ e, bootstrap inputs config solver = .error e → ¬e.LeavesNodes := by
  have hplan {plan : BootstrapPlan α} (hmake : BootstrapPlan.make inputs config solver = .ok plan) : plan.Relays := by
    intro p hp
    obtain ⟨helper, hhelper, rfl⟩ := BootstrapPlan.exists_helper hmake hp
    exact hrelays helper hhelper
  refine ⟨fun plan hmake => ?_, fun e he => ?_⟩
  · have hrelays := hplan hmake
    exact ⟨fun seeds e => hrelays.not_leavesNodes_of_pass, fun values e => hrelays.not_leavesNodes_of_globalCheck,
      fun d e => hrelays.not_leavesNodes_of_retry, fun e => hrelays.not_leavesNodes_of_run⟩
  · rcases error_of_bind he with he | ⟨plan, hmake, he⟩
    -- Where there is no plan, nothing was read.
    · rcases BootstrapPlan.make_error he with he | ⟨-, fault, rfl⟩ | rfl | ⟨k, t, -, rfl | rfl⟩
      · obtain ⟨fault, rfl⟩ := BootstrapConfig.validate_error he
        exact id
      all_goals exact id
    · exact (hplan hmake).not_leavesNodes_of_run he

/-- A hazard rate between that of a year before the curve begins and that of four years after its pillar, of which it
    says nothing. -/
def straddlingHazard (quote : ℚ) : Helper ℚ where
  instrument :=
    { pillar := .newYear 2026
      latest := .newYear 2026
      description := "Hazard rate"
      implied := fun f => do
        let before ← Reading.value (f.time (.newYear 2024))
        let after ← Reading.value (f.time (.newYear 2030))
        return (before + after) / 2 }
  quote := some quote

def straddlingInputs (quote : ℚ) : BootstrapInputs ℚ where
  frame := ⟨.newYear 2025, .act365Fixed, .hazardRate⟩
  scheme := Method.backwardFlat.scheme
  helpers := [straddlingHazard quote]

theorem relays_straddlingHazard (quote : ℚ) : (straddlingHazard quote).instrument.Relays :=
  Instrument.relays_of_reports fun _ _ => (Reading.reports_value _).bind fun _ => (Reading.reports_value _).bind
    fun _ => Reading.reports_pure _

/-- One bootstrap succeeds though its curve refuses the helper afterwards, and one fails for want of a root. -/
theorem look_ahead_never_fails_straddling :
    (∃ o t low high, bootstrap (straddlingInputs (1 / 100)) default (Brent.finder default) = .ok o ∧
      o.curve.read ((straddlingHazard (1 / 100)).instrument.implied o.curve.frame) = .error (.extrapolation t low high)) ∧
    ∃ e, bootstrap (straddlingInputs 50) default (Brent.finder default) = .error e ∧ ¬e.LeavesNodes := by
  constructor
  · obtain ⟨o, ho⟩ := ok_of_isSome (by decide +kernel :
      (bootstrap (straddlingInputs (1 / 100)) default (Brent.finder default)).toOption.isSome = true)
    have hrefused : (bootstrap (straddlingInputs (1 / 100)) default (Brent.finder default) >>= fun o =>
        o.curve.read ((straddlingHazard (1 / 100)).instrument.implied o.curve.frame))
          = .error (.extrapolation (-366 / 365) 0 1) := by
      decide +kernel
    rw [ho] at hrefused
    exact ⟨o, _, _, _, ho, hrefused⟩
  · obtain ⟨e, he⟩ := error_of_isNone (by decide +kernel :
      (bootstrap (straddlingInputs 50) default (Brent.finder default)).toOption.isNone = true)
    refine ⟨e, he, (look_ahead_never_fails fun h hh => ?_).2 e he⟩
    rw [List.mem_singleton.mp hh]
    exact relays_straddlingHazard 50

end TermStructure
