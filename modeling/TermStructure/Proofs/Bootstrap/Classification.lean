import TermStructure.Proofs.Bootstrap.GlobalCheck

/-!
# Classification

Whatever goes wrong underneath, what a bootstrap fails with is one of the errors that a bootstrap can fail with, and
with instruments of the library it tells of no pillar that there is not. Settings that are refused can only be
met before: what a pass finds is always stored.
-/

namespace TermStructure

/-- The numbers of pillars that an error tells of. -/
def CurveError.indices {α : Type} : CurveError α → List Nat
  | .invalidPillar i _ | .pillarFailure i _ | .globalCheckFailure i _ | .rootFind i _ | .interpolation i _ => [i]
  | .helper i source => i :: source.indices
  | _ => []

theorem CurveError.indices_ofNumeric {α : Type} (source : NumericError α) : (ofNumeric source).indices = [] := by
  cases source <;> rfl

variable {α : Type} [Scalar α] {e : CurveError α}

/-- The helper is calibrated to a product of the library. -/
def Helper.IsStandard (h : Helper α) : Prop := ∃ product : Product α, product.IsStandard ∧ h.instrument = product.instrument

/-- A helper of the library has no errors that tell of pillars. -/
theorem Helper.IsStandard.error {h : Helper α} (hs : h.IsStandard) {c : NodeCurve α} {f : Frame}
    (he : c.read (h.instrument.implied f) = .error e) : ∃ source, e = .ofNumeric source := by
  obtain ⟨product, hproduct, hinstrument⟩ := hs
  rw [hinstrument] at he
  refine (hproduct.reports f).run (E := fun e => ∃ source, e = .ofNumeric source) (fun p e hp => ?_) he
  obtain ⟨t, source, -, rfl⟩ := NodeCurve.answerWith_error hp
  exact ⟨source, rfl⟩

namespace PillarSite

variable {site : PillarSite α}

theorem Fails.isBootstrapFailure (h : site.Fails e) : e.isBootstrapFailure = true := by
  cases h <;> rfl

/-- An error of the objective tells of the pillar at most. -/
theorem indices_of_objective (hs : site.pillar.helper.IsStandard) {allow : Bool} {x : α}
    (h : site.objective allow x = .error e) : ∀ i ∈ e.indices, i = site.index := by
  rcases objective_error h with ⟨source, rfl⟩ | hquote | ⟨curve, -, hread⟩
  · exact fun i hi => List.mem_singleton.mp hi
  · obtain ⟨fault, rfl⟩ := Helper.marketQuote_error hquote
    exact nofun
  · obtain ⟨source, rfl⟩ := hs.error hread
    rw [CurveError.indices_ofNumeric]
    exact nofun

theorem Fails.indices (h : site.Fails e) (hs : site.pillar.helper.IsStandard) : ∀ i ∈ e.indices, i = site.index := by
  cases h with
  | helper objective relaxed =>
    intro i hi
    rcases List.mem_cons.mp hi with rfl | hi
    · rfl
    · exact indices_of_objective hs objective i hi
  | interpolation objective => exact indices_of_objective hs objective
  | _ => exact fun i hi => List.mem_singleton.mp hi

end PillarSite

namespace BootstrapPlan

variable {plan : BootstrapPlan α}

theorem indices_of_pass (hs : ∀ p ∈ plan.pillars, p.helper.IsStandard) {seeds : List α}
    (h : plan.pass seeds = .error e) : ∀ i ∈ e.indices, 1 ≤ i ∧ i ≤ plan.pillars.length := by
  obtain ⟨site, -, hpos, hpillar, hfails⟩ := pass_error h
  have hlt := (List.getElem?_eq_some_iff.mp hpillar).1
  intro i hi
  rw [hfails.indices (hs _ (List.mem_of_getElem? hpillar)) i hi]
  omega

theorem indices_of_repriceFrom (hs : ∀ p ∈ plan.pillars, p.helper.IsStandard) {curve : NodeCurve α}
    (h : plan.repriceFrom curve 1 plan.pillars = .error e) : ∀ i ∈ e.indices, 1 ≤ i ∧ i ≤ plan.pillars.length := by
  obtain ⟨k, p, hp, hreprice⟩ := repriceFrom_error h
  have hlt := (List.getElem?_eq_some_iff.mp hp).1
  obtain ⟨allow, source, rfl, hcheck, -⟩ := reprice_error hreprice
  have hsource : source.indices = [] := by
    rcases RepricingCheck.evaluate_error hcheck with hquote | hread
    · obtain ⟨fault, rfl⟩ := Helper.marketQuote_error hquote
      rfl
    · obtain ⟨source, rfl⟩ := (hs p (List.mem_of_getElem? hp)).error hread
      exact CurveError.indices_ofNumeric source
  intro i hi
  change i ∈ (1 + k) :: source.indices at hi
  rw [hsource, List.mem_singleton] at hi
  omega

/-- A missed check is that of a pillar. -/
theorem indices_of_failure [LawfulOrder α] {values : List α} {curve : NodeCurve α} {report : RepricingReport α}
    (hchecked : plan.globalCheck values = .ok (curve, report)) (h : report.failure? = some e) :
    ∀ i ∈ e.indices, 1 ≤ i ∧ i ≤ plan.pillars.length := by
  obtain ⟨index, r, rfl, curve', report', k, worst, hchecked', -, hworst, rfl, -⟩ :=
    (failure?_of_globalCheck hchecked).mp h
  have hlt := (List.getElem?_eq_some_iff.mp hworst.here).1
  rw [(evaluated_of_globalCheck hchecked').count] at hlt
  intro i hi
  rw [List.mem_singleton.mp hi]
  omega

/-- The errors of a run are those of passes and checks. -/
theorem isBootstrapFailure_of_run [LawfulDifference α] {inputs : BootstrapInputs α} {config : BootstrapConfig α}
    {solver : RootFinder α} (hmake : make inputs config solver = .ok plan) (h : plan.run = .error e) :
    e.isBootstrapFailure = true := by
  cases fails_of_run h with
  | pass seeded failed =>
    obtain ⟨site, -, -, -, hfails⟩ := pass_error failed
    exact hfails.isBootstrapFailure
  | curve drafted failed =>
    obtain ⟨source, rfl⟩ := curveOver_error failed
    rfl
  | reprice failed =>
    obtain ⟨k, p, -, hreprice⟩ := repriceFrom_error failed
    obtain ⟨allow, source, rfl, -⟩ := reprice_error hreprice
    rfl
  | check checked failed =>
    obtain ⟨worst, -, rfl⟩ := RepricingReport.failure?_eq_some failed
    rfl
  | store drafted failed =>
    obtain ⟨seeds, -, hpass⟩ := drafted
    cases (ofSolution_of_pass hmake hpass).symm.trans failed

theorem indices_of_run [LawfulOrder α] [LawfulDifference α] {inputs : BootstrapInputs α} {config : BootstrapConfig α}
    {solver : RootFinder α} (hmake : make inputs config solver = .ok plan)
    (hs : ∀ p ∈ plan.pillars, p.helper.IsStandard) (h : plan.run = .error e) :
    ∀ i ∈ e.indices, 1 ≤ i ∧ i ≤ plan.pillars.length := by
  cases fails_of_run h with
  | pass seeded failed => exact indices_of_pass hs failed
  | curve drafted failed =>
    obtain ⟨source, rfl⟩ := curveOver_error failed
    intro i hi
    rw [List.mem_singleton.mp hi]
    exact ⟨List.length_pos_iff.mpr (pillars_ne_nil hmake), le_rfl⟩
  | reprice failed => exact indices_of_repriceFrom hs failed
  | check checked failed => exact indices_of_failure checked failed
  | store drafted failed =>
    obtain ⟨seeds, -, hpass⟩ := drafted
    cases (ofSolution_of_pass hmake hpass).symm.trans failed

end BootstrapPlan

variable {inputs : BootstrapInputs α} {config : BootstrapConfig α} {solver : RootFinder α}

/-- A bootstrap within its settings fails as a bootstrap can. -/
theorem isBootstrapFailure_of_bootstrap [LawfulDifference α] (hvalid : config.validate = .ok ())
    (hmin : inputs.scheme.minPoints ≤ BootstrapPlan.firstTrialNodes) (h : bootstrap inputs config solver = .error e) :
    e.isBootstrapFailure = true := by
  rcases error_of_bind h with h | ⟨plan, hmake, h⟩
  · rcases BootstrapPlan.make_error h with h | ⟨hlt, -⟩ | rfl | ⟨k, t, -, rfl | rfl⟩
    · cases hvalid.symm.trans h
    · omega
    all_goals rfl
  · exact BootstrapPlan.isBootstrapFailure_of_run hmake h

/-- With helpers of the library, an error of a bootstrap tells of none but their pillars. -/
theorem indices_of_bootstrap [LawfulOrder α] [LawfulDifference α] (hs : ∀ h ∈ inputs.helpers, h.IsStandard)
    (h : bootstrap inputs config solver = .error e) : ∀ i ∈ e.indices, 1 ≤ i ∧ i ≤ inputs.helpers.length := by
  rcases error_of_bind h with h | ⟨plan, hmake, h⟩
  · rcases BootstrapPlan.make_error h with h | ⟨-, fault, rfl⟩ | rfl | ⟨k, t, hk, rfl | rfl⟩
    · obtain ⟨fault, rfl⟩ := BootstrapConfig.validate_error h
      exact nofun
    · exact nofun
    · exact nofun
    · intro i hi
      rw [List.mem_singleton.mp hi]
      omega
    · exact nofun
  · rw [← BootstrapPlan.pillars_length hmake]
    refine BootstrapPlan.indices_of_run hmake (fun p hp => ?_) h
    obtain ⟨helper, hhelper, rfl⟩ := BootstrapPlan.exists_helper hmake hp
    exact hs helper hhelper

end TermStructure
