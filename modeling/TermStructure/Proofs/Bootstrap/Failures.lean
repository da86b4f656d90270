import TermStructure.Proofs.Bootstrap.Passes
import TermStructure.Proofs.Curve.Range
import TermStructure.Proofs.Instrument.Readings

/-!
# Failures

What went wrong underneath an error of a bootstrap. Whatever a helper, the scheme or the root finder raised
is wrapped with the number of the pillar on its way up, and a read beyond the nodes is told only if the curve that was
read was one that answers there.
-/

namespace TermStructure

variable {α : Type} [Scalar α]

/-! ### Stages -/

theorem BootstrapConfig.validate_error {c : BootstrapConfig α} {e : CurveError α} (h : c.validate = .error e) :
    ∃ fault, e = .invalidConfig fault := by
  unfold validate at h
  split at h
  · exact ⟨_, (Except.error.inj h).symm⟩
  · split at h
    · exact ⟨_, (Except.error.inj h).symm⟩
    · split at h
      · exact ⟨_, (Except.error.inj h).symm⟩
      · cases h

theorem Pillar.check_error {index : Nat} {previous : α} {pillars : List (Pillar α)} {e : CurveError α}
    (h : check index previous pillars = .error e) :
    ∃ k p, pillars[k]? = some p ∧ (e = .invalidPillar (index + k) p.time ∨ e = .duplicatePillar p.time) := by
  induction pillars generalizing index previous with
  | nil => cases h
  | cons p rest ih =>
    unfold check at h
    split at h
    · cases h
      exact ⟨0, p, rfl, .inl rfl⟩
    · split at h
      · cases h
        exact ⟨0, p, rfl, .inr rfl⟩
      · obtain ⟨k, q, hq, he⟩ := ih h
        rw [Nat.add_assoc, Nat.add_comm 1 k] at he
        exact ⟨k + 1, q, hq, he⟩

omit [Scalar α] in
/-- A quote can only be missing. -/
theorem Helper.marketQuote_error {h : Helper α} {e : CurveError α} (he : h.marketQuote = .error e) :
    ∃ fault, e = .invalidQuote fault := by
  unfold marketQuote at he
  split at he
  · cases he
  · exact ⟨_, (Except.error.inj he).symm⟩

theorem NodeStore.ofSolution_error {times values : List α} {e : CurveError α} (h : ofSolution times values = .error e) :
    (∃ fault, e = .invalidConfig fault) ∨ ∃ t, e = .duplicatePillar t := by
  unfold ofSolution at h
  split at h
  · exact .inl ⟨_, (Except.error.inj h).symm⟩
  · split at h
    · exact .inl ⟨_, (Except.error.inj h).symm⟩
    · split at h
      · exact .inr ⟨_, (Except.error.inj h).symm⟩
      · cases h

theorem RepricingReport.failure?_eq_some {report : RepricingReport α} {e : CurveError α} (h : report.failure? = some e) :
    ∃ worst, worst? report.checks = some worst ∧ e = .globalCheckFailure worst.index worst.residual := by
  unfold failure? at h
  split at h
  · cases h
  · obtain ⟨worst, hworst, he⟩ := Option.map_eq_some_iff.mp h
    exact ⟨worst, hworst, he.symm⟩

/-- A check that is not made lacks a quote on one side or the other. -/
theorem RepricingCheck.evaluate_error {index : Nat} {h : Helper α} {curve : NodeCurve α} {tolerance : α} {e : CurveError α}
    (he : evaluate index h curve tolerance = .error e) :
    h.marketQuote = .error e ∨ curve.read (h.instrument.implied curve.frame) = .error e := by
  rcases error_of_bind he with he | ⟨market, -, he⟩
  · exact .inl he
  · rcases error_of_bind he with he | ⟨implied, -, he⟩
    · exact .inr he
    · cases he

namespace BootstrapPlan

variable {plan : BootstrapPlan α} {curve : NodeCurve α} {e : CurveError α}

omit [Scalar α] in
theorem curveOver_error {index : Nat} {times values : List α} (h : plan.curveOver index times values = .error e) :
    ∃ source, e = .interpolation index source := by
  unfold curveOver at h
  split at h
  · cases h
  · rename_i source _
    exact ⟨source, (Except.error.inj h).symm⟩

/-- A helper that cannot be repriced has an error of its own, which is not that it was refused an answer where it
    might have been given one. -/
theorem reprice_error {index : Nat} {p : Pillar α} (h : plan.reprice curve index p = .error e) :
    ∃ allow source, e = .helper index source ∧
      RepricingCheck.evaluate index p.helper (curve.extrapolating allow) plan.config.accuracy = .error source ∧
      (source.IsExtrapolation → allow = true) := by
  obtain ⟨source, hsource, rfl⟩ := error_of_mapError h
  split at hsource
  · rename_i t low high hext
    split at hsource
    · rename_i hdeclared
      cases hsource
      exact ⟨_, _, rfl, hext, fun _ => hdeclared⟩
    · exact ⟨true, source, rfl, hsource, fun _ => rfl⟩
  · rename_i hother
    refine ⟨_, source, rfl, hsource, fun hext => ?_⟩
    cases source with
    | extrapolation t low high => exact absurd hsource (hother t low high)
    | _ => exact hext.elim

theorem repriceFrom_error {index : Nat} {pillars : List (Pillar α)}
    (h : plan.repriceFrom curve index pillars = .error e) :
    ∃ k p, pillars[k]? = some p ∧ plan.reprice curve (index + k) p = .error e := by
  induction pillars generalizing index with
  | nil => cases h
  | cons p rest ih =>
    rcases error_of_bind h with h | ⟨check, -, h⟩
    · exact ⟨0, p, rfl, h⟩
    · rcases error_of_bind h with h | ⟨checks, -, h⟩
      · obtain ⟨k, q, hq, he⟩ := ih h
        rw [Nat.add_assoc, Nat.add_comm 1 k] at he
        exact ⟨k + 1, q, hq, he⟩
      · cases h

/-- A check that cannot be made fails because of the scheme or of a helper. -/
theorem globalCheck_error {values : List α} (h : plan.globalCheck values = .error e) :
    (∃ source, e = .interpolation plan.pillars.length source) ∨
      ∃ curve k p, plan.pillars[k]? = some p ∧ plan.reprice curve (1 + k) p = .error e := by
  rcases error_of_bind h with h | ⟨curve, -, h⟩
  · exact .inl (curveOver_error h)
  · rcases error_of_bind h with h | ⟨checks, -, h⟩
    · exact .inr ⟨curve, repriceFrom_error h⟩
    · cases h

end BootstrapPlan

/-- A plan is refused for its settings, for its scheme, or for one of its pillars. -/
theorem BootstrapPlan.make_error {inputs : BootstrapInputs α} {config : BootstrapConfig α} {solver : RootFinder α}
    {e : CurveError α} (h : make inputs config solver = .error e) :
    config.validate = .error e ∨ firstTrialNodes < inputs.scheme.minPoints ∧ (∃ fault, e = .invalidConfig fault) ∨
      e = .emptyHelperSet ∨ ∃ (k : Nat) (t : α), k < inputs.helpers.length ∧
        (e = .invalidPillar (1 + k) t ∨ e = .duplicatePillar t) := by
  rcases error_of_bind h with h | ⟨_, -, h⟩
  · exact .inl h
  · dsimp only at h
    split at h
    · rename_i hmin
      exact .inr (.inl ⟨hmin, _, (Except.error.inj h).symm⟩)
    · split at h
      · exact .inr (.inr (.inl (Except.error.inj h).symm))
      · rcases error_of_bind h with h | ⟨_, -, h⟩
        · obtain ⟨k, p, hp, he⟩ := Pillar.check_error h
          have hk := (List.getElem?_eq_some_iff.mp hp).1
          have hlength : (Pillar.inOrder (inputs.helpers.map (Pillar.make inputs.frame))).length
              = inputs.helpers.length := by
            rw [Pillar.inOrder, List.length_mergeSort, List.length_map]
          rw [hlength] at hk
          exact .inr (.inr (.inr ⟨k, p.time, hk, he⟩))
        · cases h

/-! ### One pillar -/

namespace PillarSite

variable {site : PillarSite α} {e : CurveError α}

/-- How a pillar fails to be solved. -/
inductive Fails (site : PillarSite α) : CurveError α → Prop where
  /-- The objective has an error, which is not that the helper was refused an answer where it might have been given
      one. -/
  | helper {allow : Bool} {x : α} {source : CurveError α} (objective : site.objective allow x = .error source)
      (relaxed : source.IsExtrapolation → allow = true) : Fails site (.helper site.index source)
  /-- The scheme is to blame for the error of the objective. -/
  | interpolation {allow : Bool} {x : α} {index : Nat} {source : NumericError α}
      (objective : site.objective allow x = .error (.interpolation index source)) :
      Fails site (.interpolation index source)
  | rootFind (source : NumericError α) : Fails site (.rootFind site.index source)
  | pillarFailure (residual : α) : Fails site (.pillarFailure site.index residual)

/-- The objective has no value if there is no trial curve, or no quote on one side or the other. -/
theorem objective_error {allow : Bool} {x : α} (h : site.objective allow x = .error e) :
    (∃ source, e = .interpolation site.index source) ∨ site.pillar.helper.marketQuote = .error e ∨
      ∃ curve, site.trialCurve x = .ok curve ∧
        (curve.extrapolating allow).read (site.pillar.helper.instrument.implied site.plan.frame) = .error e := by
  rcases error_of_bind h with h | ⟨curve, hcurve, h⟩
  · exact .inl (BootstrapPlan.curveOver_error h)
  · change Reading.run _ (_ >>= _) = _ at h
    rw [Reading.run_bind] at h
    rcases error_of_bind h with h | ⟨implied, -, h⟩
    · exact .inr (.inr ⟨curve, hcurve, h⟩)
    · rw [Reading.run_bind] at h
      rcases error_of_bind h with h | ⟨market, -, h⟩
      · exact .inr (.inl h)
      · cases h

/-- What the objective said first that was an error. -/
theorem objective_of_firstError? {guess : α} {bracket : Bracket α} {allow : Bool}
    (h : (site.attempt guess bracket allow).firstError? = some e) : ∃ x, site.objective allow x = .error e := by
  obtain ⟨⟨x, answer⟩, hs, he⟩ := List.exists_of_findSome?_eq_some h
  have hanswer : answer = site.objective allow x := Search.answer_of_mem_samples hs
  dsimp only at he
  split at he
  · cases he
  · cases he
    exact ⟨x, hanswer.symm⟩

theorem fails_of_solveFrom {guess : α} {bracket : Bracket α} {allow widened : Bool}
    (h : (site.solveFrom guess bracket allow widened).result = .error e) : site.Fails e := by
  -- A refused read ends a search that was allowed to go beyond the nodes (`case1`), and leads to one otherwise (`case2`).
  fun_induction solveFrom site guess bracket allow widened
  case case1 hfirst =>
    cases h
    obtain ⟨x, hx⟩ := objective_of_firstError? hfirst
    exact .helper hx fun _ => rfl
  case case2 ih => exact ih h
  case case3 hfirst =>
    cases h
    obtain ⟨x, hx⟩ := objective_of_firstError? hfirst
    exact .interpolation hx
  case case4 e' hext hint hfirst =>
    cases h
    obtain ⟨x, hx⟩ := objective_of_firstError? hfirst
    refine .helper hx fun hrefused => ?_
    cases e' with
    | extrapolation t low high => exact (hext t low high rfl).elim
    | _ => exact hrefused.elim
  case case5 => cases h
  case case6 =>
    cases h
    exact .rootFind _
  case case7 =>
    cases h
    exact .pillarFailure _
  case case8 ih => exact ih h

end PillarSite

/-! ### One pass -/

namespace BootstrapPlan

variable {plan : BootstrapPlan α} {seeds : List α} {site : PillarSite α} {guess : α} {e : CurveError α}

/-- A pass numbers the pillars it visits from 1. -/
theorem visits_pillar {values : List α} (hvalues : values.length = 1)
    (h : plan.Visits values seeds plan.pillars site guess) :
    site.plan = plan ∧ 0 < site.index ∧ plan.pillars[site.index - 1]? = some site.pillar := by
  obtain ⟨anchor, rfl⟩ := List.length_eq_one_iff.mp hvalues
  obtain ⟨hplan, rest, hplaced⟩ := h.placed
  exact ⟨hplan, hplaced.pos, hplaced.pillar⟩

/-- A pass fails at one of the pillars. -/
theorem pass_error (h : plan.pass seeds = .error e) :
    ∃ site : PillarSite α, site.plan = plan ∧ 0 < site.index ∧ plan.pillars[site.index - 1]? = some site.pillar ∧
      site.Fails e := by
  obtain ⟨site, guess, hvisits, herror⟩ := visits_of_passFrom_error h
  obtain ⟨hplan, hpos, hpillar⟩ := visits_pillar rfl hvisits
  exact ⟨site, hplan, hpos, hpillar, PillarSite.fails_of_solveFrom herror⟩

/-! ### A run -/

variable {d : Draft α} {curve : NodeCurve α}

/-- Where an error of a run comes from. -/
inductive Fails (plan : BootstrapPlan α) (e : CurveError α) : Prop where
  | pass {seeds : List α} (seeded : plan.Seeds seeds) (failed : plan.pass seeds = .error e)
  | curve {d : Draft α} (drafted : plan.Drafted d) (failed : plan.finishedCurve d.last.values = .error e)
  | reprice {curve : NodeCurve α} (failed : plan.repriceFrom curve 1 plan.pillars = .error e)
  | check {values : List α} {curve : NodeCurve α} {report : RepricingReport α}
      (checked : plan.globalCheck values = .ok (curve, report)) (failed : report.failure? = some e)
  | store {d : Draft α} (drafted : plan.Drafted d)
      (failed : NodeStore.ofSolution plan.times d.last.values = .error e)

theorem fails_of_extend (hd : plan.Drafted d) (h : plan.extend d = .error e) : plan.Fails e := by
  obtain ⟨seeds, hseeds, hpass⟩ := hd
  rcases error_of_bind h with h | ⟨pass, -, h⟩
  · exact .pass (.seeded hseeds hpass) h
  · cases h

theorem fails_of_publish (hd : plan.Drafted d) {curve : NodeCurve α} {report : Option (RepricingReport α)}
    (h : plan.publish d curve report = .error e) : plan.Fails e := by
  rcases error_of_bind h with h | ⟨nodes, -, h⟩
  · exact .store hd h
  · cases h

theorem fails_of_globalCheck (hd : plan.Drafted d) (h : plan.globalCheck d.last.values = .error e) : plan.Fails e := by
  rcases error_of_bind h with h | ⟨curve, -, h⟩
  · exact .curve hd h
  · rcases error_of_bind h with h | ⟨checks, -, h⟩
    · exact .reprice h
    · cases h

theorem fails_of_retry (hd : plan.Drafted d) (h : plan.retry d = .error e) : plan.Fails e := by
  rcases error_of_bind h with h | ⟨d', hextend, h⟩
  · exact fails_of_extend hd h
  · rcases error_of_bind h with h | ⟨checked, -, h⟩
    · exact fails_of_globalCheck (hd.extend hextend) h
    · cases h

/-- After a failed check the run fails with that failure, unless one more pass breaks off. -/
theorem fails_of_recover (hd : plan.Drafted d) {report : RepricingReport α} {failure : CurveError α}
    (hchecked : plan.globalCheck d.last.values = .ok (curve, report)) (hfailure : report.failure? = some failure)
    (h : plan.recover d failure = .error e) : plan.Fails e := by
  have hcheck : plan.Fails failure := .check hchecked hfailure
  unfold recover at h
  split at h
  · split at h
    · rename_i d' curve report' hretry
      obtain ⟨d'', hextend, hretry⟩ := ok_of_bind hretry
      obtain ⟨⟨c, r⟩, -, hretry⟩ := ok_of_bind hretry
      cases hretry
      split at h
      · exact fails_of_publish (hd.extend hextend) h
      · cases h
        exact hcheck
    · rename_i hretry
      cases h
      split
      · exact fails_of_retry hd hretry
      · exact hcheck
  · cases h
    exact hcheck

theorem fails_of_run (h : plan.run = .error e) : plan.Fails e := by
  rcases error_of_bind h with h | ⟨d, hdraft, h⟩
  · rcases error_of_bind h with h | ⟨pass, hpass, h⟩
    · exact .pass .unseeded h
    · dsimp only at h
      split at h
      · exact fails_of_extend ⟨[], .unseeded, hpass⟩ h
      · cases h
  · have hd := (draft_ok hdraft).1
    split at h
    · rcases error_of_bind h with h | ⟨⟨curve, report⟩, hchecked, h⟩
      · exact fails_of_globalCheck hd h
      · dsimp only at h
        split at h
        · exact fails_of_publish hd h
        · rename_i failure hfailure
          exact fails_of_recover hd hchecked hfailure h
    · rcases error_of_bind h with h | ⟨curve, -, h⟩
      · exact .curve hd h
      · exact fails_of_publish hd h

end BootstrapPlan

end TermStructure
