import TermStructure.Proofs.Curve.SearchInterval
import TermStructure.Proofs.Bootstrap.Failures
import TermStructure.Proofs.Bootstrap.TrialCurve

/-!
# Nodes within the limits

A search stays in its interval, the intervals of a kind stay within its limits, and a scheme that can carry
the kind takes all nodes within them. So in every pass of a run the trial curves can be built, and a run does
not fail because of its scheme. Survival probabilities are left out: their intervals may leave the limits.
-/

namespace TermStructure

/-! ### Errors that are not the scheme's -/

/-- The scheme is to blame for the error. -/
def CurveError.IsInterpolation {α : Type} : CurveError α → Prop
  | .interpolation _ _ => True
  | _ => False

theorem CurveError.not_isInterpolation_ofNumeric {α : Type} (e : NumericError α) : ¬(CurveError.ofNumeric e).IsInterpolation := by
  cases e <;> exact id

theorem BootstrapPlan.not_isInterpolation_of_make {α : Type} [Scalar α] {inputs : BootstrapInputs α}
    {config : BootstrapConfig α} {solver : RootFinder α} {e : CurveError α} (h : make inputs config solver = .error e) :
    ¬e.IsInterpolation := by
  rcases make_error h with h | ⟨-, fault, rfl⟩ | rfl | ⟨k, t, -, rfl | rfl⟩
  · obtain ⟨fault, rfl⟩ := BootstrapConfig.validate_error h
    exact id
  all_goals exact id

section
variable {α : Type} [ScalarField α]

/-! ### Carried nodes -/

/-- Nodes that a curve of the kind may have. -/
structure CurveKind.Carries (kind : CurveKind) (times values : List α) : Prop where
  length_eq : times.length = values.length
  increasing : times.Pairwise (· < ·)
  finite : ∀ y ∈ values, Scalar.isFinite y = true
  admitted : ∀ y ∈ values, kind.Admits y

namespace BootstrapPlan

/-- A plan for a method that can carry the kind of the curve, with instruments and a root finder of the
    library. The kind is not the survival probability. -/
structure IsCarried (plan : BootstrapPlan α) (m : Method) : Prop where
  scheme : plan.scheme = m.scheme
  kind : plan.frame.kind = .discount ∨ plan.frame.kind = .hazardRate ∧ m ≠ .logLinear
  solver : plan.solver.IsStandard
  standard : ∀ p ∈ plan.pillars, ∃ product : Product α, product.IsStandard ∧ p.helper.instrument = product.instrument
  increasing : plan.times.Pairwise (· < ·)
  finite : ∀ p ∈ plan.pillars, Scalar.isFinite p.time = true
  nonempty : plan.pillars ≠ []
  tolerance : 0 ≤ plan.config.solverSettings.tolerance
  widening : 1 ≤ plan.config.bracketWidening

variable {plan : BootstrapPlan α} {m : Method}

namespace IsCarried

theorem not_atFloor (h : plan.IsCarried m) (x : α) : ¬plan.frame.kind.AtFloor x := by
  rintro ⟨hkind, -⟩
  rcases h.kind with hk | ⟨hk, -⟩ <;> rw [hk] at hkind <;> cases hkind

/-- On a trial curve that can be built the objective has no errors that are the scheme's. -/
theorem not_isInterpolation_of_objective (h : plan.IsCarried m) {site : PillarSite α} (hp : site.pillar ∈ plan.pillars)
    {x : α} {curve : NodeCurve α} (hcurve : site.trialCurve x = .ok curve) {allow : Bool} {e : CurveError α}
    (he : site.objective allow x = .error e) : ¬e.IsInterpolation := by
  unfold PillarSite.objective at he
  rw [hcurve] at he
  obtain ⟨product, hproduct, hinstrument⟩ := h.standard _ hp
  have hreports : (site.pillar.helper.quoteError site.plan.frame).Reports fun e => ¬e.IsInterpolation := by
    refine Helper.reports_quoteError ?_ fun e he => ?_
    · rw [hinstrument]
      exact hproduct.reports site.plan.frame
    · obtain ⟨fault, rfl⟩ := Helper.marketQuote_error he
      exact id
  refine hreports.run (fun p e he => ?_) he
  obtain ⟨t, source, -, rfl⟩ := NodeCurve.answerWith_error he
  exact CurveError.not_isInterpolation_ofNumeric source

theorem times_finite (h : plan.IsCarried m) (hfinite : ∀ x : α, |x| ≤ 10 → Scalar.isFinite x = true) :
    ∀ t ∈ plan.times, Scalar.isFinite t = true := by
  intro t ht
  rcases List.mem_cons.mp ht with rfl | ht
  · exact hfinite 0 (by rw [abs_zero]; norm_num)
  · obtain ⟨p, hp, rfl⟩ := List.mem_map.mp ht
    exact h.finite p hp

end IsCarried

/-! ### One pillar -/

/-- The node before a pillar is earlier. -/
theorem Placed.previousTime_lt {before : List α} {p : Pillar α} {rest : List (Pillar α)}
    (h : plan.Placed before (p :: rest)) (hincreasing : plan.times.Pairwise (· < ·)) (after : List α) :
    (PillarSite.mk plan p before after).previousTime < p.time := by
  have hpos := h.pos
  have htime : plan.times[before.length]? = some p.time := by
    obtain ⟨n, hn⟩ := Nat.exists_eq_succ_of_ne_zero hpos.ne'
    have hp := h.pillar
    rw [hn, Nat.succ_eq_add_one, Nat.add_sub_cancel] at hp
    rw [hn]
    exact times_succ hp
  obtain ⟨hlt, htime⟩ := List.getElem?_eq_some_iff.mp htime
  unfold PillarSite.previousTime PillarSite.index
  dsimp only
  rw [List.getD_eq_getElem _ _ (by omega), ← htime]
  exact List.pairwise_iff_getElem.mp hincreasing _ _ _ _ (by omega)

/-- Where a pass may get: all values so far and all seeds left are within the limits, and the pillars to go
    are those whose nodes come next. -/
structure Progress (plan : BootstrapPlan α) (before seeds : List α) (rest : List (Pillar α)) : Prop where
  values : ∀ y ∈ before, plan.frame.kind.Admits y
  later : ∀ y ∈ seeds, plan.frame.kind.Admits y
  seedCount : seeds = [] ∨ seeds.length = rest.length
  pos : 0 < before.length
  rest_eq : rest = plan.pillars.drop (before.length - 1)

namespace Progress

variable {before seeds : List α} {p : Pillar α} {rest : List (Pillar α)}

theorem placed (h : plan.Progress before seeds rest) : plan.Placed before rest := ⟨h.pos, h.rest_eq⟩

theorem count (h : plan.Progress before seeds (p :: rest)) :
    before.length + 1 + seeds.tail.length ≤ plan.times.length := by
  have hpos := h.pos
  have hrest := h.placed.later
  obtain ⟨hlt, -⟩ := List.getElem?_eq_some_iff.mp h.placed.pillar
  have htimes : plan.times.length = plan.pillars.length + 1 := by
    unfold times
    rw [List.length_cons, List.length_map]
  have hlength : rest.length = plan.pillars.length - before.length := by
    rw [hrest, List.length_drop]
  rcases h.seedCount with rfl | hcount
  · rw [List.tail_nil, List.length_nil]
    omega
  · rw [List.length_cons] at hcount
    rw [List.length_tail]
    omega

end Progress

end BootstrapPlan

variable [ExactArithmetic α]

theorem CurveKind.Admits.bounded {kind : CurveKind} {x : α} (h : kind.Admits x) : |x| ≤ 10 := by
  obtain ⟨hlow, hhigh⟩ := h
  rw [CurveKind.domain_eq] at hlow hhigh
  apply abs_le.mpr
  cases kind with
  | discount => exact ⟨by linarith [show (0 : α) ≤ 1 / 10 ^ 12 by positivity], hhigh⟩
  | survivalProbability => exact ⟨by linarith [show (0 : α) ≤ 1 / 10 ^ 12 by positivity], by linarith⟩
  | hazardRate => exact ⟨by linarith, hhigh⟩

theorem BootstrapConfig.validate_ok {c : BootstrapConfig α} (h : c.validate = .ok ()) :
    0 ≤ c.solverSettings.tolerance ∧ 1 ≤ c.bracketWidening := by
  unfold validate at h
  split at h
  · cases h
  · rename_i haccuracy
    split at h
    · cases h
    · split at h
      · cases h
      · rename_i hwidening
        simp only [Bool.not_eq_true', Bool.not_eq_false, Bool.and_eq_true, decide_eq_true_eq] at haccuracy hwidening
        refine ⟨?_, hwidening.2⟩
        change 0 ≤ c.accuracy * 0.1
        rw [ExactArithmetic.ofScientific_eq, if_pos rfl]
        have hpos : 0 < c.accuracy := haccuracy.2
        positivity

namespace BootstrapPlan

variable {plan : BootstrapPlan α} {m : Method}

theorem isCarried_of_make {inputs : BootstrapInputs α} {config : BootstrapConfig α} {solver : RootFinder α}
    (hscheme : inputs.scheme = m.scheme)
    (hkind : inputs.frame.kind = .discount ∨ inputs.frame.kind = .hazardRate ∧ m ≠ .logLinear)
    (hsolver : solver.IsStandard)
    (hstandard : ∀ h ∈ inputs.helpers, ∃ product : Product α, product.IsStandard ∧ h.instrument = product.instrument)
    (h : make inputs config solver = .ok plan) : plan.IsCarried m := by
  obtain ⟨rfl, hcheck, -, hvalid⟩ := make_ok h
  obtain ⟨htolerance, hwidening⟩ := BootstrapConfig.validate_ok hvalid
  refine ⟨hscheme, hkind, hsolver, fun p hp => ?_, Pillar.increasing_of_check hcheck, Pillar.finite_of_check hcheck,
    pillars_ne_nil h, htolerance, hwidening⟩
  obtain ⟨helper, hhelper, rfl⟩ := exists_helper h hp
  exact hstandard helper hhelper

/-- The scheme takes nodes that the kind carries. -/
theorem IsCarried.curveOver_of_carries (h : plan.IsCarried m)
    (hfinite : ∀ x : α, |x| ≤ 10 → Scalar.isFinite x = true) {n : Nat} (hn : 2 ≤ n) (hlast : n ≤ plan.times.length)
    {values : List α} (hcarries : plan.frame.kind.Carries (plan.times.take n) values) (index : Nat) :
    ∃ curve, plan.curveOver index (plan.times.take n) values = .ok curve := by
  have htwo : 2 ≤ (plan.times.take n).length := by
    rw [List.length_take]
    omega
  have hall : ∀ x ∈ plan.times.take n ++ values, Scalar.isFinite x = true := by
    intro x hx
    rcases List.mem_append.mp hx with hx | hx
    · exact h.times_finite hfinite x (List.mem_of_mem_take hx)
    · exact hcarries.finite x hx
  have hpositive : m = .logLinear → ∀ y ∈ values, 0 < y := by
    intro hm y hy
    rcases h.kind with hk | ⟨-, hne⟩
    · have hadmits := hcarries.admitted y hy
      rw [hk] at hadmits
      exact CurveKind.Admits.pos rfl hadmits
    · exact absurd hm hne
  obtain ⟨f, hf⟩ := Method.build_of_finite htwo hcarries.length_eq hcarries.increasing hall hpositive
  have hbuild : plan.scheme.build (plan.times.take n) values = .ok f := by
    rw [h.scheme]
    exact hf
  exact ⟨_, curveOver_of_build hbuild index⟩

namespace Progress

variable {before seeds : List α} {p : Pillar α} {rest : List (Pillar α)}

/-- A value within the limits makes trial nodes that the kind carries. -/
theorem carries (h : plan.Progress before seeds (p :: rest)) (hplan : plan.IsCarried m)
    (hfinite : ∀ x : α, |x| ≤ 10 → Scalar.isFinite x = true) {x : α} (hx : plan.frame.kind.Admits x) :
    plan.frame.kind.Carries (PillarSite.mk plan p before seeds.tail).trialTimes
      ((PillarSite.mk plan p before seeds.tail).trialValues x) := by
  have hcount := h.count
  have hadmitted : ∀ y ∈ before ++ x :: seeds.tail, plan.frame.kind.Admits y := by
    intro y hy
    rcases List.mem_append.mp hy with hy | hy
    · exact h.values y hy
    · rcases List.mem_cons.mp hy with rfl | hy
      · exact hx
      · exact h.later y (List.mem_of_mem_tail hy)
  refine ⟨?_, hplan.increasing.take, fun y hy => hfinite y (hadmitted y hy).bounded, hadmitted⟩
  unfold PillarSite.trialTimes PillarSite.trialValues PillarSite.index
  dsimp only
  rw [List.length_take, List.length_append, List.length_cons]
  omega

theorem trialCurve_ok (h : plan.Progress before seeds (p :: rest)) (hplan : plan.IsCarried m)
    (hfinite : ∀ x : α, |x| ≤ 10 → Scalar.isFinite x = true) {x : α} (hx : plan.frame.kind.Admits x) :
    ∃ curve, (PillarSite.mk plan p before seeds.tail).trialCurve x = .ok curve := by
  have hpos := h.pos
  exact hplan.curveOver_of_carries hfinite (by omega) h.count (h.carries hplan hfinite hx) before.length

variable [LawfulExp α]

/-- The first interval at a pillar is within the limits. -/
theorem confines (h : plan.Progress before seeds (p :: rest)) (hplan : plan.IsCarried m) :
    plan.frame.kind.Confines (PillarSite.mk plan p before seeds.tail).bracket := by
  have hearlier := h.placed.previousTime_lt hplan.increasing seeds.tail
  have hprevious : plan.frame.kind.Admits (before.getLastD 0) := by
    have hne := List.length_pos_iff.mp h.pos
    rw [List.getLastD_eq_getLast?, List.getLast?_eq_getLast_of_ne_nil hne]
    exact h.values _ (List.getLast_mem hne)
  exact CurveKind.confines_searchBracket hprevious (sub_pos.mpr hearlier) (hplan.not_atFloor _)

theorem searched (h : plan.Progress before seeds (p :: rest)) (hplan : plan.IsCarried m) (guess : α) :
    (PillarSite.mk plan p before seeds.tail).Searched guess plan.frame.kind.Confines
      ((PillarSite.mk plan p before seeds.tail).solve guess) :=
  PillarSite.searched_solveFrom (fun _ hb => (hb.widened hplan.widening).1) (h.confines hplan) guess _ false

/-- Whatever is asked for or found at a pillar is within the limits. -/
theorem admitted (h : plan.Progress before seeds (p :: rest)) (hplan : plan.IsCarried m) (guess : α) :
    (∀ a ∈ ((PillarSite.mk plan p before seeds.tail).solve guess).attempts, ∀ s ∈ a.run.samples,
      plan.frame.kind.Admits s.1) ∧
    ∀ x, ((PillarSite.mk plan p before seeds.tail).solve guess).result = .ok x → plan.frame.kind.Admits x := by
  have hsearched := h.searched hplan guess
  have hattempt : ∀ a ∈ ((PillarSite.mk plan p before seeds.tail).solve guess).attempts,
      (∀ s ∈ a.run.samples, plan.frame.kind.Admits s.1) ∧
        ∀ r, a.run.result = .ok r → plan.frame.kind.Admits r.root := by
    intro a ha
    obtain ⟨b, allow, hb, rfl⟩ := hsearched.attempts a ha
    rw [PillarSite.attempt_run]
    exact hplan.solver.admitted hb hplan.tolerance guess
  refine ⟨fun a ha => (hattempt a ha).1, fun x hx => ?_⟩
  obtain ⟨a, ha, r, hr, rfl⟩ := hsearched.found x hx
  exact (hattempt a ha).2 r hr

/-- The scheme is not to blame when a pillar is not solved. -/
theorem not_isInterpolation (h : plan.Progress before seeds (p :: rest)) (hplan : plan.IsCarried m)
    (hfinite : ∀ x : α, |x| ≤ 10 → Scalar.isFinite x = true) {guess : α} {e : CurveError α}
    (he : ((PillarSite.mk plan p before seeds.tail).solve guess).result = .error e) : ¬e.IsInterpolation := by
  cases e with
  | interpolation i source =>
    obtain ⟨a, ha, s, hs, hanswer⟩ := (h.searched hplan guess).refused i source he
    obtain ⟨b, allow, -, rfl⟩ := (h.searched hplan guess).attempts a ha
    obtain ⟨curve, hcurve⟩ := h.trialCurve_ok hplan hfinite ((h.admitted hplan guess).1 _ ha s hs)
    rw [Search.answer_of_mem_samples hs] at hanswer
    exact absurd trivial (hplan.not_isInterpolation_of_objective (List.mem_of_getElem? h.placed.pillar) hcurve hanswer)
  | _ => exact id

theorem next (h : plan.Progress before seeds (p :: rest)) (hplan : plan.IsCarried m) {x : α}
    (hx : (plan.nextSolve before seeds p).result = .ok x) : plan.Progress (before ++ [x]) seeds.tail rest := by
  have hadmits := (h.admitted hplan _).2 x hx
  obtain ⟨hpos, hrest⟩ := h.placed.next x
  refine ⟨fun y hy => ?_, fun y hy => h.later y (List.mem_of_mem_tail hy), ?_, hpos, hrest⟩
  · rcases List.mem_append.mp hy with hy | hy
    · exact h.values y hy
    · rw [List.mem_singleton.mp hy]
      exact hadmits
  · rcases h.seedCount with rfl | hcount
    · exact .inl rfl
    · right
      rw [List.length_tail, hcount, List.length_cons, Nat.add_sub_cancel]

end Progress

/-! ### Passes -/

theorem progress_start {seeds : List α} (hseeds : ∀ y ∈ seeds, plan.frame.kind.Admits y)
    (hcount : seeds = [] ∨ seeds.length = plan.pillars.length) :
    plan.Progress [plan.frame.kind.anchorValue] seeds plan.pillars := by
  refine ⟨fun y hy => ?_, hseeds, hcount, Nat.one_pos, rfl⟩
  rw [List.mem_singleton.mp hy]
  exact CurveKind.anchorValue_admitted _

variable [LawfulExp α] {seeds : List α} {pass : Pass α}

namespace IsCarried

theorem pass_admitted_of_progress (hplan : plan.IsCarried m)
    (h : plan.Progress [plan.frame.kind.anchorValue] seeds plan.pillars) (hpass : plan.pass seeds = .ok pass) :
    ∀ y ∈ pass.values, plan.frame.kind.Admits y := by
  obtain ⟨later, hlast⟩ := passFrom_holds (fun _ _ _ _ _ h hx => h.next hplan hx) hpass h
  exact hlast.values

theorem progress_of_seeds (hplan : plan.IsCarried m) (h : plan.Seeds seeds) :
    plan.Progress [plan.frame.kind.anchorValue] seeds plan.pillars := by
  induction h with
  | unseeded => exact progress_start nofun (.inl rfl)
  | @seeded seeds pass _ solved ih =>
    have hadmitted := hplan.pass_admitted_of_progress ih solved
    obtain ⟨roots, hvalues, hlength⟩ := pass_values solved
    refine progress_start (fun y hy => hadmitted y (List.mem_of_mem_tail hy)) (.inr ?_)
    rw [hvalues, List.tail_cons, hlength]

theorem pass_admitted (hplan : plan.IsCarried m) (hseeds : plan.Seeds seeds) (hpass : plan.pass seeds = .ok pass) :
    ∀ y ∈ pass.values, plan.frame.kind.Admits y :=
  hplan.pass_admitted_of_progress (hplan.progress_of_seeds hseeds) hpass

/-- A visited pillar is solved where its pass has got to. -/
theorem progress_of_visits (hplan : plan.IsCarried m) (hseeds : plan.Seeds seeds) {site : PillarSite α} {guess : α}
    (h : plan.Visits [plan.frame.kind.anchorValue] seeds plan.pillars site guess) :
    ∃ p before seeds rest, plan.Progress before seeds (p :: rest) ∧ site = ⟨plan, p, before, seeds.tail⟩ := by
  obtain ⟨seeds, rest, hprogress, hplan', hafter⟩ :=
    h.holds (fun _ _ _ _ _ h hx => h.next hplan hx) (hplan.progress_of_seeds hseeds)
  obtain ⟨plan', p, before, after⟩ := site
  cases hplan'
  cases hafter
  exact ⟨p, before, seeds, rest, hprogress, rfl⟩

variable (hfinite : ∀ x : α, |x| ≤ 10 → Scalar.isFinite x = true)

include hfinite

theorem finishedCurve_ok (hplan : plan.IsCarried m) {d : Draft α} (hd : plan.Drafted d) :
    ∃ curve, plan.finishedCurve d.last.values = .ok curve := by
  obtain ⟨seeds, hseeds, hpass⟩ := hd
  have hadmitted := hplan.pass_admitted hseeds hpass
  obtain ⟨roots, hvalues, hlength⟩ := pass_values hpass
  have hpos := List.length_pos_iff.mpr hplan.nonempty
  have htimes : plan.times.length = plan.pillars.length + 1 := by
    unfold times
    rw [List.length_cons, List.length_map]
  have htake : plan.times.take plan.times.length = plan.times := List.take_length
  have hcarries : plan.frame.kind.Carries (plan.times.take plan.times.length) d.last.values := by
    refine ⟨?_, hplan.increasing.take, fun y hy => hfinite y (hadmitted y hy).bounded, hadmitted⟩
    rw [htake, htimes, hvalues, List.length_cons, hlength]
  have hcurve := hplan.curveOver_of_carries hfinite (by omega) le_rfl hcarries plan.pillars.length
  rw [htake] at hcurve
  exact hcurve

/-- No error of a run is the scheme's. -/
theorem not_isInterpolation_of_run (hplan : plan.IsCarried m) {e : CurveError α} (h : plan.run = .error e) :
    ¬e.IsInterpolation := by
  cases fails_of_run h with
  | pass seeded failed =>
    obtain ⟨site, guess, hvisits, herror⟩ := visits_of_passFrom_error failed
    obtain ⟨p, before, seeds, rest, hprogress, rfl⟩ := hplan.progress_of_visits seeded hvisits
    exact hprogress.not_isInterpolation hplan hfinite herror
  | curve drafted failed =>
    obtain ⟨curve, hcurve⟩ := hplan.finishedCurve_ok hfinite drafted
    cases failed.symm.trans hcurve
  | reprice failed =>
    obtain ⟨k, p, -, hreprice⟩ := repriceFrom_error failed
    obtain ⟨allow, source, rfl, -⟩ := reprice_error hreprice
    exact id
  | check checked failed =>
    obtain ⟨worst, -, rfl⟩ := RepricingReport.failure?_eq_some failed
    exact id
  | store drafted failed => rcases NodeStore.ofSolution_error failed with ⟨fault, rfl⟩ | ⟨t, rfl⟩ <;> exact id

end IsCarried

end BootstrapPlan

end

/-- With discount factors and any method, and with hazard rates and any method but the log-linear one, every
    trial curve of every pass is built over finite values within the limits of the kind and times that
    increase. All nodes that are solved lie within the limits, and no run fails because of its scheme. -/
theorem trial_nodes_carried {α : Type} [ScalarField α] [ExactArithmetic α] [LawfulExp α]
    (hfinite : ∀ x : α, |x| ≤ 10 → Scalar.isFinite x = true) {m : Method} {inputs : BootstrapInputs α}
    {config : BootstrapConfig α} {solver : RootFinder α} (hscheme : inputs.scheme = m.scheme)
    (hkind : inputs.frame.kind = .discount ∨ inputs.frame.kind = .hazardRate ∧ m ≠ .logLinear)
    (hsolver : solver.IsStandard)
    (hstandard : ∀ h ∈ inputs.helpers, ∃ product : Product α, product.IsStandard ∧ h.instrument = product.instrument) :
    (∀ plan, BootstrapPlan.make inputs config solver = .ok plan →
      (∀ seeds, plan.Seeds seeds →
        (∀ site guess, plan.Visits [plan.frame.kind.anchorValue] seeds plan.pillars site guess →
          ∀ a ∈ (site.solve guess).attempts, ∀ s ∈ a.run.samples,
            plan.frame.kind.Carries site.trialTimes (site.trialValues s.1) ∧
            (plan.frame.kind = .discount → ∀ y ∈ site.trialValues s.1, 0 < y) ∧
            ∃ curve, site.trialCurve s.1 = .ok curve) ∧
        ∀ pass, plan.pass seeds = .ok pass → ∀ y ∈ pass.values, plan.frame.kind.Admits y) ∧
      ∀ o, plan.run = .ok o → ∀ y ∈ o.nodes.values, plan.frame.kind.Admits y) ∧
    ∀ i source, bootstrap inputs config solver ≠ .error (.interpolation i source) := by
  have hcarried (plan : BootstrapPlan α) (h : BootstrapPlan.make inputs config solver = .ok plan) : plan.IsCarried m :=
    BootstrapPlan.isCarried_of_make hscheme hkind hsolver hstandard h
  refine ⟨fun plan hmake => ⟨fun seeds hseeds => ⟨fun site guess hvisits a ha s hs => ?_,
    fun pass hpass => (hcarried plan hmake).pass_admitted hseeds hpass⟩, fun o ho => ?_⟩, fun i source h => ?_⟩
  · have hplan := hcarried plan hmake
    obtain ⟨p, before, seeds, rest, hprogress, rfl⟩ := hplan.progress_of_visits hseeds hvisits
    have hadmits := (hprogress.admitted hplan guess).1 a ha s hs
    have hcarries := hprogress.carries hplan hfinite hadmits
    refine ⟨hcarries, fun hdiscount y hy => ?_, hprogress.trialCurve_ok hplan hfinite hadmits⟩
    have hy := hcarries.admitted y hy
    rw [hdiscount] at hy
    exact hy.pos rfl
  · obtain ⟨d, curve, report, ⟨seeds, hseeds, hpass⟩, -, -, hpublish⟩ := BootstrapPlan.run_published ho
    rw [BootstrapPlan.publish_ok hpublish]
    exact (hcarried plan hmake).pass_admitted hseeds hpass
  · rcases error_of_bind h with h | ⟨plan, hmake, h⟩
    · exact BootstrapPlan.not_isInterpolation_of_make h trivial
    · exact (hcarried plan hmake).not_isInterpolation_of_run hfinite h trivial

/-- The zero rate to the end of a year, in real numbers. -/
noncomputable def singleRate : Helper ℝ := ⟨(ZeroRate.mk (.newYear 2026)).instrument, some (1 / 20)⟩

/-- Discount factors to be interpolated by a cubic spline. -/
noncomputable def splineInputs : BootstrapInputs ℝ :=
  ⟨⟨.newYear 2025, .act365Fixed, .discount⟩, Method.cubicSpline.scheme, [singleRate]⟩

theorem make_splineInputs :
    BootstrapPlan.make splineInputs default Bisection.finder =
      .ok ⟨splineInputs.frame, splineInputs.scheme, default, Bisection.finder, [.make splineInputs.frame singleRate]⟩ := by
  have hdays : (Date.newYear 2025).daysUntil (.newYear 2026) = 365 := by decide
  refine BootstrapPlan.make_singleton splineInputs.frame .cubicSpline singleRate Bisection.finder ?_
  change Pillar.minSpacing < (Scalar.yearFraction ((Date.newYear 2025).daysUntil (.newYear 2026)) 365 : ℝ)
  rw [Pillar.minSpacing, ExactScalar.ofScientific_eq, hdays, ExactScalar.yearFraction_eq]
  norm_num

/-- A zero rate to the start of a year, in rational numbers. -/
def growthRate (year : Int) (quote : ℚ) : Helper ℚ :=
  letI := Growth.scalar
  ⟨(ZeroRate.mk (.newYear year)).instrument, some quote⟩

/-- Discount factors at the ends of two years, to be interpolated by a cubic spline. -/
def twoYearInputs : BootstrapInputs ℚ :=
  letI := Growth.scalar
  ⟨⟨.newYear 2025, .act365Fixed, .discount⟩, Method.cubicSpline.scheme,
    [growthRate 2026 (1 / 19), growthRate 2027 (3 / 44)]⟩

/-- The plan for them. -/
def twoYearPlan : BootstrapPlan ℚ :=
  letI := Growth.scalar
  ⟨twoYearInputs.frame, twoYearInputs.scheme, default, Bisection.finder,
    twoYearInputs.helpers.map (Pillar.make twoYearInputs.frame)⟩

/-- The first node of the second pass is searched on curves through three nodes. -/
def secondPassSite (seeds : List ℚ) : PillarSite ℚ :=
  letI := Growth.scalar
  ⟨twoYearPlan, .make twoYearInputs.frame (growthRate 2026 (1 / 19)), [1], seeds.tail⟩

theorem make_twoYearPlan :
    letI := Growth.scalar
    BootstrapPlan.make twoYearInputs default Bisection.finder = .ok twoYearPlan :=
  letI := Growth.scalar
  BootstrapPlan.make_of_pairwise rfl (ok_of_toOption (by decide +kernel)) (by decide) (List.cons_ne_nil _ _)
    (by decide +kernel) (ok_of_toOption (by decide +kernel))

/-- There are two passes, and in the second one something is asked for at the first node. -/
theorem twoYearPlan_passes :
    letI := Growth.scalar
    ∃ first second a, twoYearPlan.pass [] = .ok first ∧ twoYearPlan.pass first.values.tail = .ok second ∧
      second.values.length = 3 ∧ (secondPassSite first.values.tail).trialTimes = [0, 1, 2] ∧
      a ∈ (twoYearPlan.nextSolve [1] first.values.tail (secondPassSite first.values.tail).pillar).attempts ∧
      a.run.samples ≠ [] := by
  let _ := Growth.scalar
  have hpasses : (twoYearPlan.pass []).toOption.any (fun first =>
      (twoYearPlan.pass first.values.tail).toOption.any (·.values.length == 3) &&
      decide ((secondPassSite first.values.tail).trialTimes = [0, 1, 2]) &&
      (twoYearPlan.nextSolve [1] first.values.tail (secondPassSite first.values.tail).pillar).attempts.any
        (!·.run.samples.isEmpty)) = true := by
    decide +kernel
  obtain ⟨first, hfirst, hpasses⟩ := (Option.any_eq_true _ _).mp hpasses
  obtain ⟨hpasses, hattempts⟩ := (Bool.and_eq_true _ _).mp hpasses
  obtain ⟨hsecond, htimes⟩ := (Bool.and_eq_true _ _).mp hpasses
  obtain ⟨second, hsecond, hlength⟩ := (Option.any_eq_true _ _).mp hsecond
  obtain ⟨a, ha, hsamples⟩ := List.any_eq_true.mp hattempts
  refine ⟨first, second, a, ok_of_toOption hfirst, ok_of_toOption hsecond, beq_iff_eq.mp hlength,
    of_decide_eq_true htimes, ha, fun hnil => ?_⟩
  rw [hnil] at hsamples
  cases hsamples

/-- One node in real numbers, and the second pass over two in rational ones: a search asks for a curve through all three
    nodes each time, and gets it. -/
theorem trial_nodes_carried_spline :
    ((∃ plan, BootstrapPlan.make splineInputs default Bisection.finder = .ok plan ∧
      ∀ pass, plan.pass [] = .ok pass → ∀ y ∈ pass.values, CurveKind.discount.Admits y) ∧
    ∀ i source, bootstrap splineInputs default Bisection.finder ≠ .error (.interpolation i source)) ∧
    letI := Growth.scalar
    BootstrapPlan.make twoYearInputs default Bisection.finder = .ok twoYearPlan ∧
      (∃ first second, twoYearPlan.pass [] = .ok first ∧ twoYearPlan.pass first.values.tail = .ok second ∧
        second.values.length = 3 ∧ (∀ y ∈ second.values, CurveKind.discount.Admits y) ∧
        (secondPassSite first.values.tail).trialTimes = [0, 1, 2] ∧
        ∃ guess, ∃ a ∈ ((secondPassSite first.values.tail).solve guess).attempts, a.run.samples ≠ [] ∧
          ∀ s ∈ a.run.samples, (∀ y ∈ (secondPassSite first.values.tail).trialValues s.1, 0 < y) ∧
            ∃ curve, (secondPassSite first.values.tail).trialCurve s.1 = .ok curve) ∧
      ∀ i source, bootstrap twoYearInputs default Bisection.finder ≠ .error (.interpolation i source) := by
  constructor
  · obtain ⟨hplans, hruns⟩ := @trial_nodes_carried ℝ _ _ _ (fun x _ => ExactScalar.isFinite_eq x) .cubicSpline
      splineInputs default Bisection.finder rfl (.inl rfl) .bisection
      fun h hh => ⟨.zeroRate ⟨.newYear 2026⟩, .zeroRate _, by rw [List.mem_singleton.mp hh]; rfl⟩
    exact ⟨⟨_, make_splineInputs, ((hplans _ make_splineInputs).1 [] .unseeded).2⟩, hruns⟩
  · let _ := Growth.scalar
    have hexact : ExactScalar ℚ := Growth.exact
    have hexp : PositiveExp ℚ := Growth.positiveExp
    have hstandard (h : Helper ℚ) (hh : h ∈ twoYearInputs.helpers) :
        ∃ product : Product ℚ, product.IsStandard ∧ h.instrument = product.instrument := by
      rcases List.mem_pair.mp hh with rfl | rfl <;> exact ⟨.zeroRate _, .zeroRate _, rfl⟩
    obtain ⟨hplans, hruns⟩ := @trial_nodes_carried ℚ _ _ _ (fun x _ => ExactScalar.isFinite_eq x) .cubicSpline
      twoYearInputs default Bisection.finder rfl (.inl rfl) .bisection hstandard
    obtain ⟨first, second, a, hfirst, hsecond, hlength, htimes, ha, hsamples⟩ := twoYearPlan_passes
    obtain ⟨hsites, hadmits⟩ := (hplans _ make_twoYearPlan).1 _ (.seeded .unseeded hfirst)
    refine ⟨make_twoYearPlan, ⟨first, second, hfirst, hsecond, hlength, hadmits second hsecond, htimes, _, a, ha, hsamples,
      fun s hs => ?_⟩, hruns⟩
    obtain ⟨-, hpositive, hcurve⟩ := hsites (secondPassSite first.values.tail) _ .here a ha s hs
    exact ⟨hpositive rfl, hcurve⟩

end TermStructure
