import TermStructure.Proofs.Bootstrap.Domain
import TermStructure.Proofs.Curve.Survival

/-!
# Survival probabilities that decline

The first interval searched for a survival probability ends at the probability before it, unless that is negative. So
a node that is solved without a wider interval is not above the one before it, and a run without wider intervals
publishes a curve that declines.
-/

namespace TermStructure

/-! ### One pillar -/

variable {α : Type} [ScalarField α]

/-- The first interval for a survival probability: after a positive one it holds positive numbers up to that, after zero
    it is a point, and after a negative number its ends are in the wrong order. -/
structure FirstInterval (previous : α) (b : Bracket α) : Prop where
  positive : 0 < previous → 0 < b.lower ∧ b.lower < b.upper ∧ b.upper ≤ previous
  zero : previous = 0 → b.lower = 0 ∧ b.upper = 0
  negative : previous < 0 → b.upper < b.lower

theorem CurveKind.firstInterval_searchBracket [ExactArithmetic α] [PositiveExp α] {previous dt : α} (hdt : 0 < dt) :
    FirstInterval previous (survivalProbability.searchBracket previous dt) := by
  have hbracket : survivalProbability.searchBracket previous dt
      = if max (previous * Scalar.exp (-dt)) (1 / 10 ^ 12) < min previous 1 then
          ⟨max (previous * Scalar.exp (-dt)) (1 / 10 ^ 12), min previous 1⟩
        else ⟨previous * Scalar.exp (-dt), previous⟩ := by
    unfold searchBracket
    dsimp only
    rw [Bracket.restrict_eq, domain_eq]
  have hdown : Scalar.exp (-dt) < 1 := exp_lt_one (neg_lt_zero.mpr hdt)
  have hfloor : (0 : α) < 1 / 10 ^ 12 := by positivity
  -- Up to zero nothing of the interval is within the limits.
  have hoff (h : previous ≤ 0) : survivalProbability.searchBracket previous dt = ⟨previous * Scalar.exp (-dt), previous⟩ := by
    rw [hbracket, if_neg]
    exact not_lt.mpr (((min_le_left _ _).trans h).trans (hfloor.le.trans (le_max_right _ _)))
  refine ⟨fun hprevious => ?_, fun hprevious => ?_, fun hprevious => ?_⟩
  · rw [hbracket]
    split
    · rename_i hmeets
      exact ⟨hfloor.trans_le (le_max_right _ _), hmeets, min_le_left _ _⟩
    · exact ⟨mul_pos hprevious (PositiveExp.exp_positive _), mul_lt_of_lt_one_right hprevious hdown, le_rfl⟩
  · rw [hoff hprevious.le, hprevious]
    exact ⟨zero_mul _, rfl⟩
  · rw [hoff hprevious.le]
    dsimp only
    have hgap : 0 < (-previous) * (1 - Scalar.exp (-dt)) := mul_pos (neg_pos.mpr hprevious) (sub_pos.mpr hdown)
    linarith

/-- All searches at the pillar were on one interval: it was not widened. -/
def PillarSolve.Unwidened {α : Type} (s : PillarSolve α) : Prop := ∀ a ∈ s.attempts, ∀ b ∈ s.attempts, a.bracket = b.bracket

namespace PillarSite
variable {site : PillarSite α} {guess x : α}

/-- The first search is on the interval given. -/
theorem exists_attempt (site : PillarSite α) (guess : α) (bracket : Bracket α) (allow widened : Bool) :
    ∃ a ∈ (site.solveFrom guess bracket allow widened).attempts, a.bracket = bracket := by
  refine ⟨site.attempt guess bracket allow, ?_, rfl⟩
  unfold solveFrom
  dsimp only
  split
  · split
    · exact List.mem_singleton_self _
    · exact List.mem_cons_self
  · exact List.mem_singleton_self _
  · exact List.mem_singleton_self _
  · split
    · exact List.mem_singleton_self _
    · split
      · exact List.mem_singleton_self _
      · split
        · exact List.mem_singleton_self _
        · exact List.mem_cons_self

/-- Without a wider interval a root is one that a search on the first interval found. -/
theorem found_of_unwidened (hunwidened : (site.solve guess).Unwidened) (hx : (site.solve guess).result = .ok x) :
    ∃ allow r, ((site.problem site.bracket allow).run site.plan.solver guess).result = .ok r ∧ r.root = x := by
  have hsearched : site.Searched guess (fun _ => True) (site.solve guess) :=
    searched_solveFrom (fun _ _ => trivial) trivial guess _ false
  -- The search that found the root was on the same interval as the first one.
  obtain ⟨first, hfirst, hbracket⟩ := site.exists_attempt guess site.bracket site.looksAhead false
  obtain ⟨a, ha, r, hr, hroot⟩ := hsearched.found x hx
  obtain ⟨b, allow, -, rfl⟩ := hsearched.attempts a ha
  have hb : b = site.bracket := (hunwidened _ ha _ hfirst).trans hbracket
  rw [hb, attempt_run] at hr
  exact ⟨allow, r, hr, hroot⟩

theorem firstInterval_bracket [ExactArithmetic α] [PositiveExp α]
    (hkind : site.plan.frame.kind = .survivalProbability) (hgap : site.previousTime < site.pillar.time) :
    FirstInterval site.previous site.bracket := by
  unfold bracket
  rw [hkind]
  exact CurveKind.firstInterval_searchBracket (sub_pos.mpr hgap)

variable (site) in
/-- Without a wider interval a survival probability is not above the one before it, unless that is negative, and is
    positive if that is. -/
theorem le_previous [ExactArithmetic α] [PositiveExp α] (hkind : site.plan.frame.kind = .survivalProbability)
    (hsolver : site.plan.solver.IsStandard) (htolerance : 0 ≤ site.plan.config.solverSettings.tolerance)
    (hgap : site.previousTime < site.pillar.time) (hunwidened : (site.solve guess).Unwidened)
    (hx : (site.solve guess).result = .ok x) (hprevious : 0 ≤ site.previous) :
    x ≤ site.previous ∧ (0 < site.previous → 0 < x) := by
  obtain ⟨allow, r, hr, rfl⟩ := found_of_unwidened hunwidened hx
  obtain ⟨hpositive, hzero, -⟩ := firstInterval_bracket hkind hgap
  rcases eq_or_lt_of_le hprevious with hprevious | hprevious
  · -- The first interval is a point, and that is all a search of it can find.
    obtain ⟨hlow, hhigh⟩ := hzero hprevious.symm
    have hroot : r.root = site.bracket.lower := hsolver.root_of_point (hhigh.trans hlow.symm) htolerance hr
    rw [hroot, hlow]
    exact ⟨hprevious.le, fun h => absurd hprevious h.ne⟩
  · obtain ⟨hlow, hproper, hhigh⟩ := hpositive hprevious
    obtain ⟨width, hends⟩ := hsolver.ends (P := site.problem site.bracket allow) ⟨hproper, htolerance⟩ guess
    obtain ⟨hlower, hupper⟩ := hends.confined.inside _ (hends.located hr).known.asked
    exact ⟨hupper.trans hhigh, fun _ => hlow.trans_le hlower⟩

/-- After a negative survival probability Brent's method breaks off, so that what is found without a wider interval is
    found by bisection. -/
theorem bisects_of_negative [ExactScalar α] [PositiveExp α] (hkind : site.plan.frame.kind = .survivalProbability)
    (hsolver : site.plan.solver.IsStandard) (hgap : site.previousTime < site.pillar.time)
    (hunwidened : (site.solve guess).Unwidened) (hx : (site.solve guess).result = .ok x)
    (hprevious : site.previous < 0) : site.plan.solver = Bisection.finder := by
  obtain ⟨allow, r, hr, -⟩ := found_of_unwidened hunwidened hx
  have hdisordered := (firstInterval_bracket hkind hgap).negative hprevious
  generalize site.plan.solver = solver at hsolver hr
  cases hsolver with
  | bisection => rfl
  | brent p =>
    have hbroken := p.run_of_disordered (P := site.problem site.bracket allow) (not_le.mpr hdisordered)
      (ExactScalar.isFinite_eq guess)
    rw [hbroken] at hr
    cases hr

end PillarSite

/-! ### Passes and runs -/

/-- Survival probabilities that are positive and do not rise. -/
structure Falling (values : List α) : Prop where
  positive : ∀ y ∈ values, 0 < y
  falls : values.Pairwise (· ≥ ·)

namespace Falling

variable {values : List α} {x y : α}

theorem last_le (h : Falling values) (hy : y ∈ values) : values.getLastD 0 ≤ y := by
  obtain ⟨i, hi, rfl⟩ := List.mem_iff_getElem.mp hy
  rw [List.getLastD_eq_getLast?, List.getLast?_eq_getElem?, List.getElem?_eq_getElem (by omega), Option.getD_some]
  rcases Nat.eq_or_lt_of_le (Nat.le_sub_one_of_lt hi) with rfl | hlt
  · exact le_rfl
  · exact List.pairwise_iff_getElem.mp h.falls _ _ _ _ hlt

theorem append (h : Falling values) (hx : 0 < x) (hlast : x ≤ values.getLastD 0) : Falling (values ++ [x]) := by
  refine ⟨fun y hy => ?_, List.pairwise_append.mpr ⟨h.falls, List.pairwise_singleton _ _, fun y hy z hz => ?_⟩⟩
  · rcases List.mem_append.mp hy with hy | hy
    · exact h.positive y hy
    · rwa [List.mem_singleton.mp hy]
  · rw [List.mem_singleton.mp hz]
    exact hlast.trans (h.last_le hy)

end Falling

namespace BootstrapPlan

/-- A plan for survival probabilities with a root finder of the library. -/
structure IsSurvival (plan : BootstrapPlan α) : Prop where
  kind : plan.frame.kind = .survivalProbability
  solver : plan.solver.IsStandard
  tolerance : 0 ≤ plan.config.solverSettings.tolerance
  increasing : plan.times.Pairwise (· < ·)
  nonempty : plan.pillars ≠ []

theorem IsSurvival.areNodes {plan : BootstrapPlan α} (hplan : plan.IsSurvival) {seeds : List α} {pass : Pass α}
    (h : plan.pass seeds = .ok pass) : AreNodes plan.times pass.values := by
  obtain ⟨roots, hvalues, hlength⟩ := pass_values h
  have hpos := List.length_pos_iff.mpr hplan.nonempty
  have htimes : plan.times.length = plan.pillars.length + 1 := by
    unfold times
    rw [List.length_cons, List.length_map]
  refine ⟨by omega, ?_, hplan.increasing, rfl⟩
  rw [htimes, hvalues, List.length_cons, hlength]

variable [ExactArithmetic α] {plan : BootstrapPlan α}

theorem isSurvival_of_make {inputs : BootstrapInputs α} {config : BootstrapConfig α} {solver : RootFinder α}
    (hkind : inputs.frame.kind = .survivalProbability) (hsolver : solver.IsStandard)
    (h : make inputs config solver = .ok plan) : plan.IsSurvival := by
  obtain ⟨rfl, hcheck, -, hvalid⟩ := make_ok h
  exact ⟨hkind, hsolver, (BootstrapConfig.validate_ok hvalid).1, Pillar.increasing_of_check hcheck, pillars_ne_nil h⟩

variable [PositiveExp α]

namespace IsSurvival

variable {seeds : List α} {pass : Pass α}

/-- Where a pass got without a wider interval the values fall. -/
theorem falling_next (hplan : plan.IsSurvival) {before : List α} {p : Pillar α} {rest : List (Pillar α)} {x : α}
    (hplaced : plan.Placed before (p :: rest)) (hfalling : Falling before)
    (hunwidened : (plan.nextSolve before seeds p).Unwidened) (hx : (plan.nextSolve before seeds p).result = .ok x) :
    Falling (before ++ [x]) := by
  have hne := List.length_pos_iff.mp hplaced.pos
  have hprevious : 0 < before.getLastD 0 := by
    rw [List.getLastD_eq_getLast?, List.getLast?_eq_getLast_of_ne_nil hne]
    exact hfalling.positive _ (List.getLast_mem hne)
  obtain ⟨hle, hpos⟩ := PillarSite.le_previous ⟨plan, p, before, seeds.tail⟩ hplan.kind hplan.solver
    hplan.tolerance (hplaced.previousTime_lt hplan.increasing seeds.tail) hunwidened hx hprevious.le
  exact hfalling.append (hpos hprevious) hle

theorem pass_falling (hplan : plan.IsSurvival) (h : plan.pass seeds = .ok pass)
    (hunwidened : ∀ s ∈ pass.solves, s.Unwidened) : Falling pass.values := by
  have hanchor : Falling [(plan.frame.kind.anchorValue : α)] := by
    refine ⟨fun y hy => ?_, List.pairwise_singleton _ _⟩
    rw [List.mem_singleton.mp hy, hplan.kind]
    exact one_pos
  obtain ⟨-, -, hfalling⟩ := passFrom_holds_of_solves PillarSolve.Unwidened
    (I := fun before _ rest => plan.Placed before rest ∧ Falling before)
    (fun before seeds p rest x hbefore hsolved hx =>
      ⟨hbefore.1.next x, hplan.falling_next hbefore.1 hbefore.2 hsolved hx⟩) h hunwidened ⟨.start plan _, hanchor⟩
  exact hfalling

end IsSurvival

end BootstrapPlan

/-- The pass whose values a run publishes; without a wider interval in it the curve declines. -/
theorem BootstrapPlan.IsSurvival.declines_of_run [ExactScalar α] [PositiveExp α] {plan : BootstrapPlan α}
    (hplan : plan.IsSurvival) {m : Method} (hm : m.isLocal = true) (hscheme : plan.scheme = m.scheme)
    {o : BootstrapOutcome α} (ho : plan.run = .ok o) :
    (∃ d, plan.Drafted d ∧ o.nodes.values = d.last.values) ∧
      ∀ d, plan.Drafted d → o.nodes.values = d.last.values → (∀ s ∈ d.last.solves, s.Unwidened) →
        o.curve.Declines o.nodes.maxTime := by
  obtain ⟨d, curve, report, hd, -, hcurve, hpublish⟩ := run_published ho
  obtain rfl := publish_ok hpublish
  refine ⟨⟨d, hd, rfl⟩, ?_⟩
  -- The draft that was published may be another one than that without wider intervals, with the same values.
  rintro d' ⟨seeds, -, hpass⟩ hvalues hunwidened
  change d.last.values = d'.last.values at hvalues
  obtain ⟨f, hf, rfl⟩ := curveOver_ok hcurve
  have hnodes := hplan.areNodes hpass
  have hfalling := hplan.pass_falling hpass hunwidened
  rw [← hvalues] at hnodes hfalling
  have hkind : plan.frame.kind.isProbabilityLike = true := by
    rw [hplan.kind]
    rfl
  obtain ⟨f', hf', -, hdeclines⟩ := hnodes.shape_of_values hm hfalling.positive hkind false
  rw [hscheme] at hf
  obtain rfl : f = f' := Except.ok.inj (hf.symm.trans hf')
  exact hdeclines hfalling.falls

/-- From node to node a local method stays between the values there, so discount factors and survival probabilities that
    do not rise make a curve that declines from one and is positive, as do hazard rates that are not negative. After a
    survival probability that is not negative none that is found without a wider interval is higher; after one that is
    negative the ends of the first interval are in the wrong order, and only bisection finds anything there. So a run
    without wider intervals publishes a curve that declines. -/
theorem survival_shape {α : Type} [ScalarField α] [ExactScalar α] [PositiveExp α] :
    (∀ (m : Method) (frame : Frame) (extrapolates : Bool) (times values : List α), m.isLocal = true →
      frame.kind.isProbabilityLike = true → AreNodes times values → (∀ y ∈ values, 0 < y) →
      ∃ f, m.build times values = .ok f ∧ (NodeCurve.mk frame f extrapolates).StaysBetween times values ∧
        (values.Pairwise (· ≥ ·) → (NodeCurve.mk frame f extrapolates).Declines (times.getLastD 0))) ∧
    (∀ (m : Method) (frame : Frame) (extrapolates : Bool) (times values : List α), m = .linear ∨ m = .backwardFlat →
      frame.kind = .hazardRate → AreNodes times values → (∀ y ∈ values, 0 ≤ y) →
      ∃ f, m.build times values = .ok f ∧
        (∀ allow, (NodeCurve.mk frame f extrapolates).answerWith allow (.discount 0) = .ok 1) ∧
        (NodeCurve.mk frame f extrapolates).Declines (times.getLastD 0)) ∧
    ∀ (inputs : BootstrapInputs α) (config : BootstrapConfig α) (solver : RootFinder α) (plan : BootstrapPlan α),
      inputs.frame.kind = .survivalProbability → solver.IsStandard →
      BootstrapPlan.make inputs config solver = .ok plan →
      (∀ seeds site guess x, plan.Seeds seeds →
        plan.Visits [plan.frame.kind.anchorValue] seeds plan.pillars site guess →
        (site.solve guess).Unwidened → (site.solve guess).result = .ok x →
        (0 ≤ site.previous → x ≤ site.previous) ∧
        (site.previous < 0 → site.bracket.upper < site.bracket.lower ∧ solver = Bisection.finder)) ∧
      ∀ m o, inputs.scheme = Method.scheme m → m.isLocal = true → plan.run = .ok o →
        (∃ d, plan.Drafted d ∧ o.nodes.values = d.last.values) ∧
          ∀ d, plan.Drafted d → o.nodes.values = d.last.values → (∀ s ∈ d.last.solves, s.Unwidened) →
            o.curve.Declines o.nodes.maxTime := by
  refine ⟨fun m frame extrapolates times values hm hkind hnodes hpos => hnodes.shape_of_values hm hpos hkind extrapolates,
    fun m frame extrapolates times values hm hkind hnodes hy => hnodes.shape_of_rates hm hy hkind extrapolates,
    fun inputs config solver plan hkind hsolver hmake => ?_⟩
  have hplan := BootstrapPlan.isSurvival_of_make hkind hsolver hmake
  refine ⟨fun seeds site guess x _ hvisits hunwidened hx => ?_, fun m o hscheme hm ho => ?_⟩
  · obtain ⟨hsite, rest, hplaced⟩ := hvisits.placed
    obtain ⟨plan', p, before, after⟩ := site
    obtain rfl : plan' = plan := hsite
    have hgap := hplaced.previousTime_lt hplan.increasing after
    refine ⟨fun hprevious => ?_, fun hprevious => ⟨?_, ?_⟩⟩
    · exact (PillarSite.le_previous _ hplan.kind hplan.solver hplan.tolerance hgap hunwidened hx hprevious).1
    · exact (PillarSite.firstInterval_bracket hplan.kind hgap).negative hprevious
    · obtain ⟨hplan', -⟩ := BootstrapPlan.make_ok hmake
      have hsame : plan'.solver = solver := by rw [hplan']
      exact hsame ▸ PillarSite.bisects_of_negative hplan.kind hplan.solver hgap hunwidened hx hprevious
  · obtain ⟨rfl, -⟩ := BootstrapPlan.make_ok hmake
    exact hplan.declines_of_run hm hscheme ho

/-- A survival probability of nineteen in twenty at the end of a year. -/
def nineteenTwentieths : Helper ℚ :=
  letI := Growth.scalar
  ⟨⟨.newYear 2026, .newYear 2026, "Survival probability", fun f => Reading.discountAt f (.newYear 2026)⟩, some (19 / 20)⟩

def survivalFrame : Frame := ⟨.newYear 2025, .act365Fixed, .survivalProbability⟩

def survivalPlan : BootstrapPlan ℚ :=
  letI := Growth.scalar
  ⟨survivalFrame, Method.logLinear.scheme, default, Brent.finder default, [.make survivalFrame nineteenTwentieths]⟩

theorem unwidened_of_single {β : Type} {s : PillarSolve β} (h : s.attempts.length = 1) : s.Unwidened := by
  obtain ⟨a, ha⟩ := List.length_eq_one_iff.mp h
  unfold PillarSolve.Unwidened
  rw [ha]
  intro b hb c hc
  rw [List.mem_singleton.mp hb, List.mem_singleton.mp hc]

/-- A halving survival probability and falling hazard rates, in real numbers, and a run that searches once. -/
theorem survival_shape_single :
    (∃ f, Method.logLinear.build [0, 1, 2] [1, 1 / 2, 1 / 4] = .ok f ∧
      (NodeCurve.mk survivalFrame f false).Declines (2 : ℝ)) ∧
    (∃ f, Method.backwardFlat.build [0, 1, 2] [0, 1 / 20, 1 / 50] = .ok f ∧
      (NodeCurve.mk ⟨.newYear 2025, .act365Fixed, .hazardRate⟩ f false).Declines (2 : ℝ)) ∧
    letI := Growth.scalar
    (∃ x, (survivalPlan.nextSolve [1] [] (.make survivalFrame nineteenTwentieths)).result = .ok x ∧ x ≤ 1) ∧
      ∃ o, survivalPlan.run = .ok o ∧ o.nodes.values = [1, 19 / 20] ∧ o.curve.Declines o.nodes.maxTime := by
  obtain ⟨hvalues, hrates, -⟩ := survival_shape (α := ℝ)
  have hnodes {y y' y'' : ℝ} : AreNodes [0, 1, 2] [y, y', y''] := by
    refine ⟨by decide, rfl, ?_, rfl⟩
    norm_num
  refine ⟨?_, ?_, ?_⟩
  · obtain ⟨f, hf, -, hdeclines⟩ := hvalues .logLinear survivalFrame false [0, 1, 2] [1, 1 / 2, 1 / 4] rfl rfl hnodes
      (by norm_num)
    exact ⟨f, hf, hdeclines (by norm_num)⟩
  · obtain ⟨f, hf, -, hdeclines⟩ := hrates .backwardFlat ⟨.newYear 2025, .act365Fixed, .hazardRate⟩ false [0, 1, 2]
      [0, 1 / 20, 1 / 50] (.inr rfl) rfl hnodes (by norm_num)
    exact ⟨f, hf, hdeclines⟩
  · let _ := Growth.scalar
    have hexact : ExactScalar ℚ := Growth.exact
    have hexp : PositiveExp ℚ := Growth.positiveExp
    have hmake : BootstrapPlan.make ⟨survivalFrame, Method.logLinear.scheme, [nineteenTwentieths]⟩ default
        (Brent.finder default) = .ok survivalPlan :=
      BootstrapPlan.make_singleton survivalFrame .logLinear nineteenTwentieths _ (by decide +kernel)
    obtain ⟨-, -, hruns⟩ := survival_shape (α := ℚ)
    obtain ⟨hsites, hcurves⟩ := hruns _ _ _ _ rfl (.brent default) hmake
    constructor
    · obtain ⟨x, hx⟩ := ok_of_isSome (by decide +kernel :
        (survivalPlan.nextSolve [1] [] (.make survivalFrame nineteenTwentieths)).result.toOption.isSome = true)
      have hsingle : (survivalPlan.nextSolve [1] [] (.make survivalFrame nineteenTwentieths)).attempts.length = 1 := by
        decide +kernel
      exact ⟨x, hx, (hsites [] _ _ x .unseeded .here (unwidened_of_single hsingle) hx).1 zero_le_one⟩
    · obtain ⟨o, ho, hpublished⟩ := (Option.any_eq_true _ _).mp (by decide +kernel :
        survivalPlan.run.toOption.any (fun o => decide (o.nodes.values = [1, 19 / 20])) = true)
      obtain ⟨pass, hpass, hchecks⟩ := (Option.any_eq_true _ _).mp (by decide +kernel :
        (survivalPlan.pass []).toOption.any (fun pass =>
          decide (pass.values = [1, 19 / 20]) && pass.solves.all fun s => s.attempts.length == 1) = true)
      obtain ⟨hpassed, hsolves⟩ := (Bool.and_eq_true _ _).mp hchecks
      have hnodes := of_decide_eq_true hpublished
      have hunwidened : ∀ s ∈ pass.solves, s.Unwidened := fun s hs =>
        unwidened_of_single (beq_iff_eq.mp (List.all_eq_true.mp hsolves s hs))
      refine ⟨o, ok_of_toOption ho, hnodes, ?_⟩
      exact (hcurves .logLinear o rfl rfl (ok_of_toOption ho)).2 ⟨pass, []⟩ ⟨[], .unseeded, ok_of_toOption hpass⟩
        (hnodes.trans (of_decide_eq_true hpassed).symm) hunwidened

end TermStructure
