import TermStructure.Proofs.Bootstrap.Passes
import TermStructure.Proofs.Bootstrap.Reordering
import TermStructure.Proofs.Scalar.Infinities
import TermStructure.RootFinding.Brent

/-!
# Seeding a pass with a solution

A pass that is seeded with values that solve the plan gives them back. At each pillar the nodes that are
behind have kept their seeds, those ahead have theirs, and the search starts at the seed of its own node: so
the first curve it tries is the one that the seeds make, and the first residual ends it.
-/

namespace TermStructure

variable {α : Type} [Scalar α]

/-! ### The first point of a search -/

/-- A point of an interval stays, and shows that its ends are in order. -/
theorem Bracket.clamp?_of_contains [LawfulInfinity α] {b : Bracket α} {x : α} (h : b.contains x = true) :
    b.clamp? x = some x := by
  obtain ⟨hlower, hupper⟩ := (Bool.and_eq_true _ _).mp h
  rw [clamp?_of_le (LawfulInfinity.le_trans (of_decide_eq_true hlower) (of_decide_eq_true hupper))]
  unfold nearest Scalar.nearest
  rw [if_neg (LawfulInfinity.not_lt_of_le (of_decide_eq_true hlower)),
    if_neg (LawfulInfinity.not_lt_of_le (of_decide_eq_true hupper))]

/-- Where an interval is kept within finite limits, what is not finite is not inside, or is in its middle. -/
theorem Bracket.midpoint_restrict [LawfulInfinity α] {b : Bracket α} {low high x : α}
    (hlow : Scalar.isFinite low = true) (hhigh : Scalar.isFinite high = true) (hlt : low < high)
    (hx : Scalar.isFinite x = false) (h : (b.restrict low high).contains x = true) :
    (b.restrict low high).midpoint = x := by
  obtain ⟨hlower, hupper⟩ := (Bool.and_eq_true _ _).mp h
  rcases LawfulInfinity.middle hx (of_decide_eq_true hlower) (of_decide_eq_true hupper) with hmiddle | hall
  · exact hmiddle
  · exfalso
    unfold restrict at hall
    dsimp only at hall
    split at hall
    · exact LawfulInfinity.not_larger_lt _ _ (hall low hlow).1
    · rename_i hempty
      rw [LawfulInfinity.larger_of_lt (hall low hlow).1, LawfulInfinity.smaller_of_lt (hall high hhigh).2] at hempty
      exact hempty hlt

/-- A search starts at its guess, if that lies in the interval. -/
theorem Brent.origin?_searchBracket [LawfulInfinity α] {kind : CurveKind} {previous dt x : α}
    (h : (kind.searchBracket previous dt).contains x = true) : origin? (kind.searchBracket previous dt) x = some x := by
  obtain ⟨hlow, hhigh, hlt⟩ := LawfulInfinity.domain_proper (α := α) kind
  unfold origin?
  split
  · exact Bracket.clamp?_of_contains h
  · rename_i hx
    exact congrArg some (Bracket.midpoint_restrict hlow hhigh hlt (Bool.not_eq_true _ ▸ hx) h)

/-- A search that starts at a root ends there. -/
theorem Brent.run_of_root {β : Type} {P : Problem α β} {x y : α} (p : Brent α) (horigin : origin? P.within x = some x)
    (hy : P.read (P.objective x) = some y) (hsmall : Scalar.abs y ≤ P.settings.tolerance) :
    P.run p.finder x = ⟨[(x, P.objective x)], .ok ⟨x, 0, y, 1⟩⟩ := by
  change (p.search x P.within P.settings).run P.objective P.read = _
  unfold search
  dsimp only
  rw [horigin]
  dsimp only [Search.reach]
  rw [Problem.run_evaluate_some hy, if_pos hsmall]
  rfl

/-! ### One pillar -/

namespace PillarSite

variable {site : PillarSite α} {p : Brent α} {x y : α}

/-- The only search that is made where the guess is a root to begin with. -/
def confirmed (site : PillarSite α) (x y : α) : PillarSolve α :=
  ⟨[⟨site.bracket, site.looksAhead, ⟨[(x, .ok y)], .ok ⟨x, 0, y, 1⟩⟩⟩], .ok x⟩

theorem solve_of_root [LawfulInfinity α] (hsolver : site.plan.solver = p.finder)
    (htolerance : Scalar.isFinite site.plan.config.solverSettings.tolerance = true)
    (hinside : site.bracket.contains x = true) (hy : site.objective site.looksAhead x = .ok y)
    (hsmall : Scalar.abs y ≤ site.plan.config.solverSettings.tolerance) : site.solve x = site.confirmed x y := by
  have hfinite : finiteAnswer? (site.objective site.looksAhead x) = some y := by
    rw [hy]
    exact if_pos (LawfulInfinity.isFinite_of_abs_le htolerance hsmall)
  have hrun : (site.attempt x site.bracket site.looksAhead).run = ⟨[(x, .ok y)], .ok ⟨x, 0, y, 1⟩⟩ := by
    rw [attempt_run, hsolver, p.run_of_root (Brent.origin?_searchBracket hinside) hfinite hsmall, ← hy]
    rfl
  have hattempt : site.attempt x site.bracket site.looksAhead =
      ⟨site.bracket, site.looksAhead, ⟨[(x, .ok y)], .ok ⟨x, 0, y, 1⟩⟩⟩ := by
    rw [← hrun]
    rfl
  unfold solve solveFrom
  rw [hattempt]
  rfl

end PillarSite

/-! ### A pass -/

/-- Values at all nodes that solve a plan as it stands: at each pillar the value lies in the interval that is searched
    after the one before it, and on the curve through all of them, extended if the helper says that it reads
    beyond its pillar, the quote is met to within the tolerance of the search. -/
structure BootstrapPlan.Solves (plan : BootstrapPlan α) (values : List α) : Prop where
  anchor : values.head? = some plan.frame.kind.anchorValue
  length : values.length = plan.times.length
  inside : ∀ i p, plan.pillars[i]? = some p →
    (plan.frame.kind.searchBracket (values.getD i 0) (plan.times.getD (i + 1) 0 - plan.times.getD i 0)).contains
      (values.getD (i + 1) 0) = true
  met : ∀ i p, plan.pillars[i]? = some p → ∃ curve y, plan.curveOver (i + 1) plan.times values = .ok curve ∧
    (curve.extrapolating (decide (p.latestTime > p.time))).read (p.helper.quoteError plan.frame) = .ok y ∧
    Scalar.abs y ≤ plan.config.solverSettings.tolerance

namespace BootstrapPlan

variable {plan : BootstrapPlan α} {before seeds values : List α} {q : Pillar α} {rest : List (Pillar α)} {p : Brent α}

/-- At each pillar the nodes behind it and the seeds make up the values, and the search there confirms its seed. -/
theorem nextSolve_of_solves [LawfulInfinity α] (hsolver : plan.solver = p.finder)
    (htolerance : Scalar.isFinite plan.config.solverSettings.tolerance = true) (h : plan.Solves values)
    (hplaced : plan.Placed before (q :: rest)) {x : α} (hvalues : before ++ x :: seeds = values) :
    ∃ y, plan.nextSolve before (x :: seeds) q = PillarSite.confirmed ⟨plan, q, before, seeds⟩ x y := by
  obtain ⟨k, hk⟩ : ∃ k, before.length = k + 1 := Nat.exists_eq_succ_of_ne_zero hplaced.pos.ne'
  have hpillar : plan.pillars[k]? = some q := by
    rw [← hplaced.pillar, hk, Nat.add_sub_cancel]
  have hprevious : values.getD k 0 = before.getLastD 0 := by
    rw [← hvalues, List.getD_append _ _ _ _ (by omega), List.getLastD_eq_getLast?, List.getLast?_eq_getElem?, hk,
      Nat.add_sub_cancel, List.getD_eq_getElem?_getD]
  have hseed : values.getD (k + 1) 0 = x := by
    rw [← hvalues, ← hk, List.getD_append_right _ _ _ _ (Nat.le_refl _), Nat.sub_self]
    rfl
  have htime : plan.times.getD (k + 1) 0 = q.time := by
    rw [times, List.getD_cons_succ, List.getD_eq_getElem?_getD, List.getElem?_map, hpillar]
    rfl
  have hall : plan.times.take (before.length + 1 + seeds.length) = plan.times := by
    refine List.take_of_length_le ?_
    rw [← h.length, ← hvalues, List.length_append, List.length_cons]
    omega
  obtain ⟨curve, y, hcurve, hread, hsmall⟩ := h.met k q hpillar
  have hinside := h.inside k q hpillar
  rw [hprevious, hseed, htime] at hinside
  refine ⟨y, PillarSite.solve_of_root hsolver htolerance ?_ ?_ hsmall⟩
  · unfold PillarSite.bracket PillarSite.previous PillarSite.previousTime PillarSite.index
    rw [hk, Nat.add_sub_cancel]
    exact hinside
  · have htrial : PillarSite.trialCurve ⟨plan, q, before, seeds⟩ x = .ok curve := by
      unfold PillarSite.trialCurve PillarSite.index
      rw [hall, hvalues, hk]
      exact hcurve
    change (PillarSite.trialCurve ⟨plan, q, before, seeds⟩ x >>= _) = .ok y
    rw [htrial]
    exact hread

/-- From any pillar on the values come out, if the nodes behind it and the seeds make them up. -/
theorem passFrom_of_solves [LawfulInfinity α] (hsolver : plan.solver = p.finder)
    (htolerance : Scalar.isFinite plan.config.solverSettings.tolerance = true) (h : plan.Solves values)
    (hplaced : plan.Placed before rest) (hvalues : before ++ seeds = values) :
    ∃ pass, plan.passFrom before seeds rest = .ok pass ∧ pass.values = values ∧
      pass.solves.map (·.evaluations) = List.replicate rest.length 1 := by
  have hlength := congrArg List.length hvalues
  rw [h.length, times, List.length_append, List.length_cons, List.length_map] at hlength
  have hpos := hplaced.pos
  induction rest generalizing before seeds with
  | nil =>
    have hdone := congrArg List.length hplaced.rest_eq
    rw [List.length_drop, List.length_nil] at hdone
    obtain rfl : seeds = [] := List.length_eq_zero_iff.mp (by omega)
    rw [List.append_nil] at hvalues
    exact ⟨⟨before, []⟩, rfl, hvalues, rfl⟩
  | cons q rest ih =>
    cases seeds with
    | nil =>
      have hmore := congrArg List.length hplaced.rest_eq
      rw [List.length_drop, List.length_cons] at hmore
      rw [List.length_nil] at hlength
      omega
    | cons x seeds =>
      obtain ⟨y, hsolve⟩ := nextSolve_of_solves hsolver htolerance h hplaced hvalues
      have hstep : before ++ [x] ++ seeds = values := by rw [List.append_assoc, List.singleton_append, hvalues]
      have hcount : (before ++ [x]).length + seeds.length = plan.pillars.length + 1 := by
        rw [← hlength, List.length_append, List.length_singleton, List.length_cons]
        omega
      obtain ⟨pass, hpass, hsame, hcounts⟩ := ih (hplaced.next x) hstep hcount (hplaced.next x).pos
      refine ⟨{ pass with solves := PillarSite.confirmed ⟨plan, q, before, seeds⟩ x y :: pass.solves }, ?_, hsame, ?_⟩
      · rw [passFrom_next, hsolve]
        change (plan.passFrom (before ++ [x]) seeds rest).map _ = _
        rw [hpass]
        rfl
      · rw [List.map_cons, hcounts]
        rfl

/-- A pass that is seeded with a solution keeps it. It comes to the seeds, with one evaluation of the objective at each
    pillar, for every set of helpers, scheme and kind and all parameters of Brent's method. -/
theorem pass_keeps_solution [LawfulInfinity α] {inputs : BootstrapInputs α} {config : BootstrapConfig α}
    (hmake : make inputs config p.finder = .ok plan) (h : plan.Solves values) :
    ∃ pass, plan.pass values.tail = .ok pass ∧ pass.values = values ∧
      pass.solves.map (·.evaluations) = List.replicate plan.pillars.length 1 := by
  obtain ⟨hplan, -, -, hconfig⟩ := make_ok hmake
  have hsolver : plan.solver = p.finder := by rw [hplan]
  have htolerance : Scalar.isFinite plan.config.solverSettings.tolerance = true := by
    have haccuracy : Scalar.isFinite config.accuracy = true := by
      unfold BootstrapConfig.validate at hconfig
      split at hconfig
      · cases hconfig
      · rename_i hvalid
        rw [Bool.not_eq_true', Bool.not_eq_false, Bool.and_eq_true] at hvalid
        exact hvalid.1
    rw [hplan]
    exact LawfulInfinity.isFinite_tenth haccuracy
  have hvalues : [plan.frame.kind.anchorValue] ++ values.tail = values := by
    obtain ⟨seeds, rfl⟩ := List.head?_eq_some_iff.mp h.anchor
    rfl
  exact passFrom_of_solves hsolver htolerance h (.start plan _) hvalues

end BootstrapPlan

/-- A hazard rate quoted for the start of a year. -/
def yearHazard (year : Int) (quote : Float) : Helper Float :=
  ⟨⟨.newYear year, .newYear year, "Hazard rate", fun f => Reading.value (f.time (.newYear year))⟩, some quote⟩

def twoHazards : BootstrapInputs Float where
  frame := ⟨.newYear 2025, .act365Fixed, .hazardRate⟩
  scheme := Method.backwardFlat.scheme
  helpers := [yearHazard 2026 0.01, yearHazard 2027 0.02]

def twoHazardsPlan : BootstrapPlan Float :=
  ⟨twoHazards.frame, twoHazards.scheme, default, Brent.finder default,
    twoHazards.helpers.map (Pillar.make twoHazards.frame)⟩

/-- Two hazard rates are solved by their quotes. -/
theorem BootstrapPlan.pass_keeps_solution_twoHazards :
    ∃ pass, make twoHazards default (Brent.finder default) = .ok twoHazardsPlan ∧
      twoHazardsPlan.pass [0.01, 0.02] = .ok pass ∧ pass.values = [0.0, 0.01, 0.02] ∧
      pass.solves.map (·.evaluations) = [1, 1] := by
  have hmake : make twoHazards default (Brent.finder default) = .ok twoHazardsPlan :=
    make_of_pairwise rfl (by decide) (by decide) (List.cons_ne_nil _ _) (by decide +kernel) rfl
  have hsolves : twoHazardsPlan.Solves [0.0, 0.01, 0.02] := by
    refine ⟨rfl, by decide, fun i p hp => ?_, fun i p hp => ?_⟩
    · obtain _ | _ | i := i <;> cases hp
      · decide +kernel
      · decide +kernel
    · obtain _ | _ | i := i <;> cases hp
      · exact ⟨_, 0.0, rfl, rfl, by decide +kernel⟩
      · exact ⟨_, 0.0, rfl, rfl, by decide +kernel⟩
  obtain ⟨pass, hpass, hvalues, hcounts⟩ := pass_keeps_solution hmake hsolves
  exact ⟨pass, hmake, hpass, hvalues, hcounts⟩

end TermStructure
