import TermStructure.Proofs.RootFinding.Expansion
import TermStructure.Proofs.RootFinding.Halving
import TermStructure.Proofs.Bootstrap.Stages

/-!
# Root finders

What both ways to search keep, for every objective in exact arithmetic: a root that is returned was asked
for, and is close to a root by its residual or by a change of sign around it; no search asks outside its
interval or beyond its budget, and none goes on after a value that is not finite.
-/

namespace TermStructure

variable {α β : Type} [ScalarField α]

namespace Problem

variable {P : Problem α β} {width : α → α} {t : Search α}

theorem Ends.located (h : P.Ends width [] t) {r : Root α} (hr : (t.run P.objective P.read).result = .ok r) :
    P.Located width (t.run P.objective P.read).samples r := by
  unfold Ends at h
  rw [List.nil_append] at h
  generalize (t.run P.objective P.read).samples = samples at h ⊢
  rw [hr] at h
  cases h with
  | concluded record concludes => exact concludes.1

/-- A search stays within the interval and the budget, counts its evaluations, and ends with the first value
    that is not finite. -/
structure Confined (P : Problem α β) (run : Run α β) : Prop where
  inside : ∀ s ∈ run.samples, P.within.lower ≤ s.1 ∧ s.1 ≤ P.within.upper
  budget : run.samples.length ≤ max 2 P.settings.maxEvaluations
  evaluations : ∀ r, run.result = .ok r → r.evaluations = run.samples.length
  /-- All values but the last are finite. -/
  finite : ∀ s ∈ run.samples.dropLast, (P.read s.2).isSome
  /-- The search is interrupted at the last point just when the value there is not finite. -/
  interrupted : ∀ x, run.result = .error (.nonFiniteValue x) ↔
    ∃ y, run.samples.getLast? = some (x, y) ∧ P.read y = none

theorem Record.budget {samples : List (α × β)} {left : Nat} (h : P.Record samples left) :
    samples.length + left ≤ max 2 P.settings.maxEvaluations := by
  rw [h.count, Nat.max_comm]
  exact le_refl _

theorem Ends.confined (h : P.Ends width [] t) : P.Confined (t.run P.objective P.read) := by
  unfold Ends at h
  rw [List.nil_append] at h
  generalize t.run P.objective P.read = run at h ⊢
  obtain ⟨samples, result⟩ := run
  dsimp only at h
  cases h with
  | @concluded _ left _ record concludes =>
    refine ⟨record.inside, ?_, ?_, fun s hs => record.finite s (List.mem_of_mem_dropLast hs), fun x => ?_⟩
    · exact (Nat.le_add_right _ left).trans record.budget
    · rintro r rfl
      exact concludes.2
    · constructor
      · rintro rfl
        exact absurd rfl (concludes x)
      · rintro ⟨y, hlast, hy⟩
        have hfinite := record.finite _ (List.mem_of_getLast? hlast)
        rw [hy] at hfinite
        cases hfinite
  | @interrupted earlier left x record inside noValue =>
    refine ⟨fun s hs => ?_, ?_, nofun, fun s hs => ?_, fun z => ?_⟩
    · rcases List.mem_append.mp hs with hs | hs
      · exact record.inside s hs
      · rw [List.mem_singleton.mp hs]
        exact inside
    · have hbudget := record.budget
      rw [List.length_append, List.length_singleton]
      omega
    · rw [List.dropLast_concat] at hs
      exact record.finite s hs
    · rw [List.getLast?_concat]
      constructor
      · intro hx
        cases hx
        exact ⟨_, rfl, noValue⟩
      · rintro ⟨y, hlast, -⟩
        cases hlast
        rfl

end Problem

/-- A root finder of the library. -/
inductive RootFinder.IsStandard : RootFinder α → Prop where
  | brent (p : Brent α) : IsStandard p.finder
  | bisection : IsStandard Bisection.finder

variable [ExactArithmetic α]

theorem RootFinder.IsStandard.ends {finder : RootFinder α} (h : finder.IsStandard) {P : Problem α β}
    (hP : P.IsProper) (guess : α) : ∃ width, P.Ends width [] (finder.search guess P.within P.settings) := by
  cases h with
  | brent p => exact ⟨_, Brent.search_ends hP p guess⟩
  | bisection => exact ⟨_, Bisection.search_ends hP guess⟩

/-- In an interval that is a point nothing else is found: there is no change of sign to be seen. -/
theorem RootFinder.IsStandard.root_of_point {finder : RootFinder α} (h : finder.IsStandard) {P : Problem α β}
    (hpoint : P.within.upper = P.within.lower) (htolerance : 0 ≤ P.settings.tolerance) {guess : α} {r : Root α}
    (hr : (P.run finder guess).result = .ok r) : r.root = P.within.lower := by
  cases h with
  | brent p =>
    have horigin : Brent.origin P.within guess = P.within.lower := by
      unfold Brent.origin
      split
      · exact Bracket.nearest_point hpoint guess
      · rw [Bracket.midpoint, hpoint, ExactArithmetic.half_eq]
        ring
    have hstep : P.within.lower - p.step P.within < P.within.lower := by
      unfold Brent.step
      rw [ExactArithmetic.larger_eq]
      exact sub_lt_self _ (lt_max_of_lt_right ExactArithmetic.epsilon_pos)
    change ((p.search guess P.within P.settings).run P.objective P.read).result = .ok r at hr
    unfold Brent.search at hr
    dsimp only at hr
    rw [Brent.reach_origin? hpoint.ge, horigin] at hr
    obtain ⟨y, hy, hr⟩ := Problem.ok_of_evaluate hr
    by_cases hresidual : Scalar.abs y ≤ P.settings.tolerance
    · rw [if_pos hresidual] at hr
      exact congrArg Root.root (Except.ok.inj hr).symm
    · -- The step aside leads back to the same point.
      rw [if_neg hresidual, if_pos hstep, Search.reach_clamp? hpoint.ge, Bracket.nearest_point hpoint] at hr
      obtain ⟨y', hy', hr⟩ := Problem.ok_of_evaluate hr
      obtain rfl : y = y' := Option.some.inj (hy.symm.trans hy')
      unfold Brent.expand at hr
      rw [if_neg hresidual, if_neg hresidual, if_neg (not_lt.mpr (mul_self_nonneg y)), if_pos ⟨le_rfl, hpoint.le⟩] at hr
      cases hr
  | bisection =>
    change ((Bisection.search guess P.within P.settings).run P.objective P.read).result = .ok r at hr
    unfold Bisection.search at hr
    dsimp only at hr
    rw [hpoint] at hr
    obtain ⟨y, hy, hr⟩ := Problem.ok_of_evaluate hr
    obtain ⟨y', hy', hr⟩ := Problem.ok_of_evaluate hr
    obtain rfl : y = y' := Option.some.inj (hy.symm.trans hy')
    by_cases hresidual : Scalar.abs y ≤ P.settings.tolerance
    · rw [if_pos hresidual] at hr
      exact congrArg Root.root (Except.ok.inj hr).symm
    · have hne : y ≠ 0 := by
        rintro rfl
        rw [ExactArithmetic.abs_eq, abs_zero] at hresidual
        exact hresidual htolerance
      rw [if_neg hresidual, if_neg hresidual, if_pos (mul_self_pos.mpr hne)] at hr
      cases hr

/-- A root that either way to search returns was asked for, and its residual is the value there. Unless that is
    within the tolerance, the root lies in an interval of little width, the ends of which were asked for too
    and show a change of sign. -/
theorem root_located (P : Problem α β) (hP : P.IsProper) (guess : α) :
    (∀ (p : Brent α) (r : Root α), (P.run p.finder guess).result = .ok r →
      P.Located (fun x => 2 * (2 * Scalar.epsilon * |x| + Scalar.minPositive)) (P.run p.finder guess).samples r) ∧
    ∀ r : Root α, (P.run Bisection.finder guess).result = .ok r →
      P.Located (fun x => 4 * Scalar.epsilon * max |x| Scalar.minPositive) (P.run Bisection.finder guess).samples r := by
  constructor
  · intro p r hr
    rw [← funext Brent.resolution_eq]
    exact (Brent.search_ends hP p guess).located hr
  · intro r hr
    exact (Bisection.search_ends hP guess).located hr

/-- An objective that jumps over zero, to be solved exactly. -/
def jump : Problem ℚ ℚ where
  objective x := if x < 1 / 3 then -1 else 1
  read := some
  within := ⟨0, 1⟩
  settings := ⟨0, 100⟩

theorem root_located_jump :
    (∃ r, (jump.run (Brent.finder default) (1 / 2)).result = .ok r ∧
      jump.Located (fun x => 2 * (2 * Scalar.epsilon * |x| + Scalar.minPositive))
        (jump.run (Brent.finder default) (1 / 2)).samples r) ∧
    ∃ r, (jump.run Bisection.finder (1 / 2)).result = .ok r ∧
      jump.Located (fun x => 4 * Scalar.epsilon * max |x| Scalar.minPositive)
        (jump.run Bisection.finder (1 / 2)).samples r := by
  obtain ⟨hbrent, hbisection⟩ := root_located jump ⟨by decide, by decide⟩ (1 / 2)
  constructor
  · obtain ⟨r, hr⟩ := ok_of_isSome
      (by decide +kernel : (jump.run (Brent.finder default) (1 / 2)).result.toOption.isSome = true)
    exact ⟨r, hr, hbrent default r hr⟩
  · obtain ⟨r, hr⟩ := ok_of_isSome
      (by decide +kernel : (jump.run Bisection.finder (1 / 2)).result.toOption.isSome = true)
    exact ⟨r, hr, hbisection r hr⟩

/-- Either way to search is confined to its interval and its budget, whatever the guess, the parameters and the
    objective. The steps of Brent's method, which lead to the points asked for at last and are counted as
    iterations, divide by no zero. -/
theorem search_confined (P : Problem α β) (hP : P.IsProper) (guess : α) :
    (∀ p : Brent α, P.Confined (P.run p.finder guess) ∧
      (p.choices P guess).map (·.choose.target) <:+ (P.run p.finder guess).samples.map (·.1) ∧
      (∀ r, (P.run p.finder guess).result = .ok r → r.iterations = (p.choices P guess).length) ∧
      ∀ s ∈ p.choices P guess, s.DividesByNonzero) ∧
    P.Confined (P.run Bisection.finder guess) := by
  refine ⟨fun p => ?_, (Bisection.search_ends hP guess).confined⟩
  have hsteps := p.steps_search P guess
  exact ⟨(Brent.search_ends hP p guess).confined, hsteps.points, hsteps.iterations,
    Brent.choices_divideByNonzero hP p guess⟩

/-- A line that has no value about its root. -/
def hole : Problem ℚ (Option ℚ) where
  objective x := if |x - 2 / 3| < 1 / 2000 then none else some (x - 2 / 3)
  read := id
  within := ⟨0, 1⟩
  settings := ⟨1 / 10000, 100⟩

/-- From a guess that is not finite Brent's method is led to the hole by one step, and is interrupted there. -/
theorem search_confined_hole : letI : ScalarField ℚ := .withFinite ℚ fun x => decide (x < 100)
    (hole.run (Brent.finder default) 200).result = .error (.nonFiniteValue (2 / 3)) ∧
      (Brent.choices default hole 200).length = 1 ∧ (hole.run Bisection.finder 200).samples.length ≤ 100 := by
  have hexact := exactArithmetic_withFinite ℚ fun x => decide (x < 100)
  let _ : ScalarField ℚ := .withFinite ℚ fun x => decide (x < 100)
  obtain ⟨hbrent, hbisection⟩ := search_confined hole ⟨by decide, by decide +kernel⟩ 200
  refine ⟨?_, by decide +kernel, hbisection.budget⟩
  exact ((hbrent default).1.interrupted (2 / 3)).mpr ⟨none, by decide +kernel, rfl⟩

end TermStructure
