import TermStructure.Proofs.Scalar.Exact
import TermStructure.Interpolation.Scheme

/-!
# Building interpolants

When a method of the library can be built over nodes, and that the interpolant keeps them.
-/

namespace TermStructure

/-! ### What is kept -/

section
variable {α : Type} [Scalar α] {xs ys : List α}

theorem Knots.make_ok {k : Knots α} (h : make xs ys = .ok k) : k.xs = xs ∧ k.ys = ys := by
  unfold make at h
  split at h
  · split at h
    · split at h
      · split at h
        · cases h
          exact ⟨rfl, rfl⟩
        · cases h
      · cases h
    · cases h
  · cases h

theorem Knots.make_of_map {interpolant : Knots α → Interpolant α} {f : Interpolant α}
    (h : (Knots.make xs ys).map interpolant = .ok f) : ∃ k, Knots.make xs ys = .ok k ∧ f = interpolant k := by
  cases hk : Knots.make xs ys with
  | error e =>
    rw [hk] at h
    cases h
  | ok k =>
    rw [hk] at h
    exact ⟨k, rfl, (Except.ok.inj h).symm⟩

theorem Linear.build_eq : build xs ys = (Knots.make xs ys).map interpolant := by
  unfold build
  cases Knots.make xs ys <;> rfl

theorem BackwardFlat.build_eq : build xs ys = (Knots.make xs ys).map interpolant := by
  unfold build
  cases Knots.make xs ys <;> rfl

theorem CubicSpline.build_eq : build xs ys = (Knots.make xs ys).map interpolant := by
  unfold build
  cases Knots.make xs ys <;> rfl

theorem LogLinear.build_of_positive (h : firstNonPositive? ys = none) :
    build xs ys = (Knots.make xs ys).map interpolant := by
  unfold build
  rw [h]
  cases Knots.make xs ys <;> rfl

theorem LogLinear.positive_of_build {f : Interpolant α} (h : build xs ys = .ok f) : firstNonPositive? ys = none := by
  unfold build at h
  cases hk : Knots.make xs ys with
  | error e =>
    rw [hk] at h
    cases h
  | ok k =>
    rw [hk] at h
    dsimp only [bind, Except.bind] at h
    split at h
    · cases h
    · assumption

theorem Knots.kept_of_map {interpolant : Knots α → Interpolant α} {f : Interpolant α}
    (hkept : ∀ k, (interpolant k).xs = k.xs ∧ (interpolant k).ys = k.ys)
    (h : (Knots.make xs ys).map interpolant = .ok f) : f.xs = xs ∧ f.ys = ys := by
  obtain ⟨k, hk, rfl⟩ := Knots.make_of_map h
  obtain ⟨rfl, rfl⟩ := Knots.make_ok hk
  exact hkept k

/-- An interpolant of the library keeps the nodes it is built over. -/
theorem Method.build_ok {m : Method} {f : Interpolant α} (h : m.build xs ys = .ok f) : f.xs = xs ∧ f.ys = ys := by
  cases m with
  | linear => exact Knots.kept_of_map (fun _ => ⟨rfl, rfl⟩) (Linear.build_eq.symm.trans h)
  | logLinear =>
    have hpositive := LogLinear.positive_of_build h
    exact Knots.kept_of_map (fun _ => ⟨rfl, rfl⟩) ((LogLinear.build_of_positive hpositive).symm.trans h)
  | backwardFlat => exact Knots.kept_of_map (fun _ => ⟨rfl, rfl⟩) (BackwardFlat.build_eq.symm.trans h)
  | cubicSpline => exact Knots.kept_of_map (fun _ => ⟨rfl, rfl⟩) (CubicSpline.build_eq.symm.trans h)

end

/-! ### What can be built -/

variable {α : Type} [ScalarField α] {xs ys : List α}

theorem isIncreasing_iff : isIncreasing xs = true ↔ xs.Pairwise (· < ·) := by
  rw [← List.isChain_iff_pairwise]
  induction xs with
  | nil => simp [isIncreasing]
  | cons a rest ih =>
    cases rest with
    | nil => simp [isIncreasing]
    | cons b rest =>
      rw [List.isChain_cons_cons, ← ih]
      simp [isIncreasing]

/-- Nodes are taken if they are paired, finite and increase. -/
theorem Knots.make_of_finite (two_le : 2 ≤ xs.length) (length_eq : xs.length = ys.length)
    (increasing : xs.Pairwise (· < ·)) (finite : ∀ x ∈ xs ++ ys, Scalar.isFinite x = true) :
    ∃ k, make xs ys = .ok k ∧ k.xs = xs ∧ k.ys = ys := by
  have hfinite : (xs ++ ys).all Scalar.isFinite = true := List.all_eq_true.mpr finite
  refine ⟨⟨xs, ys, two_le, length_eq, hfinite, isIncreasing_iff.mpr increasing⟩, ?_, rfl, rfl⟩
  rw [make, dif_pos two_le, dif_pos length_eq, dif_pos hfinite, dif_pos (isIncreasing_iff.mpr increasing)]

theorem LogLinear.firstNonPositive?_of_pos (h : ∀ y ∈ ys, 0 < y) : firstNonPositive? ys = none := by
  have hnone : ys.findIdx? (fun y => decide (y ≤ 0)) = none :=
    List.findIdx?_eq_none_iff.mpr fun y hy => decide_eq_false (not_le.mpr (h y hy))
  unfold firstNonPositive?
  rw [hnone]

/-- Every method can be built over finite nodes that increase, if there are enough of them and a logarithm is
    asked for of positive values only. -/
theorem Method.build_of_finite {m : Method} (two_le : 2 ≤ xs.length) (length_eq : xs.length = ys.length)
    (increasing : xs.Pairwise (· < ·)) (finite : ∀ x ∈ xs ++ ys, Scalar.isFinite x = true)
    (positive : m = .logLinear → ∀ y ∈ ys, 0 < y) : ∃ f, m.build xs ys = .ok f := by
  obtain ⟨k, hk, -, -⟩ := Knots.make_of_finite two_le length_eq increasing finite
  cases m with
  | linear => exact ⟨Linear.interpolant k, by rw [Method.build, Linear.build_eq, hk]; rfl⟩
  | logLinear =>
    have hpositive := LogLinear.firstNonPositive?_of_pos (positive rfl)
    exact ⟨LogLinear.interpolant k, by rw [Method.build, LogLinear.build_of_positive hpositive, hk]; rfl⟩
  | backwardFlat => exact ⟨BackwardFlat.interpolant k, by rw [Method.build, BackwardFlat.build_eq, hk]; rfl⟩
  | cubicSpline => exact ⟨CubicSpline.interpolant k, by rw [Method.build, CubicSpline.build_eq, hk]; rfl⟩

end TermStructure
