import TermStructure.Proofs.Bootstrap.GlobalCheck
import TermStructure.Proofs.Scalar.Sizes
import TermStructure.Proofs.Scalar.Exponential

/-!
# Reports

A report sums up its checks in three ways: by the largest error in the total order, by whether all of them passed, and by
the mean of the squares. The first two agree: since no error is within a tolerance that a smaller one exceeds, the check
with the largest error is one that did not pass whenever there is any. The last lies below the first by a factor of the
root of the number of checks at most.
-/

namespace TermStructure

/-- The check compares two quotes, whatever they are, under a tolerance. -/
def RepricingCheck.IsMade {α : Type} [Scalar α] (tolerance : α) (c : RepricingCheck α) : Prop :=
  ∃ index description market implied, c = make index description market implied tolerance

namespace RepricingReport

section
variable {α : Type} [Scalar α] {tolerance : α} {checks : List (RepricingCheck α)} {worst c : RepricingCheck α} {k : Nat}

theorem allPassed_make_iff : (make checks).allPassed = true ↔ ∀ c ∈ checks, c.passed = true := List.all_eq_true

theorem failed_make_eq_nil_iff : (make checks).failed = [] ↔ ∀ c ∈ checks, c.passed = true := by
  unfold failed
  simp [make, List.filter_eq_nil_iff]

/-- A check that has an error no larger than that of one that passed has passed. -/
theorem passed_of_totalLe [LawfulSize α] (hc : c.IsMade tolerance) (hworst : worst.IsMade tolerance)
    (hle : Scalar.totalLe c.error worst.error = true) (hpassed : worst.passed = true) : c.passed = true := by
  obtain ⟨_, _, _, _, rfl⟩ := hc
  obtain ⟨_, _, _, _, rfl⟩ := hworst
  exact decide_eq_true (LawfulSize.le_of_totalLe hle (of_decide_eq_true hpassed))

/-- The check with the largest error did not pass if any did not. -/
theorem Worst.not_passed [LawfulSize α] (h : Worst checks k worst) (hmade : ∀ c ∈ checks, c.IsMade tolerance)
    (hmissed : ¬∀ c ∈ checks, c.passed = true) : worst.passed = false := by
  rw [← Bool.not_eq_true]
  intro hpassed
  have hworst := hmade worst (List.mem_of_getElem? h.here)
  exact hmissed fun c hc => passed_of_totalLe (hmade c hc) hworst (h.largest c hc) hpassed

/-- If some error is not a number, the largest one is not. -/
theorem Worst.isNaN [LawfulOrder α] [LawfulSize α] (h : Worst checks k worst) (hmade : ∀ c ∈ checks, c.IsMade tolerance)
    (hc : c ∈ checks) (hnan : Scalar.isNaN c.error = true) : Scalar.isNaN worst.error = true := by
  have hlast : Scalar.totalLe worst.error c.error = true := by
    obtain ⟨_, _, _, _, hworst⟩ := hmade worst (List.mem_of_getElem? h.here)
    obtain ⟨_, _, _, _, rfl⟩ := hmade c hc
    rw [hworst]
    exact LawfulSize.totalLe_of_isNaN hnan
  rwa [LawfulOrder.totalLe_antisymm hlast (h.largest c hc)]

/-- What is told of the largest error is told of the check that has it. -/
theorem Worst.summary [LawfulOrder α] (h : Worst checks k worst) :
    (make checks).worstIndex = some worst.index ∧ (make checks).maxError = worst.error := by
  obtain ⟨w, hw⟩ := Option.ne_none_iff_exists'.mp
    (worst?_ne_none (List.ne_nil_of_mem (List.mem_of_getElem? h.here)))
  obtain ⟨k', hk'⟩ := exists_worst hw
  obtain rfl := h.unique hk'
  obtain rfl := Option.some.inj (h.here.symm.trans hk'.here)
  simp only [make, hw, Option.map_some, Option.getD_some, and_self]

theorem exists_worst_of_ne_nil [LawfulOrder α] (h : checks ≠ []) : ∃ k worst, Worst checks k worst := by
  obtain ⟨w, hw⟩ := Option.ne_none_iff_exists'.mp (worst?_ne_none h)
  obtain ⟨k, hk⟩ := exists_worst hw
  exact ⟨k, w, hk⟩

end

/-! ### The mean of the squares -/

section
variable {α : Type} [ScalarField α] {tolerance : α} {checks : List (RepricingCheck α)} {largest : α}

theorem error_nonneg [ExactScalar α] {c : RepricingCheck α} (h : c.IsMade tolerance) : 0 ≤ c.error := by
  obtain ⟨_, _, _, _, rfl⟩ := h
  exact (abs_nonneg _).trans_eq (ExactScalar.abs_eq _).symm

/-- The squares of all errors. -/
def squares (checks : List (RepricingCheck α)) : α := (checks.map fun c => c.error * c.error).sum

theorem squares_nonneg : 0 ≤ squares checks :=
  List.sum_nonneg fun x hx => by
    obtain ⟨c, -, rfl⟩ := List.mem_map.mp hx
    exact mul_self_nonneg _

theorem largest_le_squares {c : RepricingCheck α} (hc : c ∈ checks) : c.error * c.error ≤ squares checks := by
  refine List.single_le_sum (fun x hx => ?_) _ (List.mem_map_of_mem hc)
  obtain ⟨d, -, rfl⟩ := List.mem_map.mp hx
  exact mul_self_nonneg _

theorem squares_le (hnonneg : ∀ c ∈ checks, 0 ≤ c.error) (hle : ∀ c ∈ checks, c.error ≤ largest) :
    squares checks ≤ checks.length * (largest * largest) := by
  have hcard := List.sum_le_card_nsmul (checks.map fun c => c.error * c.error) (largest * largest) fun x hx => by
    obtain ⟨c, hc, rfl⟩ := List.mem_map.mp hx
    exact mul_self_le_mul_self (hnonneg c hc) (hle c hc)
  rwa [List.length_map, nsmul_eq_mul] at hcard

theorem rootMeanSquare_eq (hne : checks ≠ []) :
    rootMeanSquare checks = Scalar.sqrt (squares checks / (checks.length : α)) := by
  have hempty : checks.isEmpty = false := by simpa using hne
  unfold rootMeanSquare
  rw [hempty, if_neg Bool.false_ne_true, Scalar.sum_eq_sum, squares]

/-- The root of the mean of the squares is the largest error at most, and no less than that by more than the root of the
    number of checks. -/
theorem rootMeanSquare_bounds [LawfulRoot α] (hne : checks ≠ []) (hnonneg : ∀ c ∈ checks, 0 ≤ c.error)
    {worst : RepricingCheck α} (hmem : worst ∈ checks) (hle : ∀ c ∈ checks, c.error ≤ worst.error) :
    worst.error / Scalar.sqrt (checks.length : α) ≤ rootMeanSquare checks ∧ rootMeanSquare checks ≤ worst.error := by
  have hcount : (0 : α) < checks.length := Nat.cast_pos.mpr (List.length_pos_iff.mpr hne)
  have hmean : 0 ≤ squares checks / (checks.length : α) := div_nonneg squares_nonneg hcount.le
  have hroot := LawfulRoot.sqrt_nonneg hmean
  have hworst := hnonneg worst hmem
  rw [rootMeanSquare_eq hne]
  constructor
  · rw [mul_self_le_mul_self_iff (div_nonneg hworst (LawfulRoot.sqrt_nonneg hcount.le)) hroot,
      LawfulRoot.sqrt_mul_self hmean, div_mul_div_comm, LawfulRoot.sqrt_mul_self hcount.le]
    exact div_le_div_of_nonneg_right (largest_le_squares hmem) hcount.le
  · rw [mul_self_le_mul_self_iff hroot hworst, LawfulRoot.sqrt_mul_self hmean, div_le_iff₀' hcount]
    exact squares_le hnonneg hle

end

/-- A report of checks under one tolerance says that all of them passed, lists none that did not, and has no failure to
    report, just when every check passed. Otherwise its failure is that of a check that did not pass: the one with the
    largest error in the total order, the last of several, in which what is not a number is largest. It is the check of
    the largest error and of the worst index that the report tells, whether it passed or not. In exact arithmetic the
    root mean square is that error at most, and at least that error over the root of the number of checks. -/
theorem report_faithful {α β : Type} [Scalar α] [LawfulOrder α] [LawfulSize α] [ScalarField β] [ExactScalar β]
    [LawfulRoot β] :
    (∀ (tolerance : α) (checks : List (RepricingCheck α)), (∀ c ∈ checks, c.IsMade tolerance) →
      ((make checks).allPassed = true ↔ ∀ c ∈ checks, c.passed = true) ∧
      ((make checks).failed = [] ↔ ∀ c ∈ checks, c.passed = true) ∧
      ((make checks).failure? = none ↔ ∀ c ∈ checks, c.passed = true) ∧
      (checks ≠ [] → ∃ k worst, Worst checks k worst ∧
        (∀ c ∈ checks, Scalar.isNaN c.error = true → Scalar.isNaN worst.error = true) ∧
        (make checks).worstIndex = some worst.index ∧ (make checks).maxError = worst.error ∧
        ((¬∀ c ∈ checks, c.passed = true) → worst.passed = false ∧
          (make checks).failure? = some (.globalCheckFailure worst.index (worst.implied - worst.market))))) ∧
    ∀ (tolerance : β) (checks : List (RepricingCheck β)), (∀ c ∈ checks, c.IsMade tolerance) →
      (make checks).maxError / Scalar.sqrt (checks.length : β) ≤ (make checks).rmsError ∧
        (make checks).rmsError ≤ (make checks).maxError := by
  refine ⟨fun tolerance checks hmade => ⟨allPassed_make_iff, failed_make_eq_nil_iff,
    failure?_eq_none_iff.trans allPassed_make_iff, fun hne => ?_⟩, fun tolerance checks hmade => ?_⟩
  · obtain ⟨k, worst, hworst⟩ := exists_worst_of_ne_nil hne
    obtain ⟨hindex, hlargest⟩ := hworst.summary
    refine ⟨k, worst, hworst, fun c hc => hworst.isNaN hmade hc, hindex, hlargest, fun hmissed =>
      ⟨hworst.not_passed hmade hmissed, ?_⟩⟩
    have hresidual : worst.residual = worst.implied - worst.market := by
      obtain ⟨_, _, _, _, rfl⟩ := hmade worst (List.mem_of_getElem? hworst.here)
      rfl
    have hsome : ∃ c ∈ checks, c.passed = false := by simpa using hmissed
    exact failure?_eq_some_iff.mpr ⟨hsome, k, worst, hworst, by rw [hresidual]⟩
  · by_cases hne : checks = []
    · subst hne
      exact ⟨(zero_div _).le, le_rfl⟩
    · obtain ⟨k, worst, hworst⟩ := exists_worst_of_ne_nil hne
      rw [hworst.summary.2]
      refine rootMeanSquare_bounds hne (fun c hc => error_nonneg (hmade c hc)) (List.mem_of_getElem? hworst.here)
        fun c hc => ?_
      have hle := hworst.largest c hc
      rw [ExactScalar.totalLe_eq] at hle
      exact of_decide_eq_true hle

/-- A check that passes, and two whose errors are not numbers: one for want of an implied quote, one of a market
    quote. -/
def quotelessChecks : List (RepricingCheck Float) :=
  [.make 1 "A" 0.05 0.05 1e-9, .make 2 "B" 0.9 (0.0 / 0.0) 1e-9, .make 3 "C" (0.0 / 0.0) 0.03 1e-9]

/-- Two checks without any tolerance, of which one misses by one. -/
noncomputable def missedChecks : List (RepricingCheck ℝ) := [.make 1 "A" 0 0 0, .make 2 "B" 0 1 0]

/-- The second of two errors that are not numbers is reported; of two that are numbers the larger one bounds the mean. -/
theorem report_faithful_quoteless :
    (∃ residual, (make quotelessChecks).failure? = some (.globalCheckFailure 3 residual)) ∧
      (make quotelessChecks).maxError.isNaN = true ∧
      (make missedChecks).maxError = 1 ∧ 1 / √2 ≤ (make missedChecks).rmsError ∧ (make missedChecks).rmsError ≤ 1 := by
  obtain ⟨hfloat, hreal⟩ := report_faithful (α := Float) (β := ℝ)
  have hmade : ∀ c ∈ quotelessChecks, c.IsMade 1e-9 := by
    intro c hc
    simp only [quotelessChecks, List.mem_cons, List.not_mem_nil, or_false] at hc
    rcases hc with rfl | rfl | rfl <;> exact ⟨_, _, _, _, rfl⟩
  have hmissed : ¬∀ c ∈ quotelessChecks, c.passed = true := by decide +kernel
  have hindex : (make quotelessChecks).worstIndex = some 3 := by decide +kernel
  obtain ⟨-, -, -, hworst⟩ := hfloat 1e-9 quotelessChecks hmade
  obtain ⟨k, worst, -, hnan, hworstIndex, hmaxError, hfailure⟩ := hworst (List.cons_ne_nil _ _)
  have hthird : worst.index = 3 := Option.some.inj (hworstIndex.symm.trans hindex)
  have hlargest : Scalar.isNaN worst.error = true :=
    hnan (.make 2 "B" 0.9 (0.0 / 0.0) 1e-9) (List.mem_cons_of_mem _ List.mem_cons_self) (by decide +kernel)
  have hmade' : ∀ c ∈ missedChecks, c.IsMade 0 := by
    intro c hc
    simp only [missedChecks, List.mem_cons, List.not_mem_nil, or_false] at hc
    rcases hc with rfl | rfl <;> exact ⟨_, _, _, _, rfl⟩
  have hone : (make missedChecks).maxError = 1 := by
    simp [make, missedChecks, worst?, RepricingCheck.make, ExactScalar.totalLe_eq, ExactScalar.abs_eq]
  have hbounds := hreal 0 missedChecks hmade'
  rw [hone] at hbounds
  rw [hmaxError]
  exact ⟨⟨_, hthird ▸ (hfailure hmissed).2⟩, hlargest, hone, hbounds⟩

end RepricingReport

end TermStructure
