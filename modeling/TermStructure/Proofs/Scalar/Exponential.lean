import Mathlib.Analysis.SpecialFunctions.Log.Basic
import TermStructure.Proofs.Scalar.Exact

/-!
# The exponential function

What a theorem may ask of the exponential function, the logarithm and the square root of an exact scalar, and that the
real numbers have it. Where something is to be computed, rational functions stand in for the first two.
-/

namespace TermStructure

/-- The exponential function is one at zero and grows. -/
class LawfulExp (α : Type) [ScalarField α] : Prop where
  exp_zero : Scalar.exp (0 : α) = 1
  exp_strictMono : StrictMono (Scalar.exp : α → α)

/-- The exponential function turns sums into products, and the logarithm of a positive number undoes it. -/
class LawfulLn (α : Type) [ScalarField α] : Prop extends LawfulExp α where
  exp_add (x y : α) : Scalar.exp (x + y) = Scalar.exp x * Scalar.exp y
  ln_exp (x : α) : Scalar.ln (Scalar.exp x) = x
  exp_ln {y : α} : 0 < y → Scalar.exp (Scalar.ln y) = y

/-- The exponential function undoes the logarithm of a positive number. -/
class LawfulInverse (α : Type) [ScalarField α] : Prop where
  exp_ln {y : α} : 0 < y → Scalar.exp (Scalar.ln y) = y

/-- The exponential function turns sums into products, and the logarithm undoes it. -/
class LawfulProducts (α : Type) [ScalarField α] : Prop where
  exp_add (x y : α) : Scalar.exp (x + y) = Scalar.exp x * Scalar.exp y
  ln_exp (x : α) : Scalar.ln (Scalar.exp x) = x

/-- The exponential function grows from one at zero and takes just the positive values. -/
class PositiveExp (α : Type) [ScalarField α] : Prop extends LawfulExp α, LawfulInverse α where
  exp_positive (x : α) : 0 < Scalar.exp x

/-- The square root of what is not negative is not negative either, and its square is what it is the root of. -/
class LawfulRoot (α : Type) [ScalarField α] : Prop where
  sqrt_nonneg {x : α} : 0 ≤ x → 0 ≤ Scalar.sqrt x
  sqrt_mul_self {x : α} : 0 ≤ x → Scalar.sqrt x * Scalar.sqrt x = x

instance : LawfulInverse ℚ where
  exp_ln _ := rfl

/-- The real numbers, with their exponential function, logarithm and square root. -/
noncomputable instance : ScalarField ℝ := .ofField ℝ Real.exp Real.log Real.sqrt

instance : ExactScalar ℝ := exactScalar_ofField ℝ Real.exp Real.log Real.sqrt

instance : LawfulLn ℝ where
  exp_zero := Real.exp_zero
  exp_strictMono := Real.exp_strictMono
  exp_add := Real.exp_add
  ln_exp := Real.log_exp
  exp_ln h := Real.exp_log h

instance : LawfulRoot ℝ where
  sqrt_nonneg _ := Real.sqrt_nonneg _
  sqrt_mul_self h := Real.mul_self_sqrt h

section
variable {α : Type} [ScalarField α]

theorem exp_lt_one [LawfulExp α] {x : α} (h : x < 0) : Scalar.exp x < 1 := by
  have hlt := LawfulExp.exp_strictMono h
  rwa [LawfulExp.exp_zero] at hlt

theorem one_lt_exp [LawfulExp α] {x : α} (h : 0 < x) : 1 < Scalar.exp x := by
  have hlt := LawfulExp.exp_strictMono h
  rwa [LawfulExp.exp_zero] at hlt

theorem exp_pos [LawfulLn α] (x : α) : 0 < Scalar.exp x := by
  have hone : Scalar.exp x * Scalar.exp (-x) = 1 := by
    rw [← LawfulLn.exp_add, add_neg_cancel, LawfulExp.exp_zero]
  have hsquare : Scalar.exp x = Scalar.exp (x / 2) * Scalar.exp (x / 2) := by
    rw [← LawfulLn.exp_add, add_halves]
  have hnonneg : 0 ≤ Scalar.exp x := by
    rw [hsquare]
    exact mul_self_nonneg _
  refine lt_of_le_of_ne hnonneg fun hzero => ?_
  rw [← hzero, zero_mul] at hone
  exact zero_ne_one hone

instance [LawfulLn α] : PositiveExp α where
  exp_ln := LawfulLn.exp_ln
  exp_positive := exp_pos

instance [LawfulLn α] : LawfulProducts α where
  exp_add := LawfulLn.exp_add
  ln_exp := LawfulLn.ln_exp

/-- If one value were zero, all of them would be, and the logarithm could not tell them apart. -/
theorem exp_ne_zero [LawfulProducts α] (x : α) : Scalar.exp x ≠ 0 := by
  intro hzero
  have hall (y : α) : Scalar.exp y = 0 := by
    rw [← sub_add_cancel y x, LawfulProducts.exp_add, hzero, mul_zero]
  have hsame : (0 : α) = 1 := by
    rw [← LawfulProducts.ln_exp (0 : α), ← LawfulProducts.ln_exp (1 : α), hall, hall]
  exact zero_ne_one hsame

theorem ln_exp_div_exp [LawfulProducts α] (x y : α) : Scalar.ln (Scalar.exp x / Scalar.exp y) = x - y := by
  have hproduct : Scalar.exp x = Scalar.exp (x - y) * Scalar.exp y := by
    rw [← LawfulProducts.exp_add, sub_add_cancel]
  rw [hproduct, mul_div_cancel_right₀ _ (exp_ne_zero y), LawfulProducts.ln_exp]

theorem ln_lt_ln [LawfulLn α] {x y : α} (hx : 0 < x) (h : x < y) : Scalar.ln x < Scalar.ln y := by
  rw [← (LawfulExp.exp_strictMono (α := α)).lt_iff_lt, LawfulLn.exp_ln hx, LawfulLn.exp_ln (hx.trans h)]
  exact h

end

/-! ### Growth on the rationals -/

/-- In the place of the exponential function: it grows from one at zero and takes just the positive values. -/
def Growth.exp (x : ℚ) : ℚ := if x < 0 then 1 / (1 - x) else 1 + x

def Growth.ln (y : ℚ) : ℚ := if y < 1 then 1 - 1 / y else y - 1

namespace Growth

/-- The rationals with that function. -/
@[reducible] def scalar : ScalarField ℚ := .ofField ℚ exp ln id

theorem exact : @ExactScalar ℚ scalar := exactScalar_ofField ℚ exp ln id

theorem positive (x : ℚ) : 0 < exp x := by
  unfold exp
  split
  · exact one_div_pos.mpr (by linarith)
  · linarith

theorem strictMono : StrictMono exp := by
  intro x y hxy
  unfold exp
  split
  · split
    · exact one_div_lt_one_div_of_lt (by linarith) (by linarith)
    · have hbelow : 1 / (1 - x) < 1 := (div_lt_one (by linarith)).mpr (by linarith)
      linarith
  · rw [if_neg (by linarith)]
    linarith

theorem exp_ln {y : ℚ} (hy : 0 < y) : exp (ln y) = y := by
  unfold ln
  split
  · rename_i hlt
    have hneg : 1 - 1 / y < 0 := sub_neg.mpr ((one_lt_div hy).mpr hlt)
    rw [exp, if_pos hneg, sub_sub_cancel, one_div_one_div]
  · rename_i hge
    rw [exp, if_neg (by linarith)]
    ring

theorem positiveExp : @PositiveExp ℚ scalar :=
  letI := scalar
  { exp_zero := by
      change exp 0 = 1
      rw [exp, if_neg (lt_irrefl 0), add_zero]
    exp_strictMono := strictMono
    exp_ln := exp_ln
    exp_positive := positive }

end Growth

end TermStructure
