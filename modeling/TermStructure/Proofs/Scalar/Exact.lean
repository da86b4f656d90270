import Mathlib.Algebra.Order.Field.Basic
import Mathlib.Algebra.Order.Ring.Rat
import Mathlib.Data.Rat.Cast.Order
import Mathlib.Tactic.FieldSimp
import Mathlib.Tactic.Linarith
import Mathlib.Tactic.Positivity
import Mathlib.Tactic.Ring
import TermStructure.Proofs.Scalar.Laws

/-!
# Exact arithmetic

An exact scalar is an ordered field whose operations are those of the field. The transcendental
functions may be any functions at all: what holds of an exact scalar does not rest on what they are.
-/

namespace TermStructure

/-- An ordered field that is a scalar by the same operations. -/
class ScalarField (α : Type) extends Field α, LinearOrder α, IsStrictOrderedRing α, Scalar α

/-- What is computed is what the field says. -/
class ExactScalar (α : Type) [ScalarField α] : Prop where
  beq_iff (x y : α) : (x == y) = true ↔ x = y
  yearFraction_eq (days : Int) (basis : Nat) : (Scalar.yearFraction days basis : α) = (days : α) / (basis : α)
  ofScientific_eq (m : Nat) (s : Bool) (e : Nat) :
    (OfScientific.ofScientific m s e : α) = if s then (m : α) / 10 ^ e else (m : α) * 10 ^ e
  abs_eq (x : α) : Scalar.abs x = |x|
  larger_eq (x y : α) : Scalar.larger x y = max x y
  smaller_eq (x y : α) : Scalar.smaller x y = min x y
  withSignOf_eq (x y : α) : Scalar.withSignOf x y = if y < 0 then -|x| else |x|
  isFinite_eq (x : α) : Scalar.isFinite x = true
  isNaN_eq (x : α) : Scalar.isNaN x = false
  totalLe_eq (x y : α) : Scalar.totalLe x y = decide (x ≤ y)
  same_iff (x y : α) : Scalar.same x y = true ↔ x = y
  epsilon_pos : (0 : α) < Scalar.epsilon
  minPositive_pos : (0 : α) < Scalar.minPositive

/-- Every ordered field is a scalar, with any functions in the place of the transcendental ones. -/
@[reducible] def ScalarField.ofField (K : Type) [F : Field K] [L : LinearOrder K] [I : IsStrictOrderedRing K]
    (exp ln sqrt : K → K) : ScalarField K :=
  { F, L, I with
    ofScientific m s e := if s then (m : K) / 10 ^ e else (m : K) * 10 ^ e
    beq x y := decide (x = y)
    decLt _ _ := inferInstance
    decLe _ _ := inferInstance
    yearFraction days basis := (days : K) / (basis : K)
    abs x := |x|
    larger := max
    smaller := min
    withSignOf x y := if y < 0 then -|x| else |x|
    exp := exp
    ln := ln
    sqrt := sqrt
    isFinite _ := true
    isNaN _ := false
    totalLe x y := decide (x ≤ y)
    same x y := decide (x = y)
    epsilon := 1 / 2 ^ 52
    minPositive := 1 / 2 ^ 1022 }

theorem exactScalar_ofField (K : Type) [Field K] [LinearOrder K] [IsStrictOrderedRing K] (exp ln sqrt : K → K) :
    @ExactScalar K (.ofField K exp ln sqrt) :=
  letI := ScalarField.ofField K exp ln sqrt
  { beq_iff _ _ := decide_eq_true_iff
    yearFraction_eq _ _ := rfl
    ofScientific_eq _ _ _ := rfl
    abs_eq _ := rfl
    larger_eq _ _ := rfl
    smaller_eq _ _ := rfl
    withSignOf_eq _ _ := rfl
    isFinite_eq _ := rfl
    isNaN_eq _ := rfl
    totalLe_eq _ _ := rfl
    same_iff _ _ := decide_eq_true_iff
    epsilon_pos := by
      change (0 : K) < 1 / 2 ^ 52
      positivity
    minPositive_pos := by
      change (0 : K) < 1 / 2 ^ 1022
      positivity }

/-- The rationals, with the identity for the functions they do not have. -/
instance : ScalarField ℚ := .ofField ℚ id id id

instance : ExactScalar ℚ := exactScalar_ofField ℚ id id id

section
variable {α : Type} [ScalarField α] [ExactScalar α]

instance : LawfulSame α where
  eq_of_same h := (ExactScalar.same_iff _ _).mp h

instance : LawfulNaN α where
  isNaN_sub h := by simp [ExactScalar.isNaN_eq] at h
  isNaN_abs h := by simp [ExactScalar.isNaN_eq] at h
  not_le_of_isNaN h := by simp [ExactScalar.isNaN_eq] at h

instance : LawfulOrder α where
  totalLe_total x y := by
    rw [ExactScalar.totalLe_eq, ExactScalar.totalLe_eq, Bool.or_eq_true]
    exact (le_total x y).imp decide_eq_true decide_eq_true
  totalLe_trans hxy hyz := by
    rw [ExactScalar.totalLe_eq] at hxy hyz ⊢
    exact decide_eq_true ((of_decide_eq_true hxy).trans (of_decide_eq_true hyz))
  totalLe_antisymm hxy hyx := by
    rw [ExactScalar.totalLe_eq] at hxy hyx
    exact le_antisymm (of_decide_eq_true hxy) (of_decide_eq_true hyx)
  sub_self _ := sub_self _
  decimal_nonneg := by
    rw [ExactScalar.ofScientific_eq, if_pos rfl]
    positivity

end

theorem Scalar.sum_eq_sum {α : Type} [ScalarField α] (xs : List α) : Scalar.sum xs = xs.sum := by
  unfold Scalar.sum
  rw [List.sum_eq_foldl, neg_zero]

/-! ### Exact arithmetic that leaves open what is finite -/

/-- What is computed is what the field says. What counts as finite is left open, so a number may stand for
    one that is not. -/
class ExactArithmetic (α : Type) [ScalarField α] : Prop where
  beq_iff (x y : α) : (x == y) = true ↔ x = y
  ofScientific_eq (m : Nat) (s : Bool) (e : Nat) :
    (OfScientific.ofScientific m s e : α) = if s then (m : α) / 10 ^ e else (m : α) * 10 ^ e
  abs_eq (x : α) : Scalar.abs x = |x|
  larger_eq (x y : α) : Scalar.larger x y = max x y
  smaller_eq (x y : α) : Scalar.smaller x y = min x y
  withSignOf_eq (x y : α) : Scalar.withSignOf x y = if y < 0 then -|x| else |x|
  epsilon_pos : (0 : α) < Scalar.epsilon
  minPositive_pos : (0 : α) < Scalar.minPositive

instance {α : Type} [ScalarField α] [ExactScalar α] : ExactArithmetic α where
  beq_iff := ExactScalar.beq_iff
  ofScientific_eq := ExactScalar.ofScientific_eq
  abs_eq := ExactScalar.abs_eq
  larger_eq := ExactScalar.larger_eq
  smaller_eq := ExactScalar.smaller_eq
  withSignOf_eq := ExactScalar.withSignOf_eq
  epsilon_pos := ExactScalar.epsilon_pos
  minPositive_pos := ExactScalar.minPositive_pos

/-- The same scalar, of whose numbers only some are finite. -/
@[reducible] def ScalarField.withFinite (K : Type) [F : ScalarField K] (finite : K → Bool) : ScalarField K :=
  { F with isFinite := finite }

theorem exactArithmetic_withFinite (K : Type) [ScalarField K] [h : ExactArithmetic K] (finite : K → Bool) :
    @ExactArithmetic K (.withFinite K finite) :=
  letI := ScalarField.withFinite K finite
  { beq_iff := h.beq_iff
    ofScientific_eq := h.ofScientific_eq
    abs_eq := h.abs_eq
    larger_eq := h.larger_eq
    smaller_eq := h.smaller_eq
    withSignOf_eq := h.withSignOf_eq
    epsilon_pos := h.epsilon_pos
    minPositive_pos := h.minPositive_pos }

namespace ExactArithmetic
variable {α : Type} [ScalarField α] [ExactArithmetic α]

theorem half_eq : (0.5 : α) = 1 / 2 := by
  rw [ofScientific_eq]
  norm_num

theorem two_eq : (2.0 : α) = 2 := by
  rw [ofScientific_eq]
  norm_num

theorem three_eq : (3.0 : α) = 3 := by
  rw [ofScientific_eq]
  norm_num

theorem four_eq : (4.0 : α) = 4 := by
  rw [ofScientific_eq]
  norm_num

theorem six_eq : (6.0 : α) = 6 := by
  rw [ofScientific_eq]
  norm_num

end ExactArithmetic

end TermStructure
