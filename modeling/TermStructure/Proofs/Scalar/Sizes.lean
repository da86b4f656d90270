import TermStructure.Proofs.Scalar.Comparisons

/-!
# Sizes

How absolute values go together with bounds: one that comes no later in the total order is within every bound that the
other is within, and what is not a number comes after all of them. In binary floating point zeros of two signs differ in
the total order and not in a comparison, but no absolute value is a negative zero.
-/

namespace TermStructure

/-- Absolute values are within bounds as they come in the total order, and what is not a number comes last. -/
class LawfulSize (α : Type) [Scalar α] : Prop where
  le_of_totalLe {x y bound : α} : Scalar.totalLe (Scalar.abs x) (Scalar.abs y) = true → Scalar.abs y ≤ bound →
    Scalar.abs x ≤ bound
  totalLe_of_isNaN {x y : α} : Scalar.isNaN (Scalar.abs y) = true → Scalar.totalLe (Scalar.abs x) (Scalar.abs y) = true

instance {α : Type} [ScalarField α] [ExactScalar α] : LawfulSize α where
  le_of_totalLe h hle := by
    rw [ExactScalar.totalLe_eq] at h
    exact (of_decide_eq_true h).trans hle
  totalLe_of_isNaN h := by simp [ExactScalar.isNaN_eq] at h

namespace Binary64
open Float.Model Float.Model.UnpackedFloat

/-- Numbers that compare as equal are the same, zeros of two signs apart. -/
theorem eq_of_compare_eq {u v : UnpackedFloat} (h : u.compare v = some .eq) :
    u = v ∨ ∃ s s', u = .zero s ∧ v = .zero s' := by
  have hfinite {m n : Nat} {e f : Int} (h : (compare e f).then (compare m n) = .eq) : e = f ∧ m = n := by
    rw [Ordering.then_eq_eq] at h
    exact ⟨Int.compare_eq_eq.mp h.1, Nat.compare_eq_eq.mp h.2⟩
  rcases u with (_ | _) | _ | s | ⟨_ | _, m, e, hm⟩ <;> rcases v with (_ | _) | _ | s' | ⟨_ | _, n, f, hn⟩ <;>
    first
    | exact .inl rfl
    | exact .inr ⟨s, s', rfl, rfl⟩
    | cases h
    | skip
  · obtain ⟨rfl, rfl⟩ := hfinite (Ordering.swap_eq_eq.mp (Option.some.inj h))
    exact .inl rfl
  · obtain ⟨rfl, rfl⟩ := hfinite (Option.some.inj h)
    exact .inl rfl

/-- An absolute value has the positive sign. -/
theorem sign?_abs {x : Float} (h : x.abs.isNaN = false) : sign? x.abs.toModel.unpack = some .positive := by
  refine sign?_unpack_pack (u := UnpackedFloat.abs x.toModel.unpack) ?_
  cases hx : x.toModel.unpack with
  | notANumber =>
    have hnan : x.abs.isNaN = true := isNaN_abs (congrArg UnpackedFloat.isNaN hx)
    rw [hnan] at h
    cases h
  | _ => rfl

/-- The place of an absolute value in the total order is its magnitude. -/
theorem rank_abs {x : Float} (h : x.abs.isNaN = false) :
    rank x.abs = magnitude x.abs.toModel.unpack ∧ 0 ≤ magnitude x.abs.toModel.unpack := by
  refine ⟨rank_eq (sign?_abs h), ?_⟩
  have hbetween := between x.abs.toModel
  generalize x.abs.toModel.unpack = u at hbetween
  cases u with
  | finite => exact hbetween.1.le
  | _ => simp only [magnitude]; omega

/-- Whatever is a number comes before what is not. -/
theorem rank_lt_of_isNaN {x y : Float} (hx : x.isNaN = false) (hy : y.isNaN = true) : rank x < rank y := by
  have hlast : rank y = 2047 * 2 ^ 52 + 2 ^ 51 := by
    rw [eq_of_unpack_notANumber (unpack_of_isNaN hy)]
    decide
  obtain ⟨s, hs⟩ := Option.ne_none_iff_exists'.mp (isNaN_eq_false_iff.mp hx)
  have hbetween := between x.toModel
  rw [hlast, rank_eq hs]
  generalize x.toModel.unpack = u at hbetween hs ⊢
  rcases u with (_ | _) | _ | (_ | _) | ⟨_ | _, m, e, hm⟩ <;> cases hs <;>
    simp only [Between, placed, magnitude] at hbetween ⊢ <;> omega

theorem rank_le_of_isNaN {y : Float} (x : Float) (hy : y.isNaN = true) : rank x ≤ rank y := by
  cases hx : x.isNaN with
  | false => exact (rank_lt_of_isNaN hx hy).le
  | true =>
    rw [eq_of_unpack_notANumber (unpack_of_isNaN hx), eq_of_unpack_notANumber (unpack_of_isNaN hy)]

/-- What is within something is a number, and so is what it is within. -/
theorem isNaN_of_le {x y : Float} (h : x ≤ y) : x.isNaN = false ∧ y.isNaN = false := by
  constructor
  · rw [← Bool.not_eq_true]
    exact fun hx => not_le_of_isNaN hx h
  · have hle : x.toModel.unpack.le y.toModel.unpack = true := of_decide_eq_true (p := x.toModel ≤ y.toModel) h
    rw [← Bool.not_eq_true]
    intro hy
    rw [unpack_of_isNaN hy] at hle
    cases hx : x.toModel.unpack <;> rw [hx] at hle <;> cases hle

/-- An absolute value that comes no later than another is within the bounds of the other. -/
theorem abs_le_of_rank_le {x y bound : Float} (h : rank x.abs ≤ rank y.abs) (hle : y.abs ≤ bound) : x.abs ≤ bound := by
  obtain ⟨hy, hbound⟩ := isNaN_of_le hle
  have hx : x.abs.isNaN = false := by
    rw [← Bool.not_eq_true]
    exact fun hx => absurd h (Int.not_le.mpr (rank_lt_of_isNaN hy hx))
  by_contra hnot
  have hlt : bound < x.abs := lt_of_not_le (isNaN_eq_false_iff.mp hx) (isNaN_eq_false_iff.mp hbound) hnot
  have hrank : rank bound < rank y.abs := Int.lt_of_lt_of_le (rank_lt hlt) h
  -- The other does not exceed the bound, although it comes later: both are zeros, and so is the value before it.
  have hnotlt : ¬y.abs < bound := fun hlt => absurd (rank_lt hlt) (Int.not_lt.mpr hrank.le)
  have hcompare : y.abs.toModel.unpack.compare bound.toModel.unpack = some .eq := by
    have hle : y.abs.toModel.unpack.le bound.toModel.unpack = true :=
      of_decide_eq_true (p := y.abs.toModel ≤ bound.toModel) hle
    have hnotlt : ¬y.abs.toModel.unpack.lt bound.toModel.unpack = true := fun hlt =>
      hnotlt (decide_eq_true (p := y.abs.toModel < bound.toModel) hlt)
    unfold UnpackedFloat.le at hle
    unfold UnpackedFloat.lt at hnotlt
    generalize y.abs.toModel.unpack.compare bound.toModel.unpack = o at hle hnotlt ⊢
    match o with
    | none => cases hle
    | some .lt => exact absurd rfl hnotlt
    | some .eq => rfl
    | some .gt => cases hle
  rcases eq_of_compare_eq hcompare with heq | ⟨s, s', hzero, -⟩
  · have hsign := sign?_abs hy
    rw [rank_eq hsign, rank_eq (heq ▸ hsign), heq] at hrank
    exact absurd hrank (Int.lt_irrefl _)
  · obtain ⟨hplace, -⟩ := rank_abs hy
    obtain ⟨hplace', hnonneg⟩ := rank_abs hx
    rw [hzero, magnitude] at hplace
    have hsame : x.abs = y.abs := eq_of_rank_eq (by omega)
    exact not_le_of_lt (hsame ▸ hlt) hle

end Binary64

instance : LawfulSize Float where
  le_of_totalLe h hle := Binary64.abs_le_of_rank_le (of_decide_eq_true h) hle
  totalLe_of_isNaN {x _} h := decide_eq_true (Binary64.rank_le_of_isNaN (Float.abs x) h)

end TermStructure
