import TermStructure.Binary64

/-!
# Laws of scalars

What a theorem may ask of a number type beyond the operations: that a representation tells a number
from all others, that what is not a number spoils what is computed from it, and that the total order tells
numbers apart. Binary floating point keeps all of these, which is read off the bits.
-/

namespace TermStructure

/-- Numbers of the same representation are equal. -/
class LawfulSame (α : Type) [Scalar α] : Prop where
  eq_of_same {x y : α} : Scalar.same x y = true → x = y

/-- What is not a number stays so, and is not within any bound. -/
class LawfulNaN (α : Type) [Scalar α] : Prop where
  isNaN_sub {x y : α} : Scalar.isNaN x = true → Scalar.isNaN (x - y) = true
  isNaN_abs {x : α} : Scalar.isNaN x = true → Scalar.isNaN (Scalar.abs x) = true
  not_le_of_isNaN {x y : α} : Scalar.isNaN x = true → ¬x ≤ y

/-- The total order is a linear one, and nothing finite is at a distance from itself. -/
class LawfulOrder (α : Type) [Scalar α] : Prop where
  totalLe_total (x y : α) : (Scalar.totalLe x y || Scalar.totalLe y x) = true
  totalLe_trans {x y z : α} : Scalar.totalLe x y = true → Scalar.totalLe y z = true → Scalar.totalLe x z = true
  totalLe_antisymm {x y : α} : Scalar.totalLe x y = true → Scalar.totalLe y x = true → x = y
  sub_self {x : α} : Scalar.isFinite x = true → x - x = 0
  /-- The decimals that stand for distances are not negative. -/
  decimal_nonneg : (0 : α) ≤ 1e-10

theorem LawfulOrder.totalLe_self {α : Type} [Scalar α] [LawfulOrder α] (x : α) : Scalar.totalLe x x = true := by
  rw [← Bool.or_self (Scalar.totalLe x x)]
  exact totalLe_total _ _

namespace Binary64
open Float.Model

theorem eq_of_toBits_eq {x y : Float} (h : x.toBits = y.toBits) : x = y := by
  obtain ⟨⟨a, _⟩⟩ := x
  obtain ⟨⟨b, _⟩⟩ := y
  cases (h : a = b)
  rfl

theorem unpack_of_isNaN {x : Float} (h : x.isNaN = true) : x.toModel.unpack = .notANumber := by
  change x.toModel.unpack.isNaN = true at h
  generalize x.toModel.unpack = u at h ⊢
  cases u with
  | notANumber => rfl
  | _ => cases h

theorem isNaN_pack : (Float.ofModel (pack .notANumber)).isNaN = true := by
  decide

theorem isNaN_sub {x y : Float} (h : x.isNaN = true) : (x - y).isNaN = true := by
  have hu : UnpackedFloat.sub Format.binary64 x.toModel.unpack y.toModel.unpack = .notANumber := by
    rw [unpack_of_isNaN h]
    rfl
  have hs : x - y = .ofModel (pack .notANumber) := congrArg (fun u => Float.ofModel (pack u)) hu
  rw [hs]
  exact isNaN_pack

theorem isNaN_abs {x : Float} (h : x.isNaN = true) : x.abs.isNaN = true := by
  have hs : x.abs = .ofModel (pack .notANumber) :=
    congrArg (fun u => Float.ofModel (pack (UnpackedFloat.abs u))) (unpack_of_isNaN h)
  rw [hs]
  exact isNaN_pack

theorem not_le_of_isNaN {x y : Float} (h : x.isNaN = true) : ¬x ≤ y := by
  intro hle
  have hle : x.toModel.unpack.le y.toModel.unpack = true :=
    of_decide_eq_true (p := x.toModel ≤ y.toModel) hle
  rw [unpack_of_isNaN h] at hle
  cases hle

/-- The place in the total order tells a number from all others. -/
theorem eq_of_rank_eq {x y : Float} (h : rank x = rank y) : x = y := by
  apply eq_of_toBits_eq
  apply UInt64.toNat_inj.mp
  have hx : x.toBits.toNat < 18446744073709551616 := x.toBits.toNat_lt
  have hy : y.toBits.toNat < 18446744073709551616 := y.toBits.toNat_lt
  unfold rank isNegative at h
  simp only [beq_iff_eq] at h
  split at h <;> split at h <;> omega

theorem sub_self {x : Float} (h : x.isFinite = true) : x - x = 0.0 := by
  have hu : UnpackedFloat.sub Format.binary64 x.toModel.unpack x.toModel.unpack = .zero .positive := by
    change x.toModel.unpack.isFinite = true at h
    generalize x.toModel.unpack = u at h ⊢
    cases u with
    | notANumber => cases h
    | infinity s => cases h
    | zero s => cases s <;> rfl
    | finite s m e hm =>
      unfold UnpackedFloat.sub
      dsimp only
      rw [Int.sub_self]
      rfl
  have hs : x - x = .ofModel (pack (.zero .positive)) := congrArg (fun u => Float.ofModel (pack u)) hu
  rw [hs]
  decide

end Binary64

instance : LawfulSame Float where
  eq_of_same h := Binary64.eq_of_toBits_eq (by simpa [Scalar.same] using h)

instance : LawfulNaN Float where
  isNaN_sub h := Binary64.isNaN_sub h
  isNaN_abs h := Binary64.isNaN_abs h
  not_le_of_isNaN h := Binary64.not_le_of_isNaN h

instance : LawfulOrder Float where
  totalLe_total x y := by
    rw [Bool.or_eq_true]
    exact (Int.le_total (Binary64.rank x) (Binary64.rank y)).imp decide_eq_true decide_eq_true
  totalLe_trans hxy hyz := decide_eq_true (Int.le_trans (of_decide_eq_true hxy) (of_decide_eq_true hyz))
  totalLe_antisymm hxy hyx :=
    Binary64.eq_of_rank_eq (Int.le_antisymm (of_decide_eq_true hxy) (of_decide_eq_true hyx))
  sub_self h := Binary64.sub_self h
  decimal_nonneg := by
    change (0.0 : Float) ≤ 1e-10
    decide

end TermStructure
