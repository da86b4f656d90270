import TermStructure.Curve.Kind
import TermStructure.Proofs.Scalar.Comparisons

/-!
# Infinite numbers

What a search at a pillar relies on where numbers may be infinite: an infinite number is beyond every finite
one, so a bound that is finite keeps it out, and an interval that it lies in has it in the middle, unless the
interval holds everything. In binary floating point a product is infinite only if its exponent is too large
for its format after rounding, and rounding raises the exponent by one at most.
-/

namespace TermStructure

/-- Infinite numbers are beyond the finite ones, and the limits of node values are finite. -/
class LawfulInfinity (α : Type) [Scalar α] : Prop where
  not_lt_of_le {x y : α} : x ≤ y → ¬y < x
  le_trans {x y z : α} : x ≤ y → y ≤ z → x ≤ z
  isFinite_tenth {x : α} : Scalar.isFinite x = true → Scalar.isFinite (x * 0.1) = true
  isFinite_of_abs_le {x y : α} : Scalar.isFinite y = true → Scalar.abs x ≤ y → Scalar.isFinite x = true
  /-- What is not finite is in the middle of an interval around it, unless everything finite is within. -/
  middle {x lower upper : α} : Scalar.isFinite x = false → lower ≤ x → x ≤ upper →
    0.5 * (lower + upper) = x ∨ ∀ y, Scalar.isFinite y = true → lower < y ∧ y < upper
  not_larger_lt (x y : α) : ¬Scalar.larger x y < y
  larger_of_lt {x y : α} : x < y → Scalar.larger x y = y
  smaller_of_lt {x y : α} : y < x → Scalar.smaller x y = y
  domain_proper (kind : CurveKind) : Scalar.isFinite (kind.domain : α × α).1 = true ∧
    Scalar.isFinite (kind.domain : α × α).2 = true ∧ (kind.domain : α × α).1 < kind.domain.2

instance {α : Type} [ScalarField α] [ExactScalar α] : LawfulInfinity α where
  not_lt_of_le := not_lt_of_ge
  le_trans h h' := h.trans h'
  isFinite_tenth _ := ExactScalar.isFinite_eq _
  isFinite_of_abs_le _ _ := ExactScalar.isFinite_eq _
  middle h := by simp [ExactScalar.isFinite_eq] at h
  not_larger_lt x y := by
    rw [ExactScalar.larger_eq]
    exact not_lt.mpr (le_max_right x y)
  larger_of_lt h := by
    rw [ExactScalar.larger_eq]
    exact max_eq_right_of_lt h
  smaller_of_lt h := by
    rw [ExactScalar.smaller_eq]
    exact min_eq_right_of_lt h
  domain_proper kind := by
    refine ⟨ExactScalar.isFinite_eq _, ExactScalar.isFinite_eq _, ?_⟩
    cases kind <;> simp only [CurveKind.domain, ExactScalar.ofScientific_eq] <;> norm_num

namespace Binary64
open Float.Model Float.Model.UnpackedFloat

/-! ### Products that stay finite -/

theorem shiftRight_mantissa (em : ExtendedMantissa) (k : Nat) : (em >>> k).mantissa = em.mantissa / 2 ^ k := by
  induction k with
  | zero => exact (Nat.div_one _).symm
  | succ k ih =>
    change (em >>> k).mantissa / 2 = _
    rw [ih, Nat.div_div_eq_div_mul, Nat.pow_succ]

theorem roundedMantissa_le (em : ExtendedMantissa) : em.roundedMantissa ≤ em.mantissa + 1 := by
  obtain ⟨m, _ | _, _ | _⟩ := em <;>
    simp only [ExtendedMantissa.roundedMantissa, ExtendedMantissa.accuracy, Accuracy.roundToNearestEven] <;> omega

theorem log2_le {n k : Nat} (h : n < 2 ^ (k + 1)) : n.log2 ≤ k := by
  rcases Nat.eq_zero_or_pos n with rfl | hpos
  · exact Nat.zero_le k
  · exact Nat.le_of_lt_succ ((Nat.log2_lt hpos.ne').mpr h)

theorem targetExponent_eq (n : Int) : Format.binary64.targetExponent n = max (n - 53) (-1074) := rfl

/-- A mantissa that is shifted to its exponent has no more bits than there is place for. -/
theorem shifted_lt (m : Nat) (e : Int) :
    m / 2 ^ (Format.binary64.targetExponent (totalExponent m e) - e).toNat < 2 ^ 53 := by
  rw [targetExponent_eq, totalExponent, Nat.div_lt_iff_lt_mul (Nat.two_pow_pos _), ← Nat.pow_add]
  exact Nat.lt_of_lt_of_le Nat.lt_log2_self (Nat.pow_le_pow_right (by decide) (by omega))

/-- Rounding leads to the exponent that the size of the number asks for, or to the next one. -/
theorem exponent_roundWithAccuracy {s s' : Sign} {m n : Nat} {e f : Int} {h : 0 < n}
    (hround : roundWithAccuracy Format.binary64 s m e .exact = .finite s' n f h) :
    f ≤ max e (Format.binary64.targetExponent (totalExponent m e)) + 1 := by
  unfold roundWithAccuracy shiftToTargetExponent shiftToExponent at hround
  dsimp only at hround
  have hmantissa := shifted_lt m e
  have hleast : -1074 ≤ Format.binary64.targetExponent (totalExponent m e) := le_max_right _ _
  generalize Format.binary64.targetExponent (totalExponent m e) = target at *
  have hrounded : (ExtendedMantissa.ofMantissaAndAccuracy m .exact >>> (target - e).toNat).roundedMantissa ≤ 2 ^ 53 := by
    have hle := roundedMantissa_le (ExtendedMantissa.ofMantissaAndAccuracy m .exact >>> (target - e).toNat)
    rw [shiftRight_mantissa] at hle
    exact hle.trans hmantissa
  generalize (ExtendedMantissa.ofMantissaAndAccuracy m .exact >>> (target - e).toNat).roundedMantissa = r at *
  -- A carry makes one more bit, which the second shift drops.
  have hlog : r.log2 ≤ 53 := log2_le (hrounded.trans_lt (by decide))
  split at hround
  · cases hround
  · injection hround with _ _ hexponent
    rw [targetExponent_eq, totalExponent] at hexponent
    omega

/-- What has neither kind of the largest exponent is finite. -/
theorem isFinite_unpack_packComponents {s : Sign} {exponent : BitVec 11} {mantissa : BitVec 52} (h : exponent ≠ -1#_) :
    (UnpackedFloat.unpack Format.binary64 (packComponents Format.binary64 s exponent mantissa)).isFinite = true := by
  unfold UnpackedFloat.unpack
  simp only [unpackMantissa_packComponents, unpackExponent_packComponents]
  rw [if_neg h]
  split
  · split <;> rfl
  · rfl

theorem isFinite_unpack_pack {s : Sign} {m : Nat} {e : Int} {h : 0 < m} (he : e ≤ 971) :
    (Float.Model.pack (.finite s m e h)).unpack.isFinite = true := by
  have hbits : (Float.Model.pack (.finite s m e h)).unpack =
      UnpackedFloat.unpack Format.binary64 (UnpackedFloat.pack Format.binary64 (.finite s m e h)) := by
    change UnpackedFloat.unpack Format.binary64 (UInt64.ofBitVec _).toBitVec = _
    rw [UInt64.toBitVec_ofBitVec]
  rw [hbits]
  unfold UnpackedFloat.pack
  dsimp only [Format.exponentBias]
  split
  · rename_i hlarge
    norm_num at hlarge
    omega
  · rename_i hsmall
    split
    · refine isFinite_unpack_packComponents fun hmax => hsmall ?_
      have hfield := congrArg BitVec.toNat hmax
      simp only [BitVec.toNat_ofNat, BitVec.neg_one_eq_allOnes, BitVec.toNat_allOnes] at hfield
      omega
    · exact isFinite_unpack_packComponents (by decide)

theorem isFinite_tenth {x : Float} (h : x.isFinite = true) : (x * 0.1).isFinite = true := by
  have hunpack : (0.1 : Float).toModel.unpack = .finite .positive 7205759403792794 (-56) (by decide) := by rfl
  change (Float.Model.pack (UnpackedFloat.mul Format.binary64 x.toModel.unpack (0.1 : Float).toModel.unpack)).unpack.isFinite
    = true
  change x.toModel.unpack.isFinite = true at h
  rw [hunpack]
  cases hx : x.toModel.unpack with
  | notANumber =>
    rw [hx] at h
    cases h
  | infinity s =>
    rw [hx] at h
    cases h
  | zero s => cases s <;> rfl
  | finite s m e hm =>
    have hlt := (canonical_unpack hx).lt
    have hmagnitude := magnitude_lt hx
    simp only [magnitude] at hmagnitude
    have hlog : (m * 7205759403792794).log2 ≤ 105 := log2_le (by omega)
    unfold UnpackedFloat.mul
    dsimp only
    cases hround : roundWithAccuracy Format.binary64 (s * .positive) (m * 7205759403792794) (e + -56) .exact with
    | finite s' n f hn =>
      have hexponent := exponent_roundWithAccuracy hround
      rw [targetExponent_eq, totalExponent] at hexponent
      exact isFinite_unpack_pack (by omega)
    | zero s' => cases s' <;> rfl
    | _ =>
      unfold roundWithAccuracy at hround
      dsimp only at hround
      split at hround <;> cases hround

/-! ### Beyond the finite numbers -/

theorem lt_infinity {x : Float} (h : x.isFinite = true) : -(1.0 / 0.0) < x ∧ x < 1.0 / 0.0 := by
  have hpositive : (1.0 / 0.0 : Float).toModel.unpack = .infinity .positive := by rfl
  have hnegative : (-(1.0 / 0.0) : Float).toModel.unpack = .infinity .negative := by rfl
  change x.toModel.unpack.isFinite = true at h
  have hlt : (-(1.0 / 0.0) : Float).toModel.unpack.lt x.toModel.unpack = true ∧
      x.toModel.unpack.lt (1.0 / 0.0 : Float).toModel.unpack = true := by
    rw [hpositive, hnegative]
    generalize x.toModel.unpack = u at h ⊢
    rcases u with s | _ | s | ⟨_ | _, m, e, hm⟩
    · cases h
    · cases h
    all_goals exact ⟨rfl, rfl⟩
  exact ⟨decide_eq_true (p := (-(1.0 / 0.0) : Float).toModel < x.toModel) hlt.1,
    decide_eq_true (p := x.toModel < (1.0 / 0.0 : Float).toModel) hlt.2⟩

/-- No finite number is as large as an infinite one in absolute value. -/
theorem isFinite_of_abs_le {x y : Float} (hy : y.isFinite = true) (h : x.abs ≤ y) : x.isFinite = true := by
  by_contra hx
  have hnone : ¬(1.0 / 0.0 : Float) ≤ y := not_le_of_lt (lt_infinity hy).2
  rcases eq_of_not_isFinite (Bool.not_eq_true _ ▸ hx) with rfl | rfl | rfl
  · exact not_le_of_isNaN (by decide) h
  · exact hnone h
  · exact hnone h

theorem add_infinity_of_isFinite {x : Float} (h : x.isFinite = true) :
    x + 1.0 / 0.0 = 1.0 / 0.0 ∧ -(1.0 / 0.0) + x = -(1.0 / 0.0) := by
  have hpositive : (1.0 / 0.0 : Float).toModel.unpack = .infinity .positive := by rfl
  have hnegative : (-(1.0 / 0.0) : Float).toModel.unpack = .infinity .negative := by rfl
  change x.toModel.unpack.isFinite = true at h
  have hadd : UnpackedFloat.add Format.binary64 x.toModel.unpack (1.0 / 0.0 : Float).toModel.unpack = .infinity .positive ∧
      UnpackedFloat.add Format.binary64 (-(1.0 / 0.0) : Float).toModel.unpack x.toModel.unpack = .infinity .negative := by
    rw [hpositive, hnegative]
    cases hu : x.toModel.unpack with
    | notANumber =>
      rw [hu] at h
      cases h
    | infinity s =>
      rw [hu] at h
      cases h
    | _ => exact ⟨rfl, rfl⟩
  constructor
  · have hsum : x + 1.0 / 0.0 = .ofModel (Float.Model.pack (.infinity .positive)) :=
      congrArg (fun u => Float.ofModel (Float.Model.pack u)) hadd.1
    rw [hsum]
    decide
  · have hsum : -(1.0 / 0.0) + x = .ofModel (Float.Model.pack (.infinity .negative)) :=
      congrArg (fun u => Float.ofModel (Float.Model.pack u)) hadd.2
    rw [hsum]
    decide

/-- Nothing else is as large as positive infinity. -/
theorem eq_infinity_of_le {x : Float} (h : 1.0 / 0.0 ≤ x) : x = 1.0 / 0.0 := by
  cases hx : x.isFinite with
  | true => exact absurd h (not_le_of_lt (lt_infinity hx).2)
  | false =>
    rcases eq_of_not_isFinite hx with rfl | rfl | rfl
    · exact absurd h (by decide)
    · rfl
    · exact absurd h (by decide)

/-- Nothing else is as small as negative infinity. -/
theorem eq_neg_infinity_of_le {x : Float} (h : x ≤ -(1.0 / 0.0)) : x = -(1.0 / 0.0) := by
  cases hx : x.isFinite with
  | true => exact absurd h (not_le_of_lt (lt_infinity hx).1)
  | false =>
    rcases eq_of_not_isFinite hx with rfl | rfl | rfl
    · exact absurd h (by decide)
    · exact absurd h (by decide)
    · rfl

theorem middle {x lower upper : Float} (hx : x.isFinite = false) (hlower : lower ≤ x) (hupper : x ≤ upper) :
    0.5 * (lower + upper) = x ∨ ∀ y : Float, y.isFinite = true → lower < y ∧ y < upper := by
  have hhalf : (0.5 * (1.0 / 0.0) : Float) = 1.0 / 0.0 ∧ (0.5 * -(1.0 / 0.0) : Float) = -(1.0 / 0.0) := by decide
  rcases eq_of_not_isFinite hx with rfl | rfl | rfl
  · exact absurd hupper (not_le_of_isNaN (by decide))
  · obtain rfl := eq_infinity_of_le hupper
    cases hl : lower.isFinite with
    | true =>
      rw [(add_infinity_of_isFinite hl).1]
      exact .inl hhalf.1
    | false =>
      rcases eq_of_not_isFinite hl with rfl | rfl | rfl
      · exact absurd hlower (by decide)
      · exact .inl (by decide)
      · exact .inr fun y hy => lt_infinity hy
  · obtain rfl := eq_neg_infinity_of_le hlower
    cases hu : upper.isFinite with
    | true =>
      rw [(add_infinity_of_isFinite hu).2]
      exact .inl hhalf.2
    | false =>
      rcases eq_of_not_isFinite hu with rfl | rfl | rfl
      · exact absurd hupper (by decide)
      · exact .inr fun y hy => lt_infinity hy
      · exact .inl (by decide)

end Binary64

instance : LawfulInfinity Float where
  not_lt_of_le h hlt := Binary64.not_le_of_lt hlt h
  le_trans h h' := Binary64.le_trans h h'
  isFinite_tenth h := Binary64.isFinite_tenth h
  isFinite_of_abs_le hy h := Binary64.isFinite_of_abs_le hy h
  middle hx hlower hupper := Binary64.middle hx hlower hupper
  not_larger_lt x y h := by
    have hirrefl : ¬y < y := fun h => lt_irrefl _ (Binary64.rank_lt h)
    change (if x.isNaN then y else if x < y then y else x) < y at h
    split at h
    · exact hirrefl h
    · split at h
      · exact hirrefl h
      · rename_i hlt
        exact hlt h
  larger_of_lt {x y} h := by
    change (if x.isNaN then y else if x < y then y else x) = y
    rw [(Binary64.isNaN_of_lt h).1, if_neg Bool.false_ne_true, if_pos h]
  smaller_of_lt {x y} h := by
    change (if x.isNaN then y else if y < x then y else x) = y
    rw [(Binary64.isNaN_of_lt h).2, if_neg Bool.false_ne_true, if_pos h]
  domain_proper kind := by
    cases kind <;> decide

end TermStructure
