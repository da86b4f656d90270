import Mathlib
import TermStructure.Proofs.Scalar.Exact

/-!
# Differences

What the check of the pillars relies on: that the difference of finite numbers tells their order, as far as
the spacing of the pillars goes, and can always be compared with that spacing. In binary floating point this
is read off the unpacked numbers. Rounding keeps the sign of a difference, and among numbers whose mantissas
have no bit to spare the order of the exponents is that of the numbers.
-/

namespace TermStructure

/-- The difference of finite numbers tells their order, as far as the spacing of pillars goes. -/
class LawfulDifference (α : Type) [Scalar α] : Prop where
  zero_beq : ((0 : α) == 0) = true
  isFinite_zero : Scalar.isFinite (0 : α) = true
  sub_le_of_le {x y : α} : Scalar.isFinite x = true → Scalar.isFinite y = true → y ≤ x → y - x ≤ 1e-10
  lt_sub_of_not_le {x y : α} : Scalar.isFinite x = true → Scalar.isFinite y = true → ¬y - x ≤ 1e-10 → 1e-10 < y - x
  yearFraction_zero (basis : Nat) : (Scalar.yearFraction 0 basis : α) = 0

instance {α : Type} [ScalarField α] [ExactScalar α] : LawfulDifference α where
  zero_beq := (ExactScalar.beq_iff _ _).mpr rfl
  isFinite_zero := ExactScalar.isFinite_eq _
  sub_le_of_le _ _ h := by
    have hpos : (0 : α) ≤ 1e-10 := LawfulOrder.decimal_nonneg
    exact (sub_nonpos.mpr h).trans hpos
  lt_sub_of_not_le _ _ h := not_le.mp h
  yearFraction_zero basis := by rw [ExactScalar.yearFraction_eq, Int.cast_zero, zero_div]

namespace Binary64
open Float.Model Float.Model.UnpackedFloat

/-! ### Signs -/

/-- The sign of what is a number. -/
def sign? : UnpackedFloat → Option Sign
  | .notANumber => none
  | .infinity s | .zero s | .finite s .. => some s

theorem ofBitVec_toBitVec (s : Sign) : Sign.ofBitVec s.toBitVec = s := by
  cases s <;> rfl

theorem unpackSign_packComponents {format : Format} {s : Sign} {exponent : BitVec format.exponentBits}
    {mantissa : BitVec format.mantissaBitsWithoutImplicit} :
    unpackSign (packComponents format s exponent mantissa) = s.toBitVec := by
  ext i hi
  have hi : i = 0 := by omega
  subst hi
  simp [unpackSign, packComponents, BitVec.getLsbD_eq_getElem, BitVec.getElem_append, Nat.add_comm]

theorem sign?_unpack_packComponents {s : Sign} {exponent : BitVec 11} {mantissa : BitVec 52}
    (h : exponent = -1#_ → mantissa = 0#_) :
    sign? (UnpackedFloat.unpack Format.binary64 (packComponents Format.binary64 s exponent mantissa)) = some s := by
  unfold UnpackedFloat.unpack
  simp only [unpackMantissa_packComponents, unpackExponent_packComponents, unpackSign_packComponents, ofBitVec_toBitVec]
  split
  · rename_i he
    rw [if_pos (h he)]
    rfl
  · split
    · split <;> rfl
    · rfl

/-- A number keeps its sign when it is packed, even if it is too large or too small for its format. -/
theorem sign?_unpack_pack {u : UnpackedFloat} {s : Sign} (h : sign? u = some s) :
    sign? (Float.Model.pack u).unpack = some s := by
  have hbits : (Float.Model.pack u).unpack = UnpackedFloat.unpack Format.binary64 (UnpackedFloat.pack Format.binary64 u) := by
    change UnpackedFloat.unpack Format.binary64 (UInt64.ofBitVec (UnpackedFloat.pack Format.binary64 u)).toBitVec = _
    rw [UInt64.toBitVec_ofBitVec]
  rw [hbits]
  cases u with
  | notANumber => cases h
  | infinity s' =>
    cases h
    exact sign?_unpack_packComponents fun _ => rfl
  | zero s' =>
    cases h
    exact sign?_unpack_packComponents nofun
  | finite s' m e hm =>
    cases h
    unfold UnpackedFloat.pack
    dsimp only
    split
    · exact sign?_unpack_packComponents fun _ => rfl
    · rename_i hsmall
      split
      · refine sign?_unpack_packComponents fun he => ?_
        have hfield := congrArg BitVec.toNat he
        simp only [BitVec.toNat_ofNat, BitVec.neg_one_eq_allOnes, BitVec.toNat_allOnes] at hfield hsmall
        omega
      · exact sign?_unpack_packComponents fun he => absurd he (by decide)

theorem sign?_round (s : Sign) (m : Nat) (e : Int) : sign? (UnpackedFloat.round Format.binary64 s m e) = some s := by
  unfold UnpackedFloat.round roundWithAccuracy
  dsimp only
  split <;> rfl

theorem sign?_normalize (m e : Int) (s : Sign) : sign? (UnpackedFloat.normalize Format.binary64 m e s) ≠ none := by
  unfold UnpackedFloat.normalize
  split
  · rw [sign?_round]
    exact nofun
  · exact nofun
  · rw [sign?_round]
    exact nofun

/-- The difference of finite numbers is a number. -/
theorem sign?_sub {u v : UnpackedFloat} (hu : u.isFinite = true) (hv : v.isFinite = true) :
    sign? (UnpackedFloat.sub Format.binary64 u v) ≠ none := by
  cases u with
  | notANumber => cases hu
  | infinity s => cases hu
  | zero s =>
    cases v with
    | notANumber => cases hv
    | infinity s' => cases hv
    | zero s' => cases s <;> cases s' <;> exact nofun
    | finite s' n f hn => exact nofun
  | finite s m e hm =>
    cases v with
    | notANumber => cases hv
    | infinity s' => cases hv
    | zero s' => exact nofun
    | finite s' n f hn => exact sign?_normalize _ _ _

/-! ### The order of canonical numbers -/

/-- The mantissa has no bit to spare, unless the exponent is the least there is. -/
structure Canonical (mantissa : Nat) (exponent : Int) : Prop where
  lt : mantissa < 2 ^ 53
  least : -1074 ≤ exponent
  full : exponent = -1074 ∨ 2 ^ 52 ≤ mantissa

theorem canonical_unpack {x : Float.Model} {s : Sign} {m : Nat} {e : Int} {h : 0 < m}
    (hx : x.unpack = .finite s m e h) : Canonical m e := by
  have hlt := (@unpackMantissa Format.binary64 x.toBits.toBitVec).isLt
  unfold Float.Model.unpack UnpackedFloat.unpack at hx
  dsimp only at hx
  split at hx
  · split at hx <;> cases hx
  · split at hx
    · split at hx
      · cases hx
      · rename_i hzero hmantissa
        injection hx with _ hm he
        have hexponent := congrArg BitVec.toNat hzero
        simp only [Format.exponentBias, Nat.add_one_sub_one, Nat.reducePow, Nat.cast_ofNat, Int.reduceAdd,
          BitVec.toNat_ofNat, Nat.zero_mod] at he hexponent hlt
        exact ⟨by omega, by omega, by omega⟩
    · rename_i hmax hzero
      injection hx with _ hm he
      have hexponent : (@unpackExponent Format.binary64 x.toBits.toBitVec).toNat ≠ 0 := fun h =>
        hzero (BitVec.eq_of_toNat_eq h)
      rw [BitVec.toNat_append, ← Nat.shiftLeft_add_eq_or_of_lt hlt] at hm
      simp only [Format.exponentBias, Nat.add_one_sub_one, Nat.reducePow, Nat.cast_ofNat, Int.reduceAdd,
        BitVec.toNat_ofNat, pow_one, Nat.mod_succ, Nat.reduceShiftLeft] at he hm hlt
      exact ⟨by omega, by omega, by omega⟩

/-- The mantissa when the exponent is lowered to `target`. -/
def scaled (mantissa : Nat) (exponent target : Int) : Nat := mantissa <<< (exponent - target).toNat

theorem scaled_le {m n : Nat} {e f : Int} (hm : Canonical m e) (hn : Canonical n f)
    (h : ((compare e f).then (compare m n)).isLE = true) : scaled m e (min e f) ≤ scaled n f (min e f) := by
  unfold scaled
  rcases Int.lt_trichotomy e f with hlt | rfl | hgt
  · -- The other exponent is above the least, so its mantissa is full.
    have hfull : 2 ^ 52 ≤ n := hn.full.resolve_left fun h => by
      have := hm.least
      omega
    have hstep : 2 ^ 1 ≤ 2 ^ (f - e).toNat := Nat.pow_le_pow_right (by decide) (by omega)
    have hmul : 2 ^ 52 * 2 ^ 1 ≤ n * 2 ^ (f - e).toNat := Nat.mul_le_mul hfull hstep
    have hmantissa := hm.lt
    rw [min_eq_left hlt.le, Int.sub_self, Nat.shiftLeft_eq, Nat.shiftLeft_eq, Int.toNat_zero, pow_zero, mul_one]
    omega
  · rw [Int.compare_eq_eq.mpr rfl] at h
    rw [min_self, Int.sub_self]
    exact Nat.isLE_compare.mp h
  · rw [Int.compare_eq_gt.mpr hgt] at h
    cases h

theorem compare_then_swap (m n : Nat) (e f : Int) :
    ((compare e f).then (compare m n)).swap = (compare f e).then (compare n m) := by
  rw [Ordering.swap_then, Int.compare_swap, Nat.compare_swap]

/-- Zero, or of negative sign. -/
def Nonpositive (u : UnpackedFloat) : Prop := sign? u = some .negative ∨ u = .zero .positive

theorem nonpositive_normalize {m : Int} (hm : m ≤ 0) (e : Int) :
    Nonpositive (UnpackedFloat.normalize Format.binary64 m e .positive) := by
  unfold UnpackedFloat.normalize
  rcases Int.lt_or_eq_of_le hm with hlt | rfl
  · rw [Int.compare_eq_lt.mpr hlt]
    exact .inl (sign?_round _ _ _)
  · exact .inr rfl

/-- A number less one that is not smaller. -/
theorem nonpositive_sub {x y : Float.Model} (hx : x.unpack.isFinite = true) (hy : y.unpack.isFinite = true)
    (h : y.unpack.le x.unpack = true) : Nonpositive (UnpackedFloat.sub Format.binary64 y.unpack x.unpack) := by
  cases hu : y.unpack with
  | notANumber => rw [hu] at hy; cases hy
  | infinity s => rw [hu] at hy; cases hy
  | zero s =>
    cases hv : x.unpack with
    | notANumber => rw [hv] at hx; cases hx
    | infinity s' => rw [hv] at hx; cases hx
    | zero s' => cases s <;> cases s' <;> first | exact .inr rfl | exact .inl rfl
    | finite s' n f hn =>
      rw [hu, hv] at h
      cases s' with
      | negative => cases h
      | positive => exact .inl rfl
  | finite s m e hm =>
    cases hv : x.unpack with
    | notANumber => rw [hv] at hx; cases hx
    | infinity s' => rw [hv] at hx; cases hx
    | zero s' =>
      rw [hu, hv] at h
      cases s with
      | negative => exact .inl rfl
      | positive => cases h
    | finite s' n f hn =>
      rw [hu, hv] at h
      have hm := canonical_unpack hu
      have hn := canonical_unpack hv
      refine nonpositive_normalize ?_ _
      change s.apply (scaled m e (min e f)) - s'.apply (scaled n f (min e f)) ≤ 0
      cases s with
      | negative =>
        cases s' with
        | negative =>
          have hle : ((compare e f).then (compare m n)).swap.isLE = true := h
          rw [compare_then_swap] at hle
          have hscaled := scaled_le hn hm hle
          rw [min_comm] at hscaled
          change -(scaled m e (min e f) : Int) - -(scaled n f (min e f) : Int) ≤ 0
          omega
        | positive =>
          change -(scaled m e (min e f) : Int) - (scaled n f (min e f) : Int) ≤ 0
          omega
      | positive =>
        cases s' with
        | negative => cases h
        | positive =>
          have hscaled := scaled_le hm hn h
          change (scaled m e (min e f) : Int) - (scaled n f (min e f) : Int) ≤ 0
          omega

/-! ### Comparisons -/

theorem compare_swap (u v : UnpackedFloat) : v.compare u = (u.compare v).map Ordering.swap := by
  rcases u with (_ | _) | _ | _ | ⟨_ | _, m, e, hm⟩ <;> rcases v with (_ | _) | _ | _ | ⟨_ | _, n, f, hn⟩ <;>
    first
    | rfl
    | exact congrArg some (compare_then_swap m n e f).symm
    | exact congrArg (some ·.swap) (compare_then_swap m n e f).symm

theorem compare_ne_none {u v : UnpackedFloat} (hu : sign? u ≠ none) (hv : sign? v ≠ none) : u.compare v ≠ none := by
  rcases u with (_ | _) | _ | _ | ⟨_ | _, m, e, hm⟩ <;> rcases v with (_ | _) | _ | _ | ⟨_ | _, n, f, hn⟩ <;>
    first
    | exact absurd rfl hu
    | exact absurd rfl hv
    | exact nofun

/-- Numbers can be compared. -/
theorem lt_of_not_le {x y : Float} (hx : sign? x.toModel.unpack ≠ none) (hy : sign? y.toModel.unpack ≠ none)
    (h : ¬x ≤ y) : y < x := by
  have hle : x.toModel.unpack.le y.toModel.unpack ≠ true := fun hle => h (decide_eq_true (p := x.toModel ≤ y.toModel) hle)
  have hlt : y.toModel.unpack.lt x.toModel.unpack = true := by
    unfold UnpackedFloat.le at hle
    unfold UnpackedFloat.lt
    rw [compare_swap]
    cases hc : x.toModel.unpack.compare y.toModel.unpack with
    | none => exact absurd hc (compare_ne_none hx hy)
    | some o =>
      rw [hc] at hle
      cases o with
      | gt => rfl
      | _ => exact absurd rfl hle
  exact decide_eq_true (p := y.toModel < x.toModel) hlt

/-- What is not above zero is not above a positive number. -/
theorem le_of_nonpositive {u : UnpackedFloat} {y : Float} (hu : Nonpositive u)
    (hy : y.toModel.unpack.compare (.zero .positive) = some .gt) : Float.ofModel (Float.Model.pack u) ≤ y := by
  have hle : (Float.Model.pack u).unpack.le y.toModel.unpack = true := by
    generalize y.toModel.unpack = v at hy
    rcases hu with hu | rfl
    · have hsign := sign?_unpack_pack hu
      generalize (Float.Model.pack u).unpack = w at hsign
      rcases w with s | _ | s | ⟨s, n, f, hn⟩ <;> cases hsign <;>
        rcases v with (_ | _) | _ | _ | ⟨_ | _, m, e, hm⟩ <;> first | rfl | cases hy
    · have hzero : (Float.Model.pack (.zero .positive)).unpack = .zero .positive := rfl
      rw [hzero]
      rcases v with (_ | _) | _ | _ | ⟨_ | _, m, e, hm⟩ <;> first | rfl | cases hy
  exact decide_eq_true (p := Float.Model.pack u ≤ y.toModel) hle

end Binary64

instance : LawfulDifference Float where
  zero_beq := by
    change ((0.0 : Float) == 0.0) = true
    decide
  isFinite_zero := by
    change (0.0 : Float).isFinite = true
    decide
  sub_le_of_le hx hy h := by
    have hle := of_decide_eq_true (p := _ ≤ _) h
    exact Binary64.le_of_nonpositive (Binary64.nonpositive_sub hx hy hle) (by decide)
  lt_sub_of_not_le hx hy h := by
    refine Binary64.lt_of_not_le (fun hnone => ?_) (by decide) h
    obtain ⟨s, hs⟩ := Option.ne_none_iff_exists'.mp (Binary64.sign?_sub hy hx)
    cases hnone.symm.trans (Binary64.sign?_unpack_pack hs)
  yearFraction_zero basis := by
    have hquotient : Decimal.Quotient.divide 0 basis = ⟨false, 0, 0⟩ := by
      unfold Decimal.Quotient.divide
      rw [Int.natAbs_zero, Nat.zero_div, Nat.zero_mod]
      rfl
    change (Decimal.Quotient.divide 0 basis).toFloat = 0.0
    rw [hquotient]
    rfl

end TermStructure
