import TermStructure.Decimal.Scaled
import TermStructure.Proofs.Scalar.Comparisons

/-!
# Numerals are read as numbers

The quick reading of a numeral multiplies its digits by a power of ten, or divides them by one. The powers are
neither zero nor infinite, so however the result is rounded, it is a number.
-/

namespace TermStructure

namespace Binary64
open Float.Model Float.Model.UnpackedFloat

theorem isNaN_ofModel_pack {u : UnpackedFloat} (h : sign? u ≠ none) : (Float.ofModel (pack u)).isNaN = false := by
  obtain ⟨s, hs⟩ := Option.ne_none_iff_exists'.mp h
  have hsign : sign? (Float.ofModel (pack u)).toModel.unpack = some s := sign?_unpack_pack hs
  rw [isNaN_eq_false_iff, hsign]
  exact nofun

theorem sign?_roundWithAccuracy (s : Sign) (m : Nat) (e : Int) (accuracy : Accuracy) :
    sign? (roundWithAccuracy Format.binary64 s m e accuracy) ≠ none := by
  unfold roundWithAccuracy
  dsimp only
  split <;> exact nofun

section
variable {u : UnpackedFloat} (hu : sign? u ≠ none) {s : Sign} {m : Nat} {e : Int} (hm : 0 < m)
include hu

theorem sign?_mul_finite : sign? (UnpackedFloat.mul Format.binary64 u (.finite s m e hm)) ≠ none := by
  cases u with
  | notANumber => exact absurd rfl hu
  | finite => exact sign?_roundWithAccuracy _ _ _ _
  | _ => exact nofun

theorem sign?_div_finite : sign? (UnpackedFloat.div Format.binary64 u (.finite s m e hm)) ≠ none := by
  cases u with
  | notANumber => exact absurd rfl hu
  | finite => exact sign?_roundWithAccuracy _ _ _ _
  | _ => exact nofun

theorem sign?_neg : sign? (UnpackedFloat.neg u) ≠ none := by
  cases u with
  | notANumber => exact absurd rfl hu
  | _ => exact nofun

end

/-- Neither zero nor infinite. -/
def isRegular (x : Float) : Bool :=
  match x.toModel.unpack with
  | .finite .. => true
  | _ => false

theorem exists_of_isRegular {x : Float} (h : isRegular x = true) : ∃ s m e hm, x.toModel.unpack = .finite s m e hm := by
  unfold isRegular at h
  split at h
  · exact ⟨_, _, _, _, ‹_›⟩
  · cases h

section
variable {x y : Float} (hx : x.isNaN = false)
include hx

theorem isNaN_mul (hy : isRegular y = true) : (x * y).isNaN = false := by
  obtain ⟨s, m, e, hm, hv⟩ := exists_of_isRegular hy
  have hsign := sign?_mul_finite (isNaN_eq_false_iff.mp hx) (s := s) (e := e) hm
  rw [← hv] at hsign
  exact isNaN_ofModel_pack hsign

theorem isNaN_div (hy : isRegular y = true) : (x / y).isNaN = false := by
  obtain ⟨s, m, e, hm, hv⟩ := exists_of_isRegular hy
  have hsign := sign?_div_finite (isNaN_eq_false_iff.mp hx) (s := s) (e := e) hm
  rw [← hv] at hsign
  exact isNaN_ofModel_pack hsign

theorem isNaN_neg : (-x).isNaN = false := isNaN_ofModel_pack (sign?_neg (isNaN_eq_false_iff.mp hx))

end

/-! ### Decimals -/

theorem sign?_ofScientific (m : Nat) (e : Int) : sign? (UnpackedFloat.ofScientific Format.binary64 m e) ≠ none := by
  unfold UnpackedFloat.ofScientific
  split
  · exact nofun
  · split
    · exact nofun
    · split
      · exact nofun
      · split <;> exact sign?_roundWithAccuracy _ _ _ _

theorem isRegular_exactPower :
    ∀ n (h : n < Float.exactlyRepresentablePowersOfTen.size), isRegular Float.exactlyRepresentablePowersOfTen[n] = true := by
  decide +kernel

theorem isNaN_ofScientific (m : Nat) (s : Bool) (e : Nat) : (Float.ofScientific m s e).isNaN = false := by
  unfold Float.ofScientific
  split
  · have hword : m.toUInt64.toFloat.isNaN = false := isNaN_ofModel_pack (sign?_normalize _ _ _)
    dsimp only
    split
    · exact isNaN_div hword (isRegular_exactPower e _)
    · exact isNaN_mul hword (isRegular_exactPower e _)
  · exact isNaN_ofModel_pack (sign?_ofScientific _ _)

end Binary64

namespace Decimal
open Binary64

/-- The powers of ten that words are scaled by. -/
theorem ScaledWord.isRegular_power : ∀ n < 309, isRegular (power n) = true := by
  decide +kernel

theorem ScaledWord.isNaN_toFloat? {s : ScaledWord} {x : Float} (h : s.toFloat? = some x) : x.isNaN = false := by
  have hword : (Float.ofNat s.word).isNaN = false := isNaN_ofScientific _ _ _
  unfold toFloat? at h
  dsimp only at h
  split at h
  · cases h
    decide
  · split at h
    · cases h
    · split at h
      · split at h
        · cases h
        · cases h
          exact isNaN_mul hword (isRegular_power _ (by omega))
      · split at h
        · cases h
          exact isNaN_div hword (isRegular_power _ (by omega))
        · split at h
          · cases h
            exact isNaN_div (isNaN_div hword (isRegular_power _ (by omega))) (isRegular_power _ (by omega))
          · cases h
            decide

/-- What a numeral is read as is a number. -/
theorem Numeral.isNaN_quickFloat? {n : Numeral} {x : Float} (h : n.quickFloat? = some x) : x.isNaN = false := by
  obtain ⟨y, hy, rfl⟩ := Option.map_eq_some_iff.mp h
  have hnumber := ScaledWord.isNaN_toFloat? hy
  split
  · exact isNaN_neg hnumber
  · exact hnumber

end Decimal

end TermStructure
