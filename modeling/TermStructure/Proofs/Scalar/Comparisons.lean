import TermStructure.Proofs.Scalar.Differences

/-!
# Comparisons

How the three ways of comparing scalars go together: that what is finite is a number, that finite numbers can be
compared, and that the total order is the order of the numbers as far as that goes. In binary floating
point the total order is that of the bits, and the bits of a number are its sign, its exponent and its mantissa, so
that a number of larger exponent, or of the same exponent and larger mantissa, has more of them.
-/

namespace TermStructure

/-- Finite numbers can be compared, and the total order does not go against their comparison. -/
class LawfulComparison (α : Type) [Scalar α] : Prop where
  isNaN_of_isFinite {x : α} : Scalar.isFinite x = true → Scalar.isNaN x = false
  le_of_not_lt {x y : α} : Scalar.isFinite x = true → Scalar.isFinite y = true → ¬x < y → y ≤ x
  not_lt_of_totalLe {x y : α} : Scalar.totalLe x y = true → ¬y < x

theorem LawfulComparison.le_refl {α : Type} [Scalar α] [LawfulOrder α] [LawfulComparison α] {x : α}
    (hx : Scalar.isFinite x = true) : x ≤ x :=
  le_of_not_lt hx hx (not_lt_of_totalLe (LawfulOrder.totalLe_self x))

instance {α : Type} [ScalarField α] [ExactScalar α] : LawfulComparison α where
  isNaN_of_isFinite _ := ExactScalar.isNaN_eq _
  le_of_not_lt _ _ h := not_lt.mp h
  not_lt_of_totalLe h := by
    rw [ExactScalar.totalLe_eq] at h
    exact not_lt.mpr (of_decide_eq_true h)

/-- The smaller of two numbers is one of them, and the other is not less. -/
class LawfulSmaller (α : Type) [Scalar α] : Prop where
  smaller_spec (x y : α) : Scalar.smaller x y = x ∧ ¬y < x ∨ Scalar.smaller x y = y ∧ ¬x < y

theorem LawfulSmaller.lt_irrefl {α : Type} [Scalar α] [LawfulSmaller α] (x : α) : ¬x < x := by
  rcases smaller_spec x x with ⟨-, h⟩ | ⟨-, h⟩ <;> exact h

instance {α : Type} [ScalarField α] [ExactArithmetic α] : LawfulSmaller α where
  smaller_spec x y := by
    rw [ExactArithmetic.smaller_eq]
    rcases le_total x y with h | h
    · exact .inl ⟨min_eq_left h, not_lt.mpr h⟩
    · exact .inr ⟨min_eq_right h, not_lt.mpr h⟩

/-- A product is negative only if its factors have signs. -/
class LawfulSign (α : Type) [Scalar α] : Prop where
  signed_of_mul_neg {x y : α} : x * y < 0 → y > 0 ∨ y < 0

instance {α : Type} [ScalarField α] : LawfulSign α where
  signed_of_mul_neg {x y} h := by
    rcases lt_trichotomy 0 y with hy | rfl | hy
    · exact .inl hy
    · rw [mul_zero] at h
      exact absurd h (lt_irrefl 0)
    · exact .inr hy

namespace Binary64
open Float.Model Float.Model.UnpackedFloat

/-- A number's bits are those of its sign, its exponent and its mantissa. -/
theorem toNat_fields (b : BitVec 64) :
    b.toNat = (@unpackSign Format.binary64 b).toNat * 2 ^ 63
      + ((@unpackExponent Format.binary64 b).toNat * 2 ^ 52 + (@unpackMantissa Format.binary64 b).toNat) := by
  have hlt := b.isLt
  unfold unpackSign unpackExponent unpackMantissa
  simp only [BitVec.toNat_cast, BitVec.extractLsb_toNat, Nat.shiftRight_eq_div_pow]
  omega

/-- The place of a number among those of its sign. -/
def magnitude : UnpackedFloat → Int
  | .notANumber | .zero _ => 0
  | .infinity _ => 2047 * 2 ^ 52
  | .finite _ m e _ => (e + 1074) * 2 ^ 52 + m

/-- Sign and magnitude of a number are those of its bits. -/
theorem unpack_fields {b : BitVec 64} {s : Sign} (h : sign? (UnpackedFloat.unpack Format.binary64 b) = some s) :
    s = Sign.ofBitVec (@unpackSign Format.binary64 b) ∧
      magnitude (UnpackedFloat.unpack Format.binary64 b)
        = (@unpackExponent Format.binary64 b).toNat * 2 ^ 52 + (@unpackMantissa Format.binary64 b).toNat := by
  have hmantissa := (@unpackMantissa Format.binary64 b).isLt
  unfold UnpackedFloat.unpack at h ⊢
  dsimp only at h ⊢
  split at h
  · rename_i he
    split at h
    · rename_i hm
      rw [if_pos he, if_pos hm, he, hm]
      exact ⟨(Option.some.inj h).symm, rfl⟩
    · cases h
  · rename_i he
    rw [if_neg he]
    split at h
    · rename_i hzero
      rw [if_pos hzero]
      split at h
      · rename_i hm
        rw [dif_pos hm, hzero, hm]
        exact ⟨(Option.some.inj h).symm, rfl⟩
      · rename_i hm
        rw [dif_neg hm]
        -- A subnormal number has the exponent of the least normal ones, and zero in its place.
        refine ⟨(Option.some.inj h).symm, ?_⟩
        have hexponent := congrArg BitVec.toNat hzero
        simp only [magnitude, Format.exponentBias, Nat.add_one_sub_one, Nat.reducePow, Nat.cast_ofNat, Int.reduceAdd,
          BitVec.toNat_ofNat, Nat.zero_mod] at hexponent ⊢
        omega
    · rename_i hzero
      rw [if_neg hzero]
      refine ⟨(Option.some.inj h).symm, ?_⟩
      have hexponent : (@unpackExponent Format.binary64 b).toNat ≠ 0 := fun h => hzero (BitVec.eq_of_toNat_eq h)
      rw [magnitude, BitVec.toNat_append, ← Nat.shiftLeft_add_eq_or_of_lt hmantissa]
      simp only [Format.exponentBias, Nat.add_one_sub_one, Nat.reducePow, Nat.cast_ofNat, Int.reduceAdd,
        BitVec.toNat_ofNat, pow_one, Nat.mod_succ, Nat.reduceShiftLeft]
      omega

/-- A place among all numbers: those of negative sign come first, the greatest of them in front. -/
def placed (place : Int) : Sign → Int
  | .positive => place
  | .negative => -place - 1

/-- Where a number is in the total order. -/
theorem rank_eq {x : Float} {s : Sign} (hs : sign? x.toModel.unpack = some s) :
    rank x = placed (magnitude x.toModel.unpack) s := by
  have hbits : x.toBits.toNat = _ := toNat_fields x.toModel.toBits.toBitVec
  have hexponent : _ < 2 ^ 11 := (@unpackExponent Format.binary64 x.toModel.toBits.toBitVec).isLt
  have hmantissa : _ < 2 ^ 52 := (@unpackMantissa Format.binary64 x.toModel.toBits.toBitVec).isLt
  obtain ⟨rfl, hmagnitude⟩ := unpack_fields hs
  have hvalue : magnitude x.toModel.unpack = _ := hmagnitude
  rw [hvalue]
  unfold rank isNegative
  rw [hbits]
  generalize (@unpackExponent Format.binary64 x.toModel.toBits.toBitVec).toNat = exponent at *
  generalize (@unpackMantissa Format.binary64 x.toModel.toBits.toBitVec).toNat = mantissa at *
  rcases BitVec.eq_zero_or_eq_one (@unpackSign Format.binary64 x.toModel.toBits.toBitVec) with h | h
  · have hsign : Sign.ofBitVec (@unpackSign Format.binary64 x.toModel.toBits.toBitVec) = .positive := by
      rw [h]
      rfl
    have hdigit : (@unpackSign Format.binary64 x.toModel.toBits.toBitVec).toNat = 0 := by
      rw [h]
      rfl
    rw [hsign, hdigit, if_neg (by simp only [beq_iff_eq]; omega), placed]
    omega
  · have hsign : Sign.ofBitVec (@unpackSign Format.binary64 x.toModel.toBits.toBitVec) = .negative := by
      rw [h]
      rfl
    have hdigit : (@unpackSign Format.binary64 x.toModel.toBits.toBitVec).toNat = 1 := by
      rw [h]
      rfl
    rw [hsign, hdigit, if_pos (by simp only [beq_iff_eq]; omega), placed]
    omega

theorem magnitude_pos {m : Nat} {e : Int} (hm : Canonical m e) (s : Sign) (h : 0 < m) :
    0 < magnitude (.finite s m e h) := by
  have hleast := hm.least
  simp only [magnitude]
  omega

theorem magnitude_lt {x : Float.Model} {s : Sign} {m : Nat} {e : Int} {h : 0 < m} (hx : x.unpack = .finite s m e h) :
    magnitude (.finite s m e h) < magnitude (.infinity s) := by
  have hsign : sign? x.unpack = some s := by
    rw [hx]
    rfl
  obtain ⟨-, hmagnitude⟩ := unpack_fields (b := x.toBits.toBitVec) hsign
  have hexponent : (@unpackExponent Format.binary64 x.toBits.toBitVec).toNat ≠ 2047 := by
    intro hmax
    have hall : @unpackExponent Format.binary64 x.toBits.toBitVec = -1#_ := BitVec.eq_of_toNat_eq hmax
    unfold Float.Model.unpack UnpackedFloat.unpack at hx
    dsimp only at hx
    rw [if_pos hall] at hx
    split at hx <;> cases hx
  have hbound : _ < 2 ^ 11 := (@unpackExponent Format.binary64 x.toBits.toBitVec).isLt
  have hmantissa : _ < 2 ^ 52 := (@unpackMantissa Format.binary64 x.toBits.toBitVec).isLt
  have hvalue : magnitude x.unpack = _ := hmagnitude
  rw [← hx, hvalue, magnitude]
  generalize (@unpackExponent Format.binary64 x.toBits.toBitVec).toNat = exponent at *
  generalize (@unpackMantissa Format.binary64 x.toBits.toBitVec).toNat = mantissa at *
  omega

/-- Exponent and mantissa in this order are what the place is made of. -/
theorem magnitude_lt_of_compare {m n : Nat} {e f : Int} (hm : Canonical m e) (hn : Canonical n f) (s s' : Sign)
    (h : 0 < m) (h' : 0 < n) (hlt : (compare e f).then (compare m n) = .lt) :
    magnitude (.finite s m e h) < magnitude (.finite s' n f h') := by
  have hsmall := hm.lt
  have hfull := hn.full
  have hleast := hm.least
  simp only [magnitude]
  rcases Int.lt_trichotomy e f with hexponent | rfl | hexponent
  · omega
  · rw [Int.compare_eq_eq.mpr rfl] at hlt
    have hmantissa := Nat.compare_eq_lt.mp hlt
    omega
  · rw [Int.compare_eq_gt.mpr hexponent] at hlt
    cases hlt

/-- What is neither zero nor infinite has its place between those that are. -/
def Between (u : UnpackedFloat) : Prop :=
  match u with
  | .finite s m e h => 0 < magnitude (.finite s m e h) ∧ magnitude (.finite s m e h) < 2047 * 2 ^ 52
  | _ => True

theorem between (x : Float.Model) : Between x.unpack := by
  cases hx : x.unpack with
  | finite s m e h => exact ⟨magnitude_pos (canonical_unpack hx) s h, magnitude_lt hx⟩
  | _ => trivial

/-- A place on a line, on which both zeros have one place. -/
def lined (place : Int) : Sign → Int
  | .positive => place
  | .negative => -place

/-- Finite numbers of one sign compare as their places do. -/
theorem compare_magnitude {m n : Nat} {e f : Int} (hm : Canonical m e) (hn : Canonical n f) (s s' : Sign)
    (h : 0 < m) (h' : 0 < n) :
    (compare e f).then (compare m n) = compare (magnitude (.finite s m e h)) (magnitude (.finite s' n f h')) := by
  cases hc : (compare e f).then (compare m n) with
  | lt => exact (Int.compare_eq_lt.mpr (magnitude_lt_of_compare hm hn s s' h h' hc)).symm
  | eq =>
    obtain ⟨hexponent, hmantissa⟩ := Ordering.then_eq_eq.mp hc
    obtain rfl := Int.compare_eq_eq.mp hexponent
    obtain rfl := Nat.compare_eq_eq.mp hmantissa
    exact (Int.compare_eq_eq.mpr rfl).symm
  | gt =>
    have hswap : (compare f e).then (compare n m) = .lt := by rw [← compare_then_swap, hc]; rfl
    exact (Int.compare_eq_gt.mpr (magnitude_lt_of_compare hn hm s' s h' h hswap)).symm

theorem compare_neg_neg (a b : Int) : compare (-a) (-b) = compare b a := by
  rcases Int.lt_trichotomy a b with h | rfl | h
  · rw [Int.compare_eq_gt.mpr h, Int.compare_eq_gt.mpr (Int.neg_lt_neg h)]
  · rw [Int.compare_eq_eq.mpr rfl, Int.compare_eq_eq.mpr rfl]
  · rw [Int.compare_eq_lt.mpr h, Int.compare_eq_lt.mpr (Int.neg_lt_neg h)]

/-- Numbers compare as their places on the line do. -/
theorem compare_lined {x y : Float.Model} {s s' : Sign} (hs : sign? x.unpack = some s)
    (hs' : sign? y.unpack = some s') :
    x.unpack.compare y.unpack = some (compare (lined (magnitude x.unpack) s) (lined (magnitude y.unpack) s')) := by
  have hx := between x
  have hy := between y
  have hboth : ∀ s m e hm s' n f hn, x.unpack = .finite s m e hm → y.unpack = .finite s' n f hn →
      (compare e f).then (compare m n) = compare (magnitude x.unpack) (magnitude y.unpack) := by
    intro s m e hm s' n f hn hu hv
    rw [hu, hv]
    exact compare_magnitude (canonical_unpack hu) (canonical_unpack hv) s s' hm hn
  generalize x.unpack = u at *
  generalize y.unpack = v at *
  -- Exponents and mantissas decide only between finite numbers of one sign; otherwise signs and kinds do.
  rcases u with (_ | _) | _ | (_ | _) | ⟨_ | _, m, e, hm⟩ <;>
    rcases v with (_ | _) | _ | (_ | _) | ⟨_ | _, n, f, hn⟩ <;> cases hs <;> cases hs'
  case finite.negative.finite.negative.refl.refl =>
    have hsame := hboth _ _ _ _ _ _ _ _ rfl rfl
    refine congrArg some ?_
    rw [hsame, Int.compare_swap]
    exact (compare_neg_neg _ _).symm
  case finite.positive.finite.positive.refl.refl => exact congrArg some (hboth _ _ _ _ _ _ _ _ rfl rfl)
  all_goals
    refine congrArg some (Eq.symm ?_)
    simp only [Between, lined, magnitude] at hx hy ⊢
    first
      | exact Int.compare_eq_lt.mpr (by omega)
      | exact Int.compare_eq_gt.mpr (by omega)
      | exact Int.compare_eq_eq.mpr (by omega)

theorem magnitude_nonneg (x : Float.Model) : 0 ≤ magnitude x.unpack := by
  have hx := between x
  generalize x.unpack = u at hx ⊢
  cases u with
  | finite => exact hx.1.le
  | infinity => exact (by decide : (0 : Int) ≤ 2047 * 2 ^ 52)
  | notANumber | zero => exact le_rfl

/-- A smaller number comes earlier. -/
theorem placed_lt {x y : Float.Model} {s s' : Sign} (hs : sign? x.unpack = some s) (hs' : sign? y.unpack = some s')
    (h : x.unpack.compare y.unpack = some .lt) :
    placed (magnitude x.unpack) s < placed (magnitude y.unpack) s' := by
  rw [compare_lined hs hs'] at h
  have hlt := Int.compare_eq_lt.mp (Option.some.inj h)
  have hx := magnitude_nonneg x
  have hy := magnitude_nonneg y
  cases s <;> cases s' <;> simp only [placed, lined] at hlt ⊢ <;> omega

/-- A smaller number comes earlier in the total order. -/
theorem rank_lt {x y : Float} (h : x < y) : rank x < rank y := by
  have hlt : x.toModel.unpack.compare y.toModel.unpack = some .lt := by
    have hlt : x.toModel.unpack.lt y.toModel.unpack = true := of_decide_eq_true (p := x.toModel < y.toModel) h
    exact beq_iff_eq.mp hlt
  cases hs : sign? x.toModel.unpack with
  | none =>
    cases hu : x.toModel.unpack <;> rw [hu] at hs hlt <;> cases hs
    cases hlt
  | some s =>
    cases hs' : sign? y.toModel.unpack with
    | none =>
      cases hv : y.toModel.unpack <;> rw [hv] at hs' hlt <;> cases hs'
      cases hu : x.toModel.unpack <;> rw [hu] at hlt <;> cases hlt
    | some s' =>
      rw [rank_eq hs, rank_eq hs']
      exact placed_lt hs hs' hlt

/-- What is a number has a sign. -/
theorem isNaN_eq_false_iff {x : Float} : x.isNaN = false ↔ sign? x.toModel.unpack ≠ none := by
  have hnan : x.isNaN = x.toModel.unpack.isNaN := rfl
  rw [hnan]
  cases x.toModel.unpack <;> simp [UnpackedFloat.isNaN, sign?]

theorem isNaN_of_isFinite {x : Float} (h : x.isFinite = true) : x.isNaN = false := by
  change x.toModel.unpack.isFinite = true at h
  change x.toModel.unpack.isNaN = false
  cases hu : x.toModel.unpack with
  | notANumber =>
    rw [hu] at h
    cases h
  | _ => rfl

theorem not_le_of_lt {x y : Float} (h : x < y) : ¬y ≤ x := by
  intro hle
  have hlt : x.toModel.unpack.lt y.toModel.unpack = true := of_decide_eq_true (p := x.toModel < y.toModel) h
  have hle : y.toModel.unpack.le x.toModel.unpack = true := of_decide_eq_true (p := y.toModel ≤ x.toModel) hle
  unfold UnpackedFloat.le at hle
  rw [compare_swap, beq_iff_eq.mp hlt] at hle
  cases hle

/-- What is less than something is a number, and so is what it is less than. -/
theorem isNaN_of_lt {x y : Float} (h : x < y) : x.isNaN = false ∧ y.isNaN = false := by
  have hlt : x.toModel.unpack.lt y.toModel.unpack = true := of_decide_eq_true (p := x.toModel < y.toModel) h
  change x.toModel.unpack.isNaN = false ∧ y.toModel.unpack.isNaN = false
  constructor
  · cases hu : x.toModel.unpack with
    | notANumber =>
      rw [hu] at hlt
      cases hlt
    | _ => rfl
  · cases hv : y.toModel.unpack with
    | notANumber =>
      rw [hv] at hlt
      cases hu : x.toModel.unpack <;> rw [hu] at hlt <;> cases hlt
    | _ => rfl

/-- Finite numbers can be compared. -/
theorem le_of_not_lt {x y : Float} (hx : x.isFinite = true) (hy : y.isFinite = true) (h : ¬x < y) : y ≤ x := by
  have hsign {z : Float} (hz : z.isFinite = true) : sign? z.toModel.unpack ≠ none := by
    change z.toModel.unpack.isFinite = true at hz
    cases hu : z.toModel.unpack with
    | notANumber =>
      rw [hu] at hz
      cases hz
    | _ => exact nofun
  by_contra hle
  exact h (lt_of_not_le (hsign hy) (hsign hx) hle)

/-- What is compared is a number. -/
theorem exists_sign_of_le {x y : Float} (h : x ≤ y) :
    ∃ s s', sign? x.toModel.unpack = some s ∧ sign? y.toModel.unpack = some s' := by
  have hle : x.toModel.unpack.le y.toModel.unpack = true := of_decide_eq_true (p := x.toModel ≤ y.toModel) h
  cases hu : x.toModel.unpack with
  | notANumber =>
    rw [hu] at hle
    cases hle
  | _ =>
    cases hv : y.toModel.unpack with
    | notANumber =>
      rw [hu, hv] at hle
      cases hle
    | _ => exact ⟨_, _, rfl, rfl⟩

theorem le_iff_lined {x y : Float} {s s' : Sign} (hs : sign? x.toModel.unpack = some s)
    (hs' : sign? y.toModel.unpack = some s') :
    x ≤ y ↔ lined (magnitude x.toModel.unpack) s ≤ lined (magnitude y.toModel.unpack) s' := by
  have hle : x ≤ y ↔ x.toModel.unpack.le y.toModel.unpack = true :=
    ⟨of_decide_eq_true (p := x.toModel ≤ y.toModel), decide_eq_true (p := x.toModel ≤ y.toModel)⟩
  rw [hle]
  unfold UnpackedFloat.le
  rw [compare_lined hs hs', Option.any_some]
  exact Int.isLE_compare

theorem le_trans {x y z : Float} (h : x ≤ y) (h' : y ≤ z) : x ≤ z := by
  obtain ⟨s, s', hx, hy⟩ := exists_sign_of_le h
  obtain ⟨-, t, -, hz⟩ := exists_sign_of_le h'
  rw [le_iff_lined hx hy] at h
  rw [le_iff_lined hy hz] at h'
  rw [le_iff_lined hx hz]
  exact h.trans h'

/-- There is one thing that is not a number. -/
theorem eq_of_unpack_notANumber {x : Float} (h : x.toModel.unpack = .notANumber) : x = 0.0 / 0.0 := by
  have hbits : x.toBits.toBitVec = packedNaN Format.binary64 := by
    unfold Float.Model.unpack UnpackedFloat.unpack at h
    dsimp only at h
    split at h
    · rename_i hexponent
      split at h
      · cases h
      · exact x.toModel.valid.eq_packedNaN hexponent ‹_›
    · split at h
      · split at h <;> cases h
      · cases h
  refine eq_of_toBits_eq (UInt64.toBitVec_inj.mp (hbits.trans ?_))
  decide

/-- What is not finite is one of three. -/
theorem eq_of_not_isFinite {x : Float} (h : x.isFinite = false) : x = 0.0 / 0.0 ∨ x = 1.0 / 0.0 ∨ x = -(1.0 / 0.0) := by
  change x.toModel.unpack.isFinite = false at h
  cases hu : x.toModel.unpack with
  | notANumber => exact .inl (eq_of_unpack_notANumber hu)
  | infinity s =>
    have hrank : rank x = placed (magnitude (.infinity s)) s := by
      rw [← hu]
      refine rank_eq ?_
      rw [hu]
      rfl
    cases s with
    | positive => exact .inr (.inl (eq_of_rank_eq (hrank.trans (by decide))))
    | negative => exact .inr (.inr (eq_of_rank_eq (hrank.trans (by decide))))
  | _ =>
    rw [hu] at h
    cases h

/-- Neither positive nor negative. -/
def Unsigned (u : UnpackedFloat) : Prop := u = .notANumber ∨ ∃ s, u = .zero s

theorem Unsigned.mul {v : UnpackedFloat} (h : Unsigned v) (u : UnpackedFloat) :
    Unsigned (UnpackedFloat.mul Format.binary64 u v) := by
  rcases h with rfl | ⟨s', rfl⟩
  · cases u <;> exact .inl rfl
  · cases u with
    | notANumber | infinity => exact .inl rfl
    | zero | finite => exact .inr ⟨_, rfl⟩

theorem Unsigned.not_lt_zero {u : UnpackedFloat} (h : Unsigned u) :
    ¬(Float.Model.pack u).unpack.lt (.zero .positive) = true := by
  rcases h with rfl | ⟨_ | _, rfl⟩ <;> decide

/-- A number is positive or negative if some product of it is negative. -/
theorem signed_of_mul_neg {x y : Float} (h : x * y < 0.0) : 0.0 < y ∨ y < 0.0 := by
  have hzero : (0.0 : Float).toModel.unpack = .zero .positive := by rfl
  have hproduct : (Float.Model.pack (UnpackedFloat.mul Format.binary64 x.toModel.unpack y.toModel.unpack)).unpack.lt
      (0.0 : Float).toModel.unpack = true := of_decide_eq_true (p := (x * y).toModel < (0.0 : Float).toModel) h
  have hsigned : (0.0 : Float).toModel.unpack.lt y.toModel.unpack = true ∨
      y.toModel.unpack.lt (0.0 : Float).toModel.unpack = true := by
    rw [hzero] at hproduct ⊢
    have hy : ¬Unsigned y.toModel.unpack := fun hy => (hy.mul _).not_lt_zero hproduct
    generalize y.toModel.unpack = v at hy ⊢
    cases v with
    | notANumber => exact absurd (.inl rfl) hy
    | zero s => exact absurd (.inr ⟨s, rfl⟩) hy
    | infinity s | finite s =>
      cases s
      · exact .inr rfl
      · exact .inl rfl
  exact hsigned.imp (decide_eq_true (p := (0.0 : Float).toModel < y.toModel))
    (decide_eq_true (p := y.toModel < (0.0 : Float).toModel))

end Binary64

instance : LawfulComparison Float where
  isNaN_of_isFinite h := Binary64.isNaN_of_isFinite h
  le_of_not_lt hx hy h := Binary64.le_of_not_lt hx hy h
  not_lt_of_totalLe h hlt := absurd (of_decide_eq_true h) (Int.not_le.mpr (Binary64.rank_lt hlt))

instance : LawfulSmaller Float where
  smaller_spec x y := by
    change (if x.isNaN then y else if y < x then y else x) = x ∧ ¬y < x ∨
      (if x.isNaN then y else if y < x then y else x) = y ∧ ¬x < y
    split
    · rename_i hnan
      exact .inr ⟨rfl, fun h => by rw [(Binary64.isNaN_of_lt h).1] at hnan; cases hnan⟩
    · split
      · rename_i hlt
        exact .inr ⟨rfl, fun h => absurd (Binary64.rank_lt h) (Int.not_lt.mpr (Binary64.rank_lt hlt).le)⟩
      · rename_i hlt
        exact .inl ⟨rfl, hlt⟩

instance : LawfulSign Float where
  signed_of_mul_neg h := Binary64.signed_of_mul_neg h

end TermStructure
