import TermStructure.Curve.NodeCurve
import TermStructure.Proofs.Scalar.Comparisons

/-!
# The range of a curve

A curve over nodes refuses a read outside of them, unless it is told to answer there, and it never
answers at what is not a time. This is the same for values and for discount factors, also where the latter come
from an integral that starts at time zero.
-/

namespace TermStructure

/-- A read beyond the nodes was refused. -/
def CurveError.IsExtrapolation {α : Type} : CurveError α → Prop
  | .extrapolation .. => True
  | _ => False

variable {α : Type} [Scalar α]

theorem Interpolant.checkRange_error {f : Interpolant α} {t : α} {allow : Bool} {source : NumericError α}
    (h : f.checkRange t allow = .error source) :
    source = .invalidInput .abscissa ∨ allow = false ∧ source = .extrapolation t f.low f.high := by
  unfold checkRange at h
  split at h
  · exact .inl (Except.error.inj h).symm
  · split at h
    · cases h
    · rename_i hrange
      rw [Bool.or_eq_true, not_or] at hrange
      exact .inr ⟨Bool.eq_false_iff.mpr hrange.1, (Except.error.inj h).symm⟩

namespace NodeCurve

variable {c : NodeCurve α} {p : Probe α} {allow : Bool} {e : CurveError α}

/-- What has to be in range for an answer, in the order in which it is looked at. -/
def bounds (c : NodeCurve α) : Probe α → List α
  | .value t => [t]
  | .discount t =>
    match c.frame.kind with
    | .discount | .survivalProbability => [t]
    | .hazardRate => [0, t]

/-- What the curve has to say, whether it may or not. -/
def saying (c : NodeCurve α) : Probe α → α
  | .value t => c.interpolant.value t
  | .discount t =>
    match c.frame.kind with
    | .discount | .survivalProbability => c.interpolant.value t
    | .hazardRate => Scalar.exp (-c.interpolant.integral 0 t)

theorem saying_discount (hkind : c.frame.kind.isProbabilityLike = true) (t : α) :
    c.saying (.discount t) = c.interpolant.value t := by
  unfold saying
  dsimp only
  cases hk : c.frame.kind with
  | hazardRate =>
    rw [hk] at hkind
    cases hkind
  | _ => rfl

/-- The curve looks at what has to be in range and answers if it is. -/
theorem answerWith_eq (c : NodeCurve α) (allow : Bool) (p : Probe α) :
    c.answerWith allow p =
      ((forM (c.bounds p) (c.interpolant.checkRange · allow)).mapError .ofNumeric).map fun _ => c.saying p := by
  have hvalue (t : α) : c.valueWith t allow =
      ((forM [t] (c.interpolant.checkRange · allow)).mapError .ofNumeric).map fun _ => c.interpolant.value t := by
    rw [List.forM_cons, List.forM_nil]
    unfold valueWith Interpolant.evaluate
    cases c.interpolant.checkRange t allow <;> rfl
  cases p with
  | value t => exact hvalue t
  | discount t =>
    unfold answerWith discountWith bounds saying
    dsimp only
    cases c.frame.kind with
    | discount => exact hvalue t
    | survivalProbability => exact hvalue t
    | hazardRate =>
      dsimp only
      rw [List.forM_cons, List.forM_cons, List.forM_nil]
      unfold Interpolant.integrate
      cases c.interpolant.checkRange 0 allow with
      | error source => rfl
      | ok _ => cases c.interpolant.checkRange t allow <;> rfl

/-- An answer fails at a time that is out of range. -/
theorem answerWith_error (h : c.answerWith allow p = .error e) :
    ∃ t source, c.interpolant.checkRange t allow = .error source ∧ e = .ofNumeric source := by
  rw [answerWith_eq] at h
  generalize c.bounds p = times at h
  induction times with
  | nil => cases h
  | cons t rest ih =>
    rw [List.forM_cons] at h
    cases ht : c.interpolant.checkRange t allow with
    | error source =>
      rw [ht] at h
      exact ⟨t, source, ht, (Except.error.inj h).symm⟩
    | ok _ =>
      rw [ht] at h
      exact ih h

/-- What a time has to pass for an answer from a curve over nodes from time zero to `high`. -/
def rangeRule (allow : Bool) (high t : α) : Except (CurveError α) Unit :=
  if Scalar.isNaN t then .error (.numeric (.invalidInput .abscissa))
  else if allow = true ∨ 0 ≤ t ∧ t ≤ high then .ok ()
  else .error (.extrapolation t 0 high)

theorem rangeRule_eq_ok_iff {high t : α} :
    rangeRule allow high t = .ok () ↔ Scalar.isNaN t = false ∧ (allow = true ∨ 0 ≤ t ∧ t ≤ high) := by
  unfold rangeRule
  cases Scalar.isNaN t with
  | true => simp
  | false => by_cases hrange : allow = true ∨ 0 ≤ t ∧ t ≤ high <;> simp [hrange]

theorem checkRange_eq_rangeRule {f : Interpolant α} (hlow : f.low = 0) (t : α) (allow : Bool) :
    (f.checkRange t allow).mapError .ofNumeric = rangeRule allow f.high t := by
  unfold Interpolant.checkRange Interpolant.inRange rangeRule
  rw [hlow]
  cases Scalar.isNaN t with
  | true => rfl
  | false =>
    have hcond : (allow || (decide (t ≥ 0) && decide (t ≤ f.high))) = true ↔ allow = true ∨ 0 ≤ t ∧ t ≤ f.high := by
      simp only [Bool.or_eq_true, Bool.and_eq_true, decide_eq_true_eq, ge_iff_le]
    by_cases hrange : allow = true ∨ 0 ≤ t ∧ t ≤ f.high
    · rw [if_pos (hcond.mpr hrange), if_pos hrange]
      rfl
    · rw [if_neg (mt hcond.mp hrange), if_neg hrange]
      rfl

/-- Over nodes from time zero on, it is the time asked for that decides, also where the curve is integrated. -/
theorem answerWith_eq_rangeRule (hlow : c.interpolant.low = 0) (hzero : c.interpolant.checkRange 0 allow = .ok ())
    (p : Probe α) :
    c.answerWith allow p = (rangeRule allow c.interpolant.high p.time).map fun _ => c.saying p := by
  have hbounds : forM (c.bounds p) (c.interpolant.checkRange · allow) = c.interpolant.checkRange p.time allow := by
    unfold bounds Probe.time
    cases p with
    | value t => rw [List.forM_cons, List.forM_nil, bind_pure_unit]
    | discount t =>
      -- An integral is taken from time zero, which is in range.
      cases c.frame.kind <;> simp only [List.forM_cons, List.forM_nil, hzero, bind_pure_unit]
      rfl
  rw [answerWith_eq, hbounds, checkRange_eq_rangeRule hlow]

/-- A curve over nodes from time zero to `high` that refuses what lies beyond them. -/
structure Strict (c : NodeCurve α) (high : α) : Prop where
  refuses : c.extrapolates = false
  answers : ∀ allow p, c.answerWith allow p = (rangeRule allow high p.time).map fun _ => c.saying p

theorem strict_of_anchored [LawfulOrder α] [LawfulDifference α] [LawfulComparison α] (hrefuses : c.extrapolates = false)
    (hlow : c.interpolant.low = 0) (hhigh : 0 ≤ c.interpolant.high) : c.Strict c.interpolant.high := by
  have hself : (0 : α) ≤ 0 := LawfulComparison.le_refl LawfulDifference.isFinite_zero
  have hrange : c.interpolant.inRange 0 = true := by
    unfold Interpolant.inRange
    rw [hlow]
    exact (Bool.and_eq_true _ _).mpr ⟨decide_eq_true hself, decide_eq_true hhigh⟩
  refine ⟨hrefuses, fun allow p => answerWith_eq_rangeRule hlow ?_ p⟩
  unfold Interpolant.checkRange
  rw [LawfulComparison.isNaN_of_isFinite LawfulDifference.isFinite_zero, hrange, Bool.or_true]
  rfl

/-- A curve that answers beyond its nodes refuses nothing there. -/
theorem not_isExtrapolation_of_answer (hallow : c.extrapolates = true) (h : c.answer p = .error e) :
    ¬e.IsExtrapolation := by
  obtain ⟨t, source, hsource, rfl⟩ := answerWith_error h
  rcases Interpolant.checkRange_error hsource with rfl | ⟨hallow', -⟩
  · exact id
  · cases hallow.symm.trans hallow'

end NodeCurve

end TermStructure
