import TermStructure.Proofs.Scalar.Exponential
import TermStructure.Proofs.RootFinding.Finders
import TermStructure.Curve.Kind

/-!
# Search intervals of the curve kinds

The interval first searched for a node and the one it is widened to, in exact arithmetic. Both stay within
the limits of the kind and the second holds the first, except after a survival probability at its lowest:
the interval below that has no part within the limits, and is searched as it is.
-/

namespace TermStructure

/-! ### Widening and cutting -/

namespace Bracket

/-- One interval lies within another. -/
def Within {α : Type} [LE α] (b c : Bracket α) : Prop := c.lower ≤ b.lower ∧ b.upper ≤ c.upper

variable {α : Type} [ScalarField α] [ExactArithmetic α] {b c : Bracket α} {factor low high : α}

theorem widen_eq (b : Bracket α) (hfactor : 1 ≤ factor) :
    b.widen factor = ⟨b.lower - (b.upper - b.lower) / 2 * (factor - 1), b.upper + (b.upper - b.lower) / 2 * (factor - 1)⟩ := by
  unfold widen midpoint width
  rw [ExactArithmetic.larger_eq, max_eq_left hfactor, ExactArithmetic.half_eq, Bracket.mk.injEq]
  exact ⟨by ring, by ring⟩

theorem within_widen (hb : b.lower ≤ b.upper) (hfactor : 1 ≤ factor) : b.Within (b.widen factor) := by
  have hmore : 0 ≤ (b.upper - b.lower) / 2 * (factor - 1) :=
    mul_nonneg (by linarith) (by linarith)
  rw [widen_eq b hfactor]
  exact ⟨sub_le_self _ hmore, le_add_of_nonneg_right hmore⟩

theorem widen_one (b : Bracket α) : b.widen 1 = b := by
  rw [widen_eq b le_rfl, sub_self, mul_zero, sub_zero, add_zero]

theorem upper_lt_widen (hb : b.lower < b.upper) (hfactor : 1 < factor) : b.upper < (b.widen factor).upper := by
  rw [widen_eq b hfactor.le]
  exact lt_add_of_pos_right _ (mul_pos (by linarith) (by linarith))

theorem restrict_eq (b : Bracket α) (low high : α) :
    b.restrict low high =
      if max b.lower low < min b.upper high then ⟨max b.lower low, min b.upper high⟩ else b := by
  unfold restrict
  rw [ExactArithmetic.larger_eq, ExactArithmetic.smaller_eq]

/-- An interval that reaches below `high` and above `low` is cut there. -/
theorem restrict_of_meets (hb : b.lower < b.upper) (hlimits : low < high) (hhigh : b.lower < high)
    (hlow : low < b.upper) : b.restrict low high = ⟨max b.lower low, min b.upper high⟩ := by
  rw [restrict_eq, if_pos (max_lt (lt_min hb hhigh) (lt_min hlow hlimits))]

/-- An interval that lies below `low` is left as it is. -/
theorem restrict_of_upper_le (h : b.upper ≤ low) : b.restrict low high = b := by
  rw [restrict_eq, if_neg]
  exact not_lt.mpr ((min_le_left _ _).trans (h.trans (le_max_right _ _)))

end Bracket

/-! ### Limits -/

namespace CurveKind

/-- The value is within the limits of the kind. -/
def Admits {α : Type} [Scalar α] (kind : CurveKind) (x : α) : Prop :=
  (kind.domain : α × α).1 ≤ x ∧ x ≤ (kind.domain : α × α).2

/-- The interval has an inside, and stays within the limits of the kind. -/
structure Confines {α : Type} [Scalar α] (kind : CurveKind) (b : Bracket α) : Prop where
  lower_lt_upper : b.lower < b.upper
  lower : (kind.domain : α × α).1 ≤ b.lower
  upper : b.upper ≤ (kind.domain : α × α).2

/-- The node before has the least survival probability there may be. -/
def AtFloor {α : Type} [Scalar α] (kind : CurveKind) (previous : α) : Prop :=
  kind = survivalProbability ∧ previous = (kind.domain : α × α).1

variable {α : Type} [ScalarField α] {kind : CurveKind} {b c : Bracket α} {previous dt factor x : α}

theorem Confines.admits (h : kind.Confines b) (hlow : b.lower ≤ x) (hhigh : x ≤ b.upper) : kind.Admits x :=
  ⟨h.lower.trans hlow, hhigh.trans h.upper⟩

variable [ExactArithmetic α]

theorem domain_eq (kind : CurveKind) : (kind.domain : α × α) =
    match kind with
    | discount => (1 / 10 ^ 12, 10)
    | survivalProbability => (1 / 10 ^ 12, 1)
    | hazardRate => (-1, 10) := by
  cases kind <;> simp [domain, ExactArithmetic.ofScientific_eq] <;> norm_num

theorem domain_lt (kind : CurveKind) : (kind.domain : α × α).1 < (kind.domain : α × α).2 := by
  rw [domain_eq]
  cases kind <;> norm_num

/-- Node values that are probabilities or discount factors are positive. -/
theorem Admits.pos (hkind : kind.isProbabilityLike = true) (hx : kind.Admits x) : 0 < x := by
  have hlow := hx.1
  rw [domain_eq] at hlow
  cases kind with
  | hazardRate => cases hkind
  | _ => exact lt_of_lt_of_le (by positivity) hlow

theorem anchorValue_admitted (kind : CurveKind) : kind.Admits (kind.anchorValue : α) := by
  unfold Admits
  rw [domain_eq]
  cases kind <;> simp only [anchorValue] <;> norm_num

/-- What is cut to the limits, and meets them, is confined. -/
theorem confines_restrict (hb : b.lower < b.upper) (hhigh : b.lower < (kind.domain : α × α).2)
    (hlow : (kind.domain : α × α).1 < b.upper) :
    kind.Confines (b.restrict (kind.domain : α × α).1 (kind.domain : α × α).2) := by
  rw [Bracket.restrict_of_meets hb (domain_lt kind) hhigh hlow]
  exact ⟨max_lt (lt_min hb hhigh) (lt_min hlow (domain_lt kind)), le_max_right _ _, min_le_right _ _⟩

/-- What is within the limits stays when more is cut to them. -/
theorem Confines.within_restrict (h : kind.Confines b) (hb : b.Within c) :
    b.Within (c.restrict (kind.domain : α × α).1 (kind.domain : α × α).2) := by
  have hlt := h.lower_lt_upper
  have hlower := h.lower
  have hupper := h.upper
  obtain ⟨hl, hu⟩ := hb
  rw [Bracket.restrict_of_meets (by linarith) (domain_lt kind) (by linarith) (by linarith)]
  exact ⟨max_le hl h.lower, le_min hu h.upper⟩

/-- An interval within the limits is widened within them, and loses nothing. -/
theorem Confines.widened (h : kind.Confines b) (hfactor : 1 ≤ factor) :
    kind.Confines (kind.widenedBracket factor b) ∧ b.Within (kind.widenedBracket factor b) := by
  have hwithin := Bracket.within_widen h.lower_lt_upper.le hfactor
  obtain ⟨hl, hu⟩ := hwithin
  have hlt := h.lower_lt_upper
  have hlower := h.lower
  have hupper := h.upper
  exact ⟨confines_restrict (by linarith) (by linarith) (by linarith), h.within_restrict ⟨hl, hu⟩⟩

/-! ### The first interval -/

variable [LawfulExp α]

/-- Above the lowest survival probability the first interval is within the limits. -/
theorem confines_searchBracket (hprevious : kind.Admits previous) (hdt : 0 < dt) (hfloor : ¬kind.AtFloor previous) :
    kind.Confines (kind.searchBracket previous dt) := by
  have hdown : Scalar.exp (-dt) < 1 := exp_lt_one (neg_lt_zero.mpr hdt)
  obtain ⟨hlow, hhigh⟩ := hprevious
  cases kind with
  | discount =>
    have hpos : 0 < previous := Admits.pos rfl ⟨hlow, hhigh⟩
    have hup : 1 < Scalar.exp (0.1 * dt) := by
      apply one_lt_exp
      rw [ExactArithmetic.ofScientific_eq, if_pos rfl]
      positivity
    have hbelow : previous * Scalar.exp (-dt) < previous := mul_lt_of_lt_one_right hpos hdown
    have habove : previous < previous * Scalar.exp (0.1 * dt) := lt_mul_of_one_lt_right hpos hup
    exact confines_restrict (hbelow.trans habove) (hbelow.trans_le hhigh) (hlow.trans_lt habove)
  | survivalProbability =>
    have hpos : 0 < previous := Admits.pos rfl ⟨hlow, hhigh⟩
    have hbelow : previous * Scalar.exp (-dt) < previous := mul_lt_of_lt_one_right hpos hdown
    have habove : (survivalProbability.domain : α × α).1 < previous :=
      lt_of_le_of_ne hlow fun h => hfloor ⟨rfl, h.symm⟩
    exact confines_restrict hbelow (hbelow.trans_le hhigh) habove
  | hazardRate =>
    have hpos : 0 < Scalar.larger previous 0.5 * 2.0 := by
      rw [ExactArithmetic.larger_eq, ExactArithmetic.half_eq, ExactArithmetic.two_eq]
      have hhalf : (1 / 2 : α) ≤ max previous (1 / 2) := le_max_right _ _
      linarith
    refine confines_restrict hpos ?_ (lt_trans ?_ hpos) <;> rw [domain_eq] <;> norm_num

/-- At the lowest survival probability the first interval lies below the limits. -/
theorem searchBracket_of_atFloor (hdt : 0 < dt) (hfloor : kind.AtFloor previous) :
    kind.searchBracket previous dt = ⟨previous * Scalar.exp (-dt), previous⟩ ∧
      previous * Scalar.exp (-dt) < previous := by
  obtain ⟨rfl, hprevious⟩ := hfloor
  have hadmits : survivalProbability.Admits previous := by
    rw [hprevious]
    exact ⟨le_rfl, (domain_lt _).le⟩
  have hpos : 0 < previous := hadmits.pos rfl
  exact ⟨Bracket.restrict_of_upper_le hprevious.le,
    mul_lt_of_lt_one_right hpos (exp_lt_one (neg_lt_zero.mpr hdt))⟩

/-- Widened from there, it is cut to the limits and loses all that it had, or is not widened at all. -/
theorem widenedBracket_of_atFloor (factor : α) (hdt : 0 < dt) (hfloor : kind.AtFloor previous) :
    kind.widenedBracket 1 (kind.searchBracket previous dt) = kind.searchBracket previous dt ∧
      (1 < factor → kind.Confines (kind.widenedBracket factor (kind.searchBracket previous dt))) := by
  obtain ⟨hfirst, hbelow⟩ := searchBracket_of_atFloor hdt hfloor
  rw [hfirst]
  constructor
  · unfold widenedBracket
    rw [Bracket.widen_one]
    exact Bracket.restrict_of_upper_le hfloor.2.le
  · intro hfactor
    have hwithin := Bracket.within_widen (b := ⟨previous * Scalar.exp (-dt), previous⟩) hbelow.le hfactor.le
    have hmore := Bracket.upper_lt_widen (b := ⟨previous * Scalar.exp (-dt), previous⟩) hbelow hfactor
    have hlimits : previous < (kind.domain : α × α).2 := by
      rw [hfloor.2]
      exact domain_lt kind
    obtain ⟨hl, -⟩ := hwithin
    dsimp only at hl hmore
    refine confines_restrict (by linarith) (by linarith) ?_
    rw [← hfloor.2]
    exact hmore

end CurveKind

/-- What a root finder asks for and returns is admitted by a kind that confines its interval. -/
theorem RootFinder.IsStandard.admitted {α β : Type} [ScalarField α] [ExactArithmetic α] {finder : RootFinder α}
    (h : finder.IsStandard) {kind : CurveKind} {P : Problem α β} (hP : kind.Confines P.within)
    (htolerance : 0 ≤ P.settings.tolerance) (guess : α) :
    (∀ s ∈ (P.run finder guess).samples, kind.Admits s.1) ∧
      ∀ r, (P.run finder guess).result = .ok r → kind.Admits r.root := by
  obtain ⟨width, hends⟩ := h.ends (P := P) ⟨hP.lower_lt_upper, htolerance⟩ guess
  have hsamples : ∀ s ∈ (P.run finder guess).samples, kind.Admits s.1 := fun s hs =>
    hP.admits (hends.confined.inside s hs).1 (hends.confined.inside s hs).2
  exact ⟨hsamples, fun r hr => hsamples _ (hends.located hr).known.asked⟩

/-- Above the lowest survival probability the first interval and the widened one stay within the limits of the
    kind, the second holds the first, and so no root is found beyond the limits. After that probability the
    first interval lies below the limits, and the widened one, unless the factor is one, does not hold it. -/
theorem search_intervals_confined {α : Type} [ScalarField α] [ExactArithmetic α] [LawfulExp α] (kind : CurveKind)
    {previous dt factor : α} (hprevious : kind.Admits previous) (hdt : 0 < dt) (hfactor : 1 ≤ factor) :
    (¬kind.AtFloor previous →
      kind.Confines (kind.searchBracket previous dt) ∧
      kind.Confines (kind.widenedBracket factor (kind.searchBracket previous dt)) ∧
      (kind.searchBracket previous dt).Within (kind.widenedBracket factor (kind.searchBracket previous dt)) ∧
      ∀ (β : Type) (P : Problem α β) (finder : RootFinder α) (guess : α) (r : Root α), finder.IsStandard →
        0 ≤ P.settings.tolerance →
        (P.within = kind.searchBracket previous dt ∨
          P.within = kind.widenedBracket factor (kind.searchBracket previous dt)) →
        (P.run finder guess).result = .ok r → kind.Admits r.root) ∧
    (kind.AtFloor previous →
      kind.searchBracket previous dt = ⟨previous * Scalar.exp (-dt), previous⟩ ∧
      previous * Scalar.exp (-dt) < previous ∧ ¬kind.Confines (kind.searchBracket previous dt) ∧
      (factor = 1 → kind.widenedBracket factor (kind.searchBracket previous dt) = kind.searchBracket previous dt) ∧
      (1 < factor → kind.Confines (kind.widenedBracket factor (kind.searchBracket previous dt)) ∧
        ¬(kind.searchBracket previous dt).Within (kind.widenedBracket factor (kind.searchBracket previous dt)))) := by
  refine ⟨fun hfloor => ?_, fun hfloor => ?_⟩
  · have hfirst := CurveKind.confines_searchBracket hprevious hdt hfloor
    obtain ⟨hwider, hwithin⟩ := hfirst.widened hfactor
    refine ⟨hfirst, hwider, hwithin, fun β P finder guess r hfinder htolerance hP hr => ?_⟩
    have hconfines : kind.Confines P.within := by
      rcases hP with hP | hP <;> rw [hP]
      · exact hfirst
      · exact hwider
    exact (hfinder.admitted hconfines htolerance guess).2 r hr
  · obtain ⟨hfirst, hbelow⟩ := CurveKind.searchBracket_of_atFloor hdt hfloor
    obtain ⟨hone, hwider⟩ := CurveKind.widenedBracket_of_atFloor factor hdt hfloor
    have hout : (kind.searchBracket previous dt).lower < (kind.domain : α × α).1 := by
      rw [hfirst, ← hfloor.2]
      exact hbelow
    refine ⟨hfirst, hbelow, fun h => not_lt.mpr h.lower hout, fun h => ?_, fun h => ⟨hwider h, fun hwithin => ?_⟩⟩
    · rw [h, hone]
    · exact not_lt.mpr ((hwider h).lower.trans hwithin.1) hout

/-- The lowest survival probability, in real numbers. -/
theorem search_intervals_confined_floor :
    CurveKind.survivalProbability.Admits (1 / 10 ^ 12 : ℝ) ∧
      ¬CurveKind.survivalProbability.Confines (CurveKind.survivalProbability.searchBracket (1 / 10 ^ 12 : ℝ) 1) ∧
      CurveKind.discount.Confines (CurveKind.discount.widenedBracket 10 (CurveKind.discount.searchBracket (1 : ℝ) 1)) := by
  have hfloor : CurveKind.survivalProbability.AtFloor (1 / 10 ^ 12 : ℝ) := ⟨rfl, by rw [CurveKind.domain_eq]⟩
  have hprevious : CurveKind.survivalProbability.Admits (1 / 10 ^ 12 : ℝ) :=
    ⟨hfloor.2.ge, hfloor.2.le.trans (CurveKind.domain_lt _).le⟩
  obtain ⟨-, hat⟩ := search_intervals_confined .survivalProbability hprevious one_pos (le_refl 1)
  obtain ⟨habove, -⟩ := search_intervals_confined .discount (CurveKind.anchorValue_admitted .discount)
    (one_pos (α := ℝ)) (by norm_num : (1 : ℝ) ≤ 10)
  exact ⟨hprevious, (hat hfloor).2.2.1, (habove nofun).2.1⟩

end TermStructure
