import TermStructure.Proofs.RootFinding.Problem
import TermStructure.RootFinding.Bisection

/-!
# Halving

Bisection keeps a change of sign between the two ends of its interval: the middle takes the place of the
end whose sign it has.
-/

namespace TermStructure.Bisection
open Problem (Opposite opposite_iff)

variable {α β : Type} [ScalarField α] {P : Problem α β} {samples : List (α × β)} {left : Nat}
  {atLower atUpper low high atLow atHigh x y : α}

/-- The width at which an interval about `x` is too short to be halved. -/
def resolution (x : α) : α := 4 * Scalar.epsilon * max |x| Scalar.minPositive

/-- The ends of an interval that is halved: both were asked for, and the objective changes its sign between
    them, with the sign at the lower end that it had at the start. -/
structure Straddles (P : Problem α β) (samples : List (α × β)) (atLower low high atLow atHigh : α) : Prop where
  le : low ≤ high
  low : P.Known samples low atLow
  high : P.Known samples high atHigh
  opposite : Opposite atLow atHigh
  sign : atLow < 0 ↔ atLower < 0

namespace Straddles

theorem append (h : Straddles P samples atLower low high atLow atHigh) (more : List (α × β)) :
    Straddles P (samples ++ more) atLower low high atLow atHigh :=
  ⟨h.le, h.low.append more, h.high.append more, h.opposite, h.sign⟩

/-- A middle with the sign of the lower end takes its place. -/
theorem raise (h : Straddles P samples atLower low high atLow atHigh) (hx : P.Known samples x y) (hle : x ≤ high)
    (hy : y ≠ 0) (hsign : y < 0 ↔ atLower < 0) : Straddles P samples atLower x high y atHigh := by
  refine ⟨hle, hx, h.high, ?_, hsign⟩
  rcases h.opposite with ⟨hl, hh⟩ | ⟨hl, hh⟩
  · have hnot : ¬y < 0 := fun hlt => absurd (h.sign.mpr (hsign.mp hlt)) (not_lt.mpr hl.le)
    exact .inl ⟨lt_of_le_of_ne (not_lt.mp hnot) hy.symm, hh⟩
  · exact .inr ⟨hsign.mpr (h.sign.mp hl), hh⟩

/-- A middle with the other sign takes the place of the higher end. -/
theorem lower (h : Straddles P samples atLower low high atLow atHigh) (hx : P.Known samples x y) (hle : low ≤ x)
    (hy : y ≠ 0) (hsign : ¬(y < 0 ↔ atLower < 0)) : Straddles P samples atLower low x atLow y := by
  refine ⟨hle, h.low, hx, ?_, h.sign⟩
  rw [← h.sign] at hsign
  rcases h.opposite with ⟨hl, -⟩ | ⟨hl, -⟩
  · have hlt : y < 0 := by
      by_contra hnot
      exact hsign (iff_of_false hnot (not_lt.mpr hl.le))
    exact .inl ⟨hl, hlt⟩
  · have hnot : ¬y < 0 := fun hlt => hsign (iff_of_true hlt hl)
    exact .inr ⟨hl, lt_of_le_of_ne (not_lt.mp hnot) hy.symm⟩

end Straddles

variable [ExactArithmetic α]

theorem collapsed_iff : collapsed low high x = true ↔ high - low ≤ resolution x := by
  unfold collapsed resolution
  rw [decide_eq_true_iff, ExactArithmetic.four_eq, ExactArithmetic.larger_eq, ExactArithmetic.abs_eq]

theorem middle_mem (h : low ≤ high) : low ≤ 0.5 * (low + high) ∧ 0.5 * (low + high) ≤ high := by
  rw [ExactArithmetic.half_eq]
  constructor <;> linarith

/-- Halving an interval with a change of sign ends as it may. -/
theorem halve_ends (hP : P.IsProper) {iterations : Nat} (hrecord : P.Record samples left)
    (h : Straddles P samples atLower low high atLow atHigh) :
    P.Ends resolution samples (halve P.settings.limit P.settings.tolerance atLower atUpper left iterations low high) := by
  induction left generalizing samples iterations low high atLow atHigh with
  | zero => exact Problem.ends_done hrecord nofun
  | succ left ih =>
    obtain ⟨hlow, hhigh⟩ := middle_mem h.le
    have hinside : P.Inside (0.5 * (low + high)) :=
      ⟨(hrecord.known_inside h.low).1.trans hlow, hhigh.trans (hrecord.known_inside h.high).2⟩
    refine Problem.ends_evaluate hrecord hinside fun y hy hrecord' => ?_
    have h := h.append [(0.5 * (low + high), P.objective (0.5 * (low + high)))]
    generalize samples ++ [(0.5 * (low + high), P.objective (0.5 * (low + high)))] = samples at hy hrecord' h ⊢
    split
    · rename_i hdone
      rw [ExactArithmetic.abs_eq] at hdone
      refine Problem.ends_done hrecord' ⟨⟨hy, hdone.imp_right fun hc => ?_⟩, hrecord'.spent⟩
      exact ⟨low, high, atLow, atHigh, h.low, h.high, h.opposite, hlow, hhigh, collapsed_iff.mp hc⟩
    · rename_i hopen
      -- A value beyond the tolerance is not zero, so it has a sign.
      have hy0 : y ≠ 0 := by
        rw [ExactArithmetic.abs_eq] at hopen
        exact hP.ne_zero fun hle => hopen (.inl hle)
      split
      · rename_i hsign
        exact ih hrecord' (h.raise hy hhigh hy0 (decide_eq_decide.mp (beq_iff_eq.mp hsign)))
      · rename_i hsign
        exact ih hrecord' (h.lower hy hlow hy0 fun hiff => hsign (beq_iff_eq.mpr (decide_eq_decide.mpr hiff)))

theorem search_ends (hP : P.IsProper) (guess : α) : P.Ends resolution [] (search guess P.within P.settings) := by
  have hle := hP.lower_lt_upper.le
  refine Problem.ends_evaluate P.record_nil ⟨le_refl _, hle⟩ fun fa hfa hrecord => ?_
  refine Problem.ends_evaluate hrecord ⟨hle, le_refl _⟩ fun fb hfb hrecord => ?_
  have hfa := hfa.append [(P.within.upper, P.objective P.within.upper)]
  rw [ExactArithmetic.abs_eq, ExactArithmetic.abs_eq]
  split
  · rename_i hclose
    exact Problem.ends_done hrecord (Problem.concludes_of_le hfa hclose 0 rfl)
  · rename_i hfar
    split
    · rename_i hclose
      exact Problem.ends_done hrecord (Problem.concludes_of_le hfb hclose 0 rfl)
    · rename_i hfar'
      split
      · exact Problem.ends_done hrecord nofun
      · rename_i hsign
        have ha : fa ≠ 0 := hP.ne_zero hfar
        have hb : fb ≠ 0 := hP.ne_zero hfar'
        have hopposite : Opposite fa fb :=
          opposite_iff.mpr (lt_of_le_of_ne (not_lt.mp hsign) (mul_ne_zero ha hb))
        exact halve_ends hP hrecord ⟨hle, hfa, hfb, hopposite, .rfl⟩

end TermStructure.Bisection
