import TermStructure.Proofs.RootFinding.Problem
import TermStructure.RootFinding.Brent

/-!
# Narrowing

Brent's method renames, swaps and discards its three points on every turn. What it keeps is that the point
before the best one and the end on the other side show a change of sign; so, once the points are in their
places, do the best point and that end. The next point lies between these two.
-/

namespace TermStructure.Brent
open Problem (Opposite opposite_iff)

/-- The width of an interval about `x` that Brent's method closes in no further on. -/
def resolution {α : Type} [Scalar α] (x : α) : α := 2.0 * (2.0 * Scalar.epsilon * Scalar.abs x + Scalar.minPositive)

section
variable {α : Type} [ScalarField α]

theorem resolution_eq [ExactArithmetic α] (x : α) :
    resolution x = 2 * (2 * Scalar.epsilon * |x| + Scalar.minPositive) := by
  unfold resolution
  rw [ExactArithmetic.two_eq, ExactArithmetic.abs_eq]

/-! ### Steps -/

/-- A step towards a point at a distance of twice `h`, and no further. -/
def Toward (h step : α) : Prop := 0 ≤ step ∧ step ≤ h + h ∨ h + h ≤ step ∧ step ≤ 0

theorem toward_half (h : α) : Toward h h := by
  rcases le_total 0 h with hh | hh
  · exact .inl ⟨hh, by linarith⟩
  · exact .inr ⟨by linarith, hh⟩

/-- A fraction that stays well inside the interval. -/
theorem toward_fraction {h p q t : α} (hp : 0 ≤ p) (hq : q ≠ 0) (hinside : 2 * p < 3 * h * q - |t * q|) :
    Toward h (p / q) := by
  have habs : 0 ≤ |t * q| := abs_nonneg _
  rcases lt_or_gt_of_ne hq with hneg | hpos
  · have hh : h ≤ 0 := by
      by_contra hnot
      have : h * q < 0 := mul_neg_of_pos_of_neg (not_le.mp hnot) hneg
      linarith
    refine .inr ⟨?_, div_nonpos_of_nonneg_of_nonpos hp hneg.le⟩
    rw [le_div_iff_of_neg hneg]
    have : 0 ≤ h * q := mul_nonneg_of_nonpos_of_nonpos hh hneg.le
    linarith
  · have hh : 0 ≤ h := by
      by_contra hnot
      have : h * q < 0 := mul_neg_of_neg_of_pos (not_le.mp hnot) hpos
      linarith
    refine .inl ⟨div_nonneg hp hpos.le, ?_⟩
    rw [div_le_iff₀ hpos]
    have : 0 ≤ h * q := mul_nonneg hh hpos.le
    linarith

/-- A step towards the other end leads to a point between the two. -/
theorem Toward.inside {β : Type} {P : Problem α β} {b c h step : α} (hstep : Toward h step) (hb : P.Inside b)
    (hc : P.Inside c) (hh : 2 * h = c - b) : P.Inside (b + step) := by
  obtain ⟨hb₁, hb₂⟩ := hb
  obtain ⟨hc₁, hc₂⟩ := hc
  rcases hstep with ⟨h₁, h₂⟩ | ⟨h₁, h₂⟩
  · exact ⟨by linarith, by linarith⟩
  · exact ⟨by linarith, by linarith⟩

variable [ExactArithmetic α]

theorem toward_withSignOf {h t : α} (ht : 0 ≤ t) (hlt : t < |h|) : Toward h (Scalar.withSignOf t h) := by
  rw [ExactArithmetic.withSignOf_eq, abs_of_nonneg ht]
  split
  · rename_i hneg
    rw [abs_of_neg hneg] at hlt
    exact .inr ⟨by linarith, by linarith⟩
  · rename_i hnonneg
    rw [abs_of_nonneg (not_lt.mp hnonneg)] at hlt
    exact .inl ⟨ht, by linarith⟩

end

namespace State

/-! ### Choosing a step -/

/-- Only the steps change when one is chosen. -/
theorem choose_eq {α : Type} [Scalar α] (s : State α) : ∃ d e, s.choose = { s with d := d, e := e } := by
  unfold choose
  dsimp only
  split
  · -- The step is a fraction whose denominator may have been negated.
    split <;> split <;> exact ⟨_, _, rfl⟩
  · exact ⟨_, _, rfl⟩

section
variable {α : Type} [ScalarField α] (s : State α)

/-- A step is interpolated: the steps before were long enough and the residuals go down. -/
def Interpolates : Prop := Scalar.abs s.e ≥ s.resolution ∧ Scalar.abs s.fa > Scalar.abs s.fb

/-- The interpolated step as a fraction whose numerator is not negative. -/
def fraction : α × α := (Scalar.abs s.interpolated.1, if s.interpolated.1 > 0 then -s.interpolated.2 else s.interpolated.2)

/-- The interpolated step is taken. -/
def Accepts : Prop :=
  2.0 * s.fraction.1 < Scalar.smaller (3.0 * s.halfway * s.fraction.2 - Scalar.abs (s.resolution * s.fraction.2))
    (Scalar.abs (s.e * s.fraction.2))

theorem choose_of_accepts (hi : s.Interpolates) (ha : s.Accepts) :
    s.choose = { s with e := s.d, d := s.fraction.1 / s.fraction.2 } := by
  unfold choose
  exact (if_pos hi).trans (if_pos ha)

theorem choose_of_not_accepts (h : ¬(s.Interpolates ∧ s.Accepts)) :
    s.choose = { s with d := s.halfway, e := s.halfway } := by
  unfold choose
  dsimp only
  split
  · rename_i hi
    exact if_neg fun ha => h ⟨hi, ha⟩
  · rfl

/-- The divisors of a step are not zero: that of the secant, those of the inverse quadratic interpolation,
    and the denominator of a fraction that is taken. -/
structure DividesByNonzero : Prop where
  secant : s.Interpolates → s.fa ≠ 0
  quadratic : s.Interpolates → s.a ≠ s.c → s.fc ≠ 0
  step : s.Interpolates → s.Accepts → s.fraction.2 ≠ 0

end

section
variable {α : Type} [ScalarField α] [ExactArithmetic α] {s : State α}

theorem resolution_eq (s : State α) : s.resolution = 2 * Scalar.epsilon * |s.b| + Scalar.minPositive := by
  unfold resolution
  rw [ExactArithmetic.two_eq, ExactArithmetic.abs_eq]

theorem resolution_pos (s : State α) : 0 < s.resolution := by
  have hepsilon : (0 : α) < Scalar.epsilon := ExactArithmetic.epsilon_pos
  have hminPositive : (0 : α) < Scalar.minPositive := ExactArithmetic.minPositive_pos
  rw [resolution_eq]
  positivity

theorem two_mul_halfway (s : State α) : 2 * s.halfway = s.c - s.b := by
  unfold halfway
  rw [ExactArithmetic.half_eq]
  ring

/-- A fraction that is taken is short of both limits. -/
theorem Accepts.bounds (h : s.Accepts) :
    2 * s.fraction.1 < 3 * s.halfway * s.fraction.2 - |s.resolution * s.fraction.2| ∧
      2 * s.fraction.1 < |s.e * s.fraction.2| := by
  unfold Accepts at h
  rw [ExactArithmetic.two_eq, ExactArithmetic.three_eq, ExactArithmetic.abs_eq, ExactArithmetic.abs_eq,
    ExactArithmetic.smaller_eq] at h
  exact lt_min_iff.mp h

theorem fraction_nonneg (s : State α) : 0 ≤ s.fraction.1 := by
  unfold fraction
  rw [ExactArithmetic.abs_eq]
  exact abs_nonneg _

theorem Accepts.ne_zero (h : s.Accepts) : s.fraction.2 ≠ 0 := by
  intro hzero
  have hlt := h.bounds.2
  rw [hzero, mul_zero, abs_zero] at hlt
  linarith [s.fraction_nonneg]

/-- The step that is chosen leads towards the other end. -/
theorem toward_choose (s : State α) : Toward s.halfway s.choose.d := by
  by_cases h : s.Interpolates ∧ s.Accepts
  · rw [s.choose_of_accepts h.1 h.2]
    exact toward_fraction s.fraction_nonneg h.2.ne_zero h.2.bounds.1
  · rw [s.choose_of_not_accepts h]
    exact toward_half s.halfway

end

/-! ### Points in their places -/

section
variable {α β : Type} [ScalarField α] {P : Problem α β} {samples : List (α × β)} {s : State α} {x y : α}

/-- The points before they are put in their places: all were asked for, and the sign changes between the
    point before the best one and the end. -/
structure Turns (P : Problem α β) (samples : List (α × β)) (s : State α) : Prop where
  a : P.Known samples s.a s.fa
  b : P.Known samples s.b s.fb
  c : P.Known samples s.c s.fc
  opposite : Opposite s.fa s.fc

/-- The points in their places: unless the best one is a root, the sign changes between it and the end. -/
structure Straddles (P : Problem α β) (samples : List (α × β)) (s : State α) : Prop where
  b : P.Known samples s.b s.fb
  c : P.Known samples s.c s.fc
  opposite : s.fb ≠ 0 → Opposite s.fb s.fc

theorem turns_start {a fa b fb : α} (ha : P.Known samples a fa) (hb : P.Known samples b fb) (h : Opposite fa fb) :
    Turns P samples (start a fa b fb) :=
  ⟨ha, hb, hb, h⟩

theorem Turns.oppose (h : Turns P samples s) : Straddles P samples s.oppose := by
  unfold State.oppose
  split
  · -- The best point has the sign of the end, so the point before it, of the other sign, becomes the end.
    rename_i hsame
    refine ⟨h.b, h.a, fun _ => ?_⟩
    rcases h.opposite with ⟨ha, hc⟩ | ⟨ha, hc⟩
    · rcases hsame with ⟨-, hc'⟩ | ⟨hb, -⟩
      · exact absurd hc' (not_lt.mpr hc.le)
      · exact .inr ⟨hb, ha⟩
    · rcases hsame with ⟨hb, -⟩ | ⟨-, hc'⟩
      · exact .inl ⟨hb, ha⟩
      · exact absurd hc (not_lt.mpr hc'.le)
  · -- The test fails for a best point that is zero too, which is why that is left out.
    rename_i hdifferent
    refine ⟨h.b, h.c, fun hb => ?_⟩
    rcases h.opposite with ⟨-, hc⟩ | ⟨-, hc⟩
    · have hpos : ¬s.fb < 0 := fun hneg => hdifferent (.inr ⟨hneg, hc⟩)
      exact .inl ⟨lt_of_le_of_ne (not_lt.mp hpos) hb.symm, hc⟩
    · have hneg : ¬0 < s.fb := fun hpos => hdifferent (.inl ⟨hpos, hc⟩)
      exact .inr ⟨lt_of_le_of_ne (not_lt.mp hneg) hb, hc⟩

/-- The best point moves on by the step that is chosen, and what was the best one takes part in the change of
    sign. -/
theorem Straddles.advance {more : List (α × β)} (h : Straddles P samples s) (hb : s.fb ≠ 0)
    (hx : P.Known (samples ++ more) x y) : Turns P (samples ++ more) (s.choose.advance x y) := by
  obtain ⟨d, e, heq⟩ := s.choose_eq
  rw [heq]
  exact ⟨h.b.append more, hx, h.c.append more, h.opposite hb⟩

variable [ExactArithmetic α]

theorem Straddles.orient (h : Straddles P samples s) : Straddles P samples s.orient := by
  unfold State.orient
  rw [ExactArithmetic.abs_eq, ExactArithmetic.abs_eq]
  split
  · rename_i hlt
    have hb : s.fb ≠ 0 := abs_pos.mp ((abs_nonneg _).trans_lt hlt)
    exact ⟨h.c, h.b, fun _ => (h.opposite hb).symm⟩
  · exact h

/-- Points that are close to each other enclose the best one. -/
theorem Straddles.encloses (h : Straddles P samples s) (hb : s.fb ≠ 0) (hsmall : |s.halfway| ≤ s.resolution) :
    P.Encloses samples (Brent.resolution s.b) s.b := by
  rw [Brent.resolution_eq, ← resolution_eq]
  have hdist := s.two_mul_halfway
  rcases le_total s.b s.c with hle | hle
  · refine ⟨s.b, s.c, s.fb, s.fc, h.b, h.c, h.opposite hb, le_refl _, hle, ?_⟩
    linarith [le_abs_self s.halfway]
  · refine ⟨s.c, s.b, s.fc, s.fb, h.c, h.b, (h.opposite hb).symm, hle, le_refl _, ?_⟩
    linarith [neg_abs_le s.halfway]

/-- A best point with a small residual, or close to the end, is a root. -/
theorem Straddles.located (h : Straddles P samples s) (hP : P.IsProper)
    (hsettled : Scalar.abs s.fb ≤ P.settings.tolerance ∨ Scalar.abs s.halfway ≤ s.resolution)
    {iterations evaluations : Nat} : P.Located Brent.resolution samples ⟨s.b, iterations, s.fb, evaluations⟩ := by
  rw [ExactArithmetic.abs_eq, ExactArithmetic.abs_eq] at hsettled
  refine ⟨h.b, ?_⟩
  by_cases hclose : |s.fb| ≤ P.settings.tolerance
  · exact .inl hclose
  · exact .inr (h.encloses (hP.ne_zero hclose) (hsettled.resolve_left hclose))

/-- Unless the points are close to each other, the next one lies between them. -/
theorem Straddles.target_inside {left : Nat} (h : Straddles P samples s) (hrecord : P.Record samples left)
    (hwide : s.resolution < |s.halfway|) : P.Inside s.choose.target := by
  have htoward := s.toward_choose
  have hb := hrecord.known_inside h.b
  have hc := hrecord.known_inside h.c
  obtain ⟨d, e, heq⟩ := s.choose_eq
  rw [heq] at htoward ⊢
  unfold target
  refine Toward.inside ?_ hb hc s.two_mul_halfway
  split
  · exact htoward
  · exact toward_withSignOf s.resolution_pos.le hwide

/-- No divisor of a step from a point that is not a root is zero. -/
theorem Straddles.dividesByNonzero (h : Straddles P samples s) (hb : s.fb ≠ 0) : s.DividesByNonzero := by
  refine ⟨fun hi => ?_, fun _ _ => ?_, fun _ ha => ha.ne_zero⟩
  · have hlt := hi.2
    rw [ExactArithmetic.abs_eq, ExactArithmetic.abs_eq] at hlt
    exact abs_pos.mp ((abs_nonneg _).trans_lt hlt)
  · rcases h.opposite hb with ⟨-, hc⟩ | ⟨-, hc⟩
    · exact hc.ne
    · exact hc.ne'

end

end State

/-! ### Runs -/

section
variable {α β : Type} [ScalarField α] {P : Problem α β} {samples : List (α × β)} {left : Nat} {s : State α}

/-- The states at which a narrowing chooses a step when it is run, if `left` evaluations are left. -/
def narrowChoices (P : Problem α β) : (left : Nat) → State α → List (State α)
  | 0, _ => []
  | left + 1, s =>
    let s := s.oppose.orient
    if Scalar.abs s.fb ≤ P.settings.tolerance ∨ Scalar.abs s.halfway ≤ s.resolution then []
    else
      let x := s.choose.target
      s :: match P.read (P.objective x) with
        | some y => narrowChoices P left (s.choose.advance x y)
        | none => []

/-- The points that a narrowing asks for are those that its steps lead to. -/
theorem points_narrow (P : Problem α β) (left : Nat) (s : State α) :
    P.points (narrow P.settings.limit P.settings.tolerance left s) =
      (narrowChoices P left s).map (·.choose.target) := by
  induction left generalizing s with
  | zero =>
    unfold narrow narrowChoices
    dsimp only
    split <;> rfl
  | succ left ih =>
    unfold narrow narrowChoices
    dsimp only
    split
    · rfl
    · cases hv : P.read (P.objective s.oppose.orient.choose.target) with
      | none => exact Problem.points_evaluate_none hv
      | some y =>
        rw [Problem.points_evaluate_some hv, ih]
        rfl

theorem State.iterations_oriented (s : State α) : s.oppose.orient.iterations = s.iterations := by
  unfold orient oppose
  split <;> split <;> rfl

theorem State.iterations_choose (s : State α) : s.choose.iterations = s.iterations := by
  obtain ⟨d, e, heq⟩ := s.choose_eq
  rw [heq]

/-- A root that a narrowing returns counts its steps. -/
theorem iterations_narrow (P : Problem α β) (left : Nat) (s : State α) {r : Root α}
    (hr : ((narrow P.settings.limit P.settings.tolerance left s).run P.objective P.read).result = .ok r) :
    r.iterations = s.iterations + (narrowChoices P left s).length := by
  induction left generalizing s with
  | zero =>
    unfold narrow at hr
    dsimp only at hr
    split at hr
    · cases hr
      exact s.iterations_oriented
    · cases hr
  | succ left ih =>
    unfold narrow at hr
    unfold narrowChoices
    dsimp only at hr ⊢
    split at hr
    · rename_i hsettled
      cases hr
      rw [if_pos hsettled]
      exact s.iterations_oriented
    · rename_i hopen
      rw [if_neg hopen]
      cases hv : P.read (P.objective s.oppose.orient.choose.target) with
      | none =>
        rw [Problem.run_evaluate_none hv] at hr
        cases hr
      | some y =>
        rw [Problem.run_evaluate_some hv] at hr
        rw [ih _ hr, List.length_cons]
        unfold State.advance
        dsimp only
        rw [State.iterations_choose, State.iterations_oriented]
        omega

variable [ExactArithmetic α]

theorem open_of_not_settled (hP : P.IsProper)
    (hopen : ¬(Scalar.abs s.fb ≤ P.settings.tolerance ∨ Scalar.abs s.halfway ≤ s.resolution)) :
    s.fb ≠ 0 ∧ s.resolution < |s.halfway| := by
  rw [ExactArithmetic.abs_eq, ExactArithmetic.abs_eq, not_or] at hopen
  exact ⟨hP.ne_zero hopen.1, not_le.mp hopen.2⟩

/-- Narrowing an interval with a change of sign ends as it may. -/
theorem narrow_ends (hP : P.IsProper) (hrecord : P.Record samples left) (h : s.Turns P samples) :
    P.Ends resolution samples (narrow P.settings.limit P.settings.tolerance left s) := by
  induction left using Nat.strongRecOn generalizing samples s with
  | ind left ih =>
    unfold narrow
    dsimp only
    -- A turn puts the points in their places first, and only then looks at them.
    have h := h.oppose.orient
    split
    · rename_i hsettled
      exact Problem.ends_done hrecord ⟨h.located hP hsettled, hrecord.spent⟩
    · rename_i hopen
      obtain ⟨hb, hwide⟩ := open_of_not_settled hP hopen
      split
      · exact Problem.ends_done hrecord nofun
      · rename_i left
        refine Problem.ends_evaluate hrecord (h.target_inside hrecord hwide) fun y hy hrecord => ?_
        exact ih left left.lt_succ_self hrecord (h.advance hb hy)

/-- Wherever a narrowing chooses a step, it divides by no zero. -/
theorem narrowChoices_divideByNonzero (hP : P.IsProper) (h : s.Turns P samples) :
    ∀ t ∈ narrowChoices P left s, t.DividesByNonzero := by
  induction left generalizing samples s with
  | zero => exact nofun
  | succ left ih =>
    intro t ht
    unfold narrowChoices at ht
    dsimp only at ht
    have h := h.oppose.orient
    split at ht
    · cases ht
    · rename_i hopen
      obtain ⟨hb, -⟩ := open_of_not_settled hP hopen
      rcases List.mem_cons.mp ht with rfl | ht
      · exact h.dividesByNonzero hb
      · split at ht
        · rename_i y hy
          exact ih (h.advance hb (P.known_append samples hy)) t ht
        · cases ht

end

end TermStructure.Brent
