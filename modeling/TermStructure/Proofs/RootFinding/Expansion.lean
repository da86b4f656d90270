import TermStructure.Proofs.RootFinding.Narrowing

/-!
# Expansion

Whatever its growth, the outward search asks within the interval only, since a point that would lie outside
is moved to the end. It hands on to the narrowing what it has seen a change of sign between.
-/

namespace TermStructure

theorem Bracket.nearest_mem {α : Type} [ScalarField α] {b : Bracket α} (h : b.lower ≤ b.upper) (x : α) :
    b.lower ≤ b.nearest x ∧ b.nearest x ≤ b.upper := by
  unfold nearest Scalar.nearest
  split
  · exact ⟨le_refl _, h⟩
  · rename_i hlow
    split
    · exact ⟨h, le_refl _⟩
    · rename_i hhigh
      exact ⟨not_lt.mp hlow, not_lt.mp hhigh⟩

theorem Bracket.nearest_point {α : Type} [ScalarField α] {b : Bracket α} (h : b.upper = b.lower) (x : α) :
    b.nearest x = b.lower := by
  obtain ⟨hlow, hhigh⟩ := Bracket.nearest_mem h.ge x
  exact le_antisymm (hhigh.trans h.le) hlow

/-- In an interval with its ends in order there is always a point to go on from. -/
theorem Search.reach_clamp? {α : Type} [Scalar α] {within : Bracket α} (h : within.lower ≤ within.upper) (x : α)
    (next : α → Search α) : reach within (within.clamp? x) next = next (within.nearest x) := by
  rw [Bracket.clamp?_of_le h]
  rfl

namespace Brent
open Problem (Opposite opposite_iff)

/-- Where a search starts in an interval with its ends in order. -/
def origin {α : Type} [Scalar α] (within : Bracket α) (guess : α) : α :=
  if Scalar.isFinite guess then within.nearest guess else within.midpoint

theorem reach_origin? {α : Type} [Scalar α] {within : Bracket α} (h : within.lower ≤ within.upper) (guess : α)
    (next : α → Search α) : Search.reach within (origin? within guess) next = next (origin within guess) := by
  unfold origin? origin
  split
  · exact Search.reach_clamp? h guess next
  · rfl

/-- Where the ends of the interval are not in order, a search from a finite guess breaks off before it asks for
    anything. -/
theorem run_of_disordered {α β : Type} [Scalar α] {P : Problem α β} (p : Brent α)
    (h : ¬P.within.lower ≤ P.within.upper) {guess : α} (hguess : Scalar.isFinite guess = true) :
    P.run p.finder guess = ⟨[], .error (.disordered P.within.lower P.within.upper)⟩ := by
  change (p.search guess P.within P.settings).run P.objective P.read = _
  unfold search origin?
  rw [if_pos hguess, Bracket.clamp?_of_not_le h]
  rfl

theorem exists_of_mem_elim {α : Type} {s : State α} {point : Option α} {choices : α → List (State α)}
    (h : s ∈ point.elim [] choices) : ∃ x, s ∈ choices x := by
  cases point with
  | none => cases h
  | some x => exact ⟨x, h⟩

section
variable {α β : Type} [ScalarField α]

/-! ### Choices -/

/-- The states at which a search chooses a step when it is run on from an interval that grows. -/
def expandChoices (p : Brent α) (P : Problem α β) : (left : Nat) → (a fa b fb : α) → List (State α)
  | left, a, fa, b, fb =>
    if Scalar.abs fa ≤ P.settings.tolerance then []
    else if Scalar.abs fb ≤ P.settings.tolerance then []
    else if fa * fb < 0 then narrowChoices P left (.start a fa b fb)
    else if a ≤ P.within.lower ∧ b ≥ P.within.upper then []
    else
      match left with
      | 0 => []
      | left + 1 =>
        if expandsLower P.within a fa b fb then
          (P.within.clamp? (a + p.growth * (a - b))).elim [] fun a =>
            match P.read (P.objective a) with
            | some fa => p.expandChoices P left a fa b fb
            | none => []
        else
          (P.within.clamp? (b + p.growth * (b - a))).elim [] fun b =>
            match P.read (P.objective b) with
            | some fb => p.expandChoices P left a fa b fb
            | none => []

/-- The states at which a search from a guess chooses a step of Brent's method when it is run. -/
def choices (p : Brent α) (P : Problem α β) (guess : α) : List (State α) :=
  let step := p.step P.within
  (origin? P.within guess).elim [] fun x =>
    match P.read (P.objective x) with
    | none => []
    | some fx =>
      if Scalar.abs fx ≤ P.settings.tolerance then []
      else if x - step < P.within.lower then
        (P.within.clamp? (x + step)).elim [] fun b =>
          match P.read (P.objective b) with
          | some fb => p.expandChoices P (P.settings.limit - 2) x fx b fb
          | none => []
      else
        let a := x - step
        match P.read (P.objective a) with
        | some fa => p.expandChoices P (P.settings.limit - 2) a fa x fx
        | none => []

/-- The steps of a search are chosen at some states in order: they lead to the points that it asks for at last,
    and a root that it returns counts them. -/
structure Steps (P : Problem α β) (t : Search α) (choices : List (State α)) : Prop where
  points : choices.map (·.choose.target) <:+ P.points t
  iterations : ∀ r, (t.run P.objective P.read).result = .ok r → r.iterations = choices.length

section
variable {P : Problem α β} {x y : α} {next : α → Search α}

theorem steps_error (e : NumericError α) : Steps P (.done (.error e)) [] :=
  ⟨List.nil_suffix, nofun⟩

theorem steps_ok (x y : α) (evaluations : Nat) : Steps P (.done (.ok ⟨x, 0, y, evaluations⟩)) [] := by
  refine ⟨List.nil_suffix, fun r hr => ?_⟩
  cases hr
  rfl

theorem steps_evaluate_none (hy : P.read (P.objective x) = none) : Steps P (.evaluate x next) [] := by
  refine ⟨List.nil_suffix, fun r hr => ?_⟩
  rw [Problem.run_evaluate_none hy] at hr
  cases hr

/-- A point that a search asks for before takes no step. -/
theorem Steps.evaluate {choices : List (State α)} (h : Steps P (next y) choices)
    (hy : P.read (P.objective x) = some y) : Steps P (.evaluate x next) choices := by
  refine ⟨?_, fun r hr => ?_⟩
  · rw [Problem.points_evaluate_some hy]
    exact h.points.trans (List.suffix_cons _ _)
  · rw [Problem.run_evaluate_some hy] at hr
    exact h.iterations r hr

/-- A search that goes on from a point takes the steps it takes from there, and none if there is no such point. -/
theorem Steps.reach {within : Bracket α} {point : Option α} {choices : α → List (State α)}
    (h : ∀ x, Steps P (next x) (choices x)) : Steps P (.reach within point next) (point.elim [] choices) := by
  cases point with
  | none => exact steps_error _
  | some x => exact h x

end

theorem steps_expand (p : Brent α) (P : Problem α β) (left : Nat) (a fa b fb : α) :
    Steps P (p.expand P.within P.settings.limit P.settings.tolerance left a fa b fb)
      (p.expandChoices P left a fa b fb) := by
  induction left using Nat.strongRecOn generalizing a fa b fb with
  | ind left ih =>
    unfold expandChoices expand
    split
    · exact steps_ok _ _ _
    split
    · exact steps_ok _ _ _
    split
    · refine ⟨by rw [points_narrow], fun r hr => ?_⟩
      exact (iterations_narrow P left _ hr).trans (Nat.zero_add _)
    split
    · exact steps_error _
    split
    · exact steps_error _
    · rename_i left
      split
      · refine Steps.reach fun a => ?_
        split
        · rename_i fa hfa
          refine Steps.evaluate ?_ hfa
          exact ih left left.lt_succ_self _ fa _ _
        · rename_i hnone
          exact steps_evaluate_none hnone
      · refine Steps.reach fun b => ?_
        split
        · rename_i fb hfb
          refine Steps.evaluate ?_ hfb
          exact ih left left.lt_succ_self _ _ _ fb
        · rename_i hnone
          exact steps_evaluate_none hnone

/-- The choices of a search are those of the steps it takes by Brent's method. -/
theorem steps_search (p : Brent α) (P : Problem α β) (guess : α) :
    Steps P (p.search guess P.within P.settings) (p.choices P guess) := by
  unfold choices search
  dsimp only
  refine Steps.reach fun x => ?_
  cases hx : P.read (P.objective x) with
  | none => exact steps_evaluate_none hx
  | some fx =>
    refine Steps.evaluate ?_ hx
    dsimp only
    split
    · exact steps_ok _ _ _
    split
    · refine Steps.reach fun b => ?_
      split
      · rename_i fb hfb
        refine Steps.evaluate ?_ hfb
        exact p.steps_expand P _ _ _ _ _
      · rename_i hnone
        exact steps_evaluate_none hnone
    · split
      · rename_i fa hfa
        refine Steps.evaluate ?_ hfa
        exact p.steps_expand P _ _ _ _ _
      · rename_i hnone
        exact steps_evaluate_none hnone

end

section
variable {α β : Type} [ScalarField α] [ExactArithmetic α] {P : Problem α β} {samples : List (α × β)} {left : Nat}
  {a fa b fb : α}

/-- The outward search ends as it may, whatever the growth. -/
theorem expand_ends (hP : P.IsProper) (p : Brent α) (hrecord : P.Record samples left) (ha : P.Known samples a fa)
    (hb : P.Known samples b fb) :
    P.Ends resolution samples (p.expand P.within P.settings.limit P.settings.tolerance left a fa b fb) := by
  have hnearest (x : α) : P.Inside (P.within.nearest x) := Bracket.nearest_mem hP.lower_lt_upper.le x
  induction left using Nat.strongRecOn generalizing samples a fa b fb with
  | ind left ih =>
    unfold expand
    rw [ExactArithmetic.abs_eq, ExactArithmetic.abs_eq]
    split
    · rename_i hclose
      exact Problem.ends_done hrecord (Problem.concludes_of_le ha hclose 0 hrecord.spent)
    split
    · rename_i hclose
      exact Problem.ends_done hrecord (Problem.concludes_of_le hb hclose 0 hrecord.spent)
    split
    · rename_i hsign
      exact narrow_ends hP hrecord (State.turns_start ha hb (opposite_iff.mpr hsign))
    split
    · exact Problem.ends_done hrecord nofun
    -- The ends are apart from those of the interval, so one of them moves, if there is budget left.
    split
    · exact Problem.ends_done hrecord nofun
    · rename_i left
      rw [Search.reach_clamp? hP.lower_lt_upper.le, Search.reach_clamp? hP.lower_lt_upper.le]
      split
      · refine Problem.ends_evaluate hrecord (hnearest _) fun fa ha hrecord => ?_
        exact ih left left.lt_succ_self hrecord ha (hb.append _)
      · refine Problem.ends_evaluate hrecord (hnearest _) fun fb hb hrecord => ?_
        exact ih left left.lt_succ_self hrecord (ha.append _) hb

theorem expandChoices_divideByNonzero (hP : P.IsProper) (p : Brent α) (ha : P.Known samples a fa)
    (hb : P.Known samples b fb) : ∀ t ∈ p.expandChoices P left a fa b fb, t.DividesByNonzero := by
  induction left using Nat.strongRecOn generalizing samples a fa b fb with
  | ind left ih =>
    intro t ht
    unfold expandChoices at ht
    split at ht
    · cases ht
    split at ht
    · cases ht
    split at ht
    · rename_i hsign
      exact narrowChoices_divideByNonzero hP (State.turns_start ha hb (opposite_iff.mpr hsign)) t ht
    split at ht
    · cases ht
    split at ht
    · cases ht
    · rename_i left
      split at ht
      · obtain ⟨a, ht⟩ := exists_of_mem_elim ht
        split at ht
        · rename_i fa hfa
          exact ih left left.lt_succ_self (P.known_append samples hfa) (hb.append _) t ht
        · cases ht
      · obtain ⟨b, ht⟩ := exists_of_mem_elim ht
        split at ht
        · rename_i fb hfb
          exact ih left left.lt_succ_self (ha.append _) (P.known_append samples hfb) t ht
        · cases ht

/-- Wherever a search chooses a step of Brent's method, it divides by no zero. -/
theorem choices_divideByNonzero (hP : P.IsProper) (p : Brent α) (guess : α) :
    ∀ t ∈ p.choices P guess, t.DividesByNonzero := by
  intro t ht
  unfold choices at ht
  dsimp only at ht
  obtain ⟨x, ht⟩ := exists_of_mem_elim ht
  split at ht
  · cases ht
  · rename_i fx hfx
    have hx := P.known_append [] hfx
    split at ht
    · cases ht
    split at ht
    · obtain ⟨b, ht⟩ := exists_of_mem_elim ht
      split at ht
      · rename_i fb hfb
        exact expandChoices_divideByNonzero hP p (hx.append _) (P.known_append _ hfb) t ht
      · cases ht
    · split at ht
      · rename_i fa hfa
        exact expandChoices_divideByNonzero hP p (P.known_append _ hfa) (hx.append _) t ht
      · cases ht

theorem origin_mem {within : Bracket α} (h : within.lower < within.upper) (guess : α) :
    within.lower ≤ origin within guess ∧ origin within guess ≤ within.upper := by
  unfold origin
  split
  · exact Bracket.nearest_mem h.le guess
  · unfold Bracket.midpoint
    rw [ExactArithmetic.half_eq]
    exact ⟨by linarith, by linarith⟩

theorem step_pos (p : Brent α) (within : Bracket α) : 0 < p.step within := by
  unfold step
  rw [ExactArithmetic.larger_eq]
  exact lt_max_of_lt_right ExactArithmetic.epsilon_pos

theorem search_ends (hP : P.IsProper) (p : Brent α) (guess : α) :
    P.Ends resolution [] (p.search guess P.within P.settings) := by
  have hx : P.Inside (origin P.within guess) := origin_mem hP.lower_lt_upper guess
  have hstep := p.step_pos P.within
  unfold search
  dsimp only
  rw [reach_origin? hP.lower_lt_upper.le]
  generalize origin P.within guess = x at hx ⊢
  refine Problem.ends_evaluate P.record_nil hx fun fx hfx hrecord => ?_
  rw [ExactArithmetic.abs_eq]
  split
  · rename_i hclose
    exact Problem.ends_done hrecord (Problem.concludes_of_le hfx hclose 0 rfl)
  · rw [Search.reach_clamp? hP.lower_lt_upper.le]
    split
    · have hinside : P.Inside (P.within.nearest (x + p.step P.within)) := Bracket.nearest_mem hP.lower_lt_upper.le _
      refine Problem.ends_evaluate hrecord hinside fun fb hfb hrecord => ?_
      exact expand_ends hP p hrecord (hfx.append _) hfb
    · rename_i hlow
      have hinside : P.Inside (x - p.step P.within) := ⟨not_lt.mp hlow, by linarith [hx.2]⟩
      refine Problem.ends_evaluate hrecord hinside fun fa hfa hrecord => ?_
      exact expand_ends hP p hrecord hfa (hfx.append _)

end

end Brent

end TermStructure
