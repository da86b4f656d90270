import TermStructure.Proofs.Market.Jump

/-!
# Moving a jump

What is kept of a jump is its time from one reference date. It is kept for as long as no other reference date is asked
for, and moving the jump is not such a question: so a jump that is moved in between is still answered for at its old
date.
-/

namespace TermStructure.TurnOfYear

/-! ### Uses -/

section
variable {α : Type} {reference : Date} {dayCount : DayCount}

/-- What is done with a jump. -/
inductive Use (α : Type) where
  | move (date : Date)
  | ask (reference : Date) (dayCount : DayCount)
  | apply (quotes : QuoteId → Option α) (t value : α) (reference : Date) (dayCount : DayCount)

/-- The reference date and the day count for which the time of the jump is asked for. -/
def Use.asked? : Use α → Option (Date × DayCount)
  | move _ => none
  | ask reference dayCount | apply _ _ _ reference dayCount => some (reference, dayCount)

/-- The reference date that was asked for last. -/
def lastAsked? (uses : List (Use α)) : Option Date := (uses.filterMap Use.asked?).getLast?.map (·.1)

/-- The last questions in a row that were about one reference date: `opening` is the first of them, after `before`. -/
structure Row (uses before : List (Use α)) (opening : Use α) (run : List (Use α)) (reference : Date)
    (dayCount : DayCount) : Prop where
  split : uses = before ++ opening :: run
  asked : opening.asked? = some (reference, dayCount)
  same : ∀ u ∈ run, ∀ r d, u.asked? = some (r, d) → r = reference
  first : lastAsked? before ≠ some reference

variable {uses before run : List (Use α)} {opening u : Use α}

theorem lastAsked?_append_asked (h : u.asked? = some (reference, dayCount)) :
    lastAsked? (uses ++ [u]) = some reference := by
  simp [lastAsked?, h]

theorem lastAsked?_append_none (h : u.asked? = none) : lastAsked? (uses ++ [u]) = lastAsked? uses := by
  simp [lastAsked?, h]

theorem Row.start (h : lastAsked? uses ≠ some reference) (hu : u.asked? = some (reference, dayCount)) :
    Row (uses ++ [u]) uses u [] reference dayCount where
  split := rfl
  asked := hu
  same _ hv := by cases hv
  first := h

theorem Row.append (h : Row uses before opening run reference dayCount)
    (hu : ∀ r d, u.asked? = some (r, d) → r = reference) :
    Row (uses ++ [u]) before opening (run ++ [u]) reference dayCount := by
  refine ⟨by rw [h.split, List.append_assoc, List.cons_append], h.asked, fun v hv => ?_, h.first⟩
  rcases List.mem_append.mp hv with hv | hv
  · exact h.same v hv
  · rw [List.mem_singleton.mp hv]
    exact hu

end

/-! ### Questions -/

variable {α : Type} [Scalar α] {e : TurnOfYear α} {reference : Date} {dayCount : DayCount} {time : α}

def step (e : TurnOfYear α) : Use α → TurnOfYear α
  | .move date => e.withJumpDate date
  | .ask reference dayCount => (e.jumpTime reference dayCount).2
  | .apply quotes t value reference dayCount => (e.apply quotes t value reference dayCount).2

def after (e : TurnOfYear α) (uses : List (Use α)) : TurnOfYear α := uses.foldl step e

/-- The time of the jump if nothing is kept of it. -/
def StandsAt (e : TurnOfYear α) (reference : Date) (dayCount : DayCount) (time : α) : Prop :=
  ∃ jump, e.jumpDate reference = .ok jump ∧ time = dayCount.yearFraction reference jump

theorem jumpTime_of_kept (h : e.window = some (reference, time)) (dayCount : DayCount) :
    e.jumpTime reference dayCount = (.ok time, e) := by
  have hkept : e.kept? reference = some time := by simp [kept?, h]
  unfold jumpTime
  rw [hkept]

/-- What is not kept is worked out, and kept. -/
theorem jumpTime_of_other (h : ∀ time, e.window ≠ some (reference, time)) (dayCount : DayCount) :
    ∃ time, e.StandsAt reference dayCount time ∧ (e.jumpTime reference dayCount).1 = .ok time ∧
      (e.jumpTime reference dayCount).2.window = some (reference, time) := by
  obtain ⟨jump, hjump, -⟩ := e.exists_jumpDate reference
  have hkept : e.kept? reference = none := by
    unfold kept?
    cases hw : e.window with
    | none => rfl
    | some kept =>
      refine if_neg fun hdate => h kept.2 ?_
      rw [hw, ← hdate]
  refine ⟨dayCount.yearFraction reference jump, ⟨jump, hjump, rfl⟩, ?_⟩
  unfold jumpTime
  rw [hkept, hjump]
  exact ⟨rfl, rfl⟩

/-- The time that is answered is the one that is kept then. -/
theorem jumpTime_of_window (h : (e.jumpTime reference dayCount).2.window = some (reference, time)) :
    (e.jumpTime reference dayCount).1 = .ok time := by
  by_cases hkept : ∃ kept, e.window = some (reference, kept)
  · obtain ⟨kept, hkept⟩ := hkept
    rw [jumpTime_of_kept hkept] at h ⊢
    cases hkept.symm.trans h
    rfl
  · obtain ⟨time', -, htime, hwindow⟩ := jumpTime_of_other (fun kept hk => hkept ⟨kept, hk⟩) dayCount
    cases hwindow.symm.trans h
    exact htime

theorem step_of_asked {u : Use α} (h : u.asked? = some (reference, dayCount)) :
    e.step u = (e.jumpTime reference dayCount).2 := by
  cases u with
  | move date => cases h
  | ask =>
    cases h
    rfl
  | apply =>
    cases h
    exact e.apply_snd ..

theorem after_append (e : TurnOfYear α) (uses : List (Use α)) (u : Use α) :
    e.after (uses ++ [u]) = (e.after uses).step u := List.foldl_append

/-- What is kept after uses: nothing before the first question, and then the time of the jump as it stood when the last
    row of questions was opened. -/
structure Keeps (e : TurnOfYear α) (uses : List (Use α)) : Prop where
  unasked : lastAsked? uses = none → (e.after uses).window = none
  asked : ∀ reference, lastAsked? uses = some reference → ∃ before opening run dayCount time,
    Row uses before opening run reference dayCount ∧ (e.after before).StandsAt reference dayCount time ∧
      (e.after uses).window = some (reference, time)

namespace Keeps

variable {uses : List (Use α)} {u : Use α}

theorem lastAsked?_eq (h : e.Keeps uses) (hw : (e.after uses).window = some (reference, time)) :
    lastAsked? uses = some reference := by
  cases hlast : lastAsked? uses with
  | none =>
    rw [h.unasked hlast] at hw
    cases hw
  | some last =>
    obtain ⟨_, _, _, _, _, -, -, hkept⟩ := h.asked last hlast
    cases hkept.symm.trans hw
    rfl

theorem append_move (h : e.Keeps uses) (hu : u.asked? = none) : e.Keeps (uses ++ [u]) := by
  have hwindow : (e.after (uses ++ [u])).window = (e.after uses).window := by
    rw [after_append]
    cases u with
    | move date => rfl
    | _ => cases hu
  refine ⟨fun hlast => ?_, fun reference hlast => ?_⟩ <;> rw [lastAsked?_append_none hu] at hlast <;> rw [hwindow]
  · exact h.unasked hlast
  · obtain ⟨before, opening, run, dayCount, time, hrow, hstands, hkept⟩ := h.asked reference hlast
    exact ⟨before, opening, run ++ [u], dayCount, time, hrow.append (by simp [hu]), hstands, hkept⟩

theorem append_asked (h : e.Keeps uses) (hu : u.asked? = some (reference, dayCount)) : e.Keeps (uses ++ [u]) := by
  have hlast : lastAsked? (uses ++ [u]) = some reference := lastAsked?_append_asked hu
  refine ⟨fun hnone => (by cases hnone.symm.trans hlast), fun reference' hlast' => ?_⟩
  obtain rfl : reference = reference' := Option.some.inj (hlast.symm.trans hlast')
  rw [after_append, step_of_asked hu]
  by_cases hsame : lastAsked? uses = some reference
  · -- The question goes on with the row before it, and is answered by what is kept.
    obtain ⟨before, opening, run, dayCount', time, hrow, hstands, hkept⟩ := h.asked reference hsame
    rw [jumpTime_of_kept hkept]
    refine ⟨before, opening, run ++ [u], dayCount', time, hrow.append fun r d hrd => ?_, hstands, hkept⟩
    cases hu.symm.trans hrd
    rfl
  · obtain ⟨time, hstands, -, hwindow⟩ := jumpTime_of_other (fun _ hw => hsame (h.lastAsked?_eq hw)) dayCount
    exact ⟨uses, u, [], dayCount, time, .start hsame hu, hstands, hwindow⟩

end Keeps

/-- One use after another keeps to this. -/
theorem keeps_after (hfresh : e.window = none) (uses : List (Use α)) : e.Keeps uses := by
  induction uses using List.reverseRecOn with
  | nil => exact ⟨fun _ => hfresh, fun _ hlast => by cases hlast⟩
  | append_singleton uses u ih =>
    cases hu : u.asked? with
    | none => exact ih.append_move hu
    | some question => exact ih.append_asked hu

/-! ### Answers -/

theorem jumpTime_same (e : TurnOfYear α) (reference : Date) (dayCount : DayCount) :
    (e.jumpTime reference dayCount).2.quote = e.quote ∧ (e.jumpTime reference dayCount).2.given = e.given := by
  unfold jumpTime
  split
  · exact ⟨rfl, rfl⟩
  · split <;> exact ⟨rfl, rfl⟩

theorem quote_step (e : TurnOfYear α) (u : Use α) : (e.step u).quote = e.quote := by
  cases hu : u.asked? with
  | some question =>
    rw [step_of_asked hu]
    exact (e.jumpTime_same _ _).1
  | none =>
    cases u with
    | move date => rfl
    | _ => cases hu

theorem given_step (e : TurnOfYear α) {u : Use α} (h : ∀ date, u ≠ .move date) : (e.step u).given = e.given := by
  cases hu : u.asked? with
  | some question =>
    rw [step_of_asked hu]
    exact (e.jumpTime_same _ _).2
  | none =>
    cases u with
    | move date => exact absurd rfl (h date)
    | _ => cases hu

theorem quote_after (e : TurnOfYear α) (uses : List (Use α)) : (e.after uses).quote = e.quote := by
  induction uses generalizing e with
  | nil => rfl
  | cons u rest ih => exact (ih (e.step u)).trans (e.quote_step u)

/-- Questions do not move the jump. -/
theorem given_after (e : TurnOfYear α) {uses : List (Use α)} (h : ∀ date, .move date ∉ uses) :
    (e.after uses).given = e.given := by
  induction uses generalizing e with
  | nil => rfl
  | cons u rest ih =>
    have hrest : ∀ date, .move date ∉ rest := fun date hmem => h date (List.mem_cons_of_mem u hmem)
    have hfirst : ∀ date, u ≠ .move date := by
      rintro date rfl
      exact h date List.mem_cons_self
    exact (ih (e.step u) hrest).trans (e.given_step hfirst)

/-- If the jump was not moved within a row of questions, it is where it was before. -/
theorem Row.given_after {uses before run : List (Use α)} {opening : Use α}
    (h : Row uses before opening run reference dayCount) (e : TurnOfYear α) (hunmoved : ∀ date, .move date ∉ run) :
    (e.after uses).given = (e.after before).given := by
  have hrow : ∀ date, .move date ∉ opening :: run := by
    intro date hmem
    rcases List.mem_cons.mp hmem with rfl | hmem
    · cases h.asked
    · exact hunmoved date hmem
  have hsplit : e.after uses = (e.after before).after (opening :: run) := by
    rw [h.split]
    exact List.foldl_append
  rw [hsplit, TurnOfYear.given_after _ hrow]

/-- A value is multiplied by the factor just after the time of the jump. -/
theorem apply_of_jumpTime (h : (e.jumpTime reference dayCount).1 = .ok time) (quotes : QuoteId → Option α)
    (t value : α) :
    (e.apply quotes t value reference dayCount).1
      = if t > time then (e.factor quotes).map (value * ·) else .ok value := by
  have hfactor : (e.jumpTime reference dayCount).2.factor quotes = e.factor quotes := by
    unfold factor
    rw [(e.jumpTime_same reference dayCount).1]
  unfold apply
  rw [← hfactor]
  generalize e.jumpTime reference dayCount = answer at *
  obtain ⟨result, e'⟩ := answer
  cases h
  rfl

/-- However a jump was moved and asked for, an answer has it at the time at which it stood when the last row of
    questions about the reference date was opened, with the day count of that question. So the answer is right unless the
    jump was moved, or asked for with another day count, since then. Values are multiplied by the factor at times after
    the one that is answered, and at no others. -/
theorem jump_answers (hfresh : e.window = none) (uses : List (Use α)) (reference : Date) (dayCount : DayCount) :
    ∃ before opening run dayCount' time,
      Row (uses ++ [.ask reference dayCount]) before opening run reference dayCount' ∧
      (e.after before).StandsAt reference dayCount' time ∧
      ((e.after uses).jumpTime reference dayCount).1 = .ok time ∧
      (∀ quotes t value, ((e.after uses).apply quotes t value reference dayCount).1
        = if t > time then (e.factor quotes).map (value * ·) else .ok value) ∧
      (dayCount' = dayCount → (∀ date, .move date ∉ run) → (e.after uses).StandsAt reference dayCount time) := by
  have hask : (Use.ask reference dayCount : Use α).asked? = some (reference, dayCount) := rfl
  obtain ⟨before, opening, run, dayCount', time, hrow, hstands, hwindow⟩ :=
    (keeps_after hfresh (uses ++ [.ask reference dayCount])).asked reference (lastAsked?_append_asked hask)
  rw [after_append] at hwindow
  have htime : ((e.after uses).jumpTime reference dayCount).1 = .ok time := jumpTime_of_window hwindow
  refine ⟨before, opening, run, dayCount', time, hrow, hstands, htime, fun quotes t value => ?_, ?_⟩
  · have hfactor : (e.after uses).factor quotes = e.factor quotes := by
      unfold factor
      rw [quote_after]
    rw [apply_of_jumpTime htime, hfactor]
  · rintro rfl hunmoved
    have hgiven : (e.after uses).given = (e.after before).given := by
      rw [← hrow.given_after e hunmoved, after_append, given_step]
      rintro date ⟨⟩
    obtain ⟨jump, hjump, htime⟩ := hstands
    refine ⟨jump, ?_, htime⟩
    rw [← hjump]
    unfold jumpDate
    rw [hgiven]

/-- A jump at the end of the year. -/
def yearEnd : TurnOfYear ℚ := { quote := 0 }

/-- It is asked for and then moved to the middle of the year. -/
def movedUses : List (Use ℚ) := [.ask (.newYear 2025) .act365Fixed, .move ⟨2025, 6, 30, by decide⟩]

/-- The jump that was moved is still at the end of the year, so a value in between is not multiplied. -/
theorem jump_answers_moved :
    ((yearEnd.after movedUses).jumpTime (.newYear 2025) .act365Fixed).1 = .ok (364 / 365) ∧
      ¬(yearEnd.after movedUses).StandsAt (.newYear 2025) .act365Fixed (364 / 365) ∧
      (yearEnd.after movedUses).StandsAt (.newYear 2025) .act365Fixed (180 / 365) ∧
      ((yearEnd.after movedUses).apply (fun _ => some (1 / 2)) (3 / 4) 1 (.newYear 2025) .act365Fixed).1 = .ok 1 := by
  obtain ⟨-, -, -, -, time, -, -, htime, happly, -⟩ :=
    jump_answers (e := yearEnd) rfl movedUses (.newYear 2025) .act365Fixed
  have hkept : ((yearEnd.after movedUses).jumpTime (.newYear 2025) .act365Fixed).1.toOption = some (364 / 365) := by
    decide +kernel
  have hdate : (yearEnd.after movedUses).jumpDate (.newYear 2025) = .ok ⟨2025, 6, 30, by decide⟩ := rfl
  have hstands : (DayCount.act365Fixed.yearFraction (.newYear 2025) ⟨2025, 6, 30, by decide⟩ : ℚ) = 180 / 365 := by
    decide +kernel
  rw [htime] at hkept
  obtain rfl : time = 364 / 365 := Option.some.inj hkept
  refine ⟨htime, ?_, ⟨_, hdate, hstands.symm⟩, (happly _ _ _).trans (if_neg (by norm_num))⟩
  rintro ⟨jump, hjump, hmoved⟩
  cases hdate.symm.trans hjump
  rw [hstands] at hmoved
  norm_num at hmoved

end TermStructure.TurnOfYear
