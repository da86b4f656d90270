import TermStructure.Proofs.Bootstrap.Failures

/-!
# Retries

How often a search at a pillar is made again. That happens at most twice: once on a curve that answers beyond its
nodes, after a read there was refused, and once on a wider interval, after a search that failed although the objective
had a value wherever it was asked.
-/

namespace TermStructure

variable {α : Type}

/-! ### One search -/

namespace Attempt

/-- The objective had a value wherever it was asked. -/
def Unbroken (a : Attempt α) : Prop := ∀ s ∈ a.run.samples, ∃ y, s.2 = .ok y

theorem firstError?_eq_none {a : Attempt α} : a.firstError? = none ↔ a.Unbroken := by
  unfold firstError? Unbroken
  rw [List.findSome?_eq_none_iff]
  refine forall₂_congr fun s _ => ?_
  obtain ⟨x, answer⟩ := s
  cases answer with
  | ok y => exact iff_of_true rfl ⟨y, rfl⟩
  | error e => exact iff_of_false nofun nofun

/-- The next search is on a curve that answers beyond its nodes, as the first error of this one was that a read there was
    refused. -/
structure Relaxes (a b : Attempt α) : Prop where
  refused : ∃ t low high, a.firstError? = some (.extrapolation t low high)
  off : a.extrapolates = false
  on : b.extrapolates = true
  bracket : b.bracket = a.bracket

end Attempt

/-- The searches that follow each other. -/
def PillarSolve.steps (s : PillarSolve α) : List (Attempt α × Attempt α) := s.attempts.zip s.attempts.tail

/-- No two searches that follow each other do so for this reason. -/
def PillarSolve.AtMostOnce (s : PillarSolve α) (R : Attempt α → Attempt α → Prop) : Prop :=
  s.steps.Pairwise fun p q => ¬(R p.1 p.2 ∧ R q.1 q.2)

variable [Scalar α]

theorem NumericError.isSearchFailure_iff {e : NumericError α} :
    e.isSearchFailure = true ↔ ∃ residual, e.lastResidual? = some residual := by
  cases e with
  | convergenceFailed => exact iff_of_true rfl ⟨_, rfl⟩
  | invalidBracket => exact iff_of_true rfl ⟨_, rfl⟩
  | _ => exact iff_of_false nofun nofun

/-! ### One pillar -/

namespace PillarSite

/-- The first interval after it was widened, within the limits of the kind. -/
def widened (site : PillarSite α) : Bracket α :=
  (site.bracket.widen site.plan.config.bracketWidening).restrict site.plan.frame.kind.domain.1
    site.plan.frame.kind.domain.2

/-- The next search is on the wider interval, as this one on the first failed although the objective had a value
    wherever it was asked. -/
structure Widens (site : PillarSite α) (a b : Attempt α) : Prop where
  unbroken : a.Unbroken
  failed : ∃ e, a.run.result = .error e ∧ e.isSearchFailure = true
  first : a.bracket = site.bracket
  wider : b.bracket = site.widened
  extrapolates : b.extrapolates = a.extrapolates

/-- What the last search comes to: its root, or an error. That the pillar failed is reported only on the wider interval,
    and only if `Replaced`. -/
inductive Ends (site : PillarSite α) (Replaced : Prop) (a : Attempt α) : Except (CurveError α) α → Prop where
  | found {r : Root α} (unbroken : a.Unbroken) (result : a.run.result = .ok r) : Ends site Replaced a (.ok r.root)
  | failed {e : NumericError α} {residual : α} (unbroken : a.Unbroken) (result : a.run.result = .error e)
      (failure : e.isSearchFailure = true) (told : e.lastResidual? = some residual) (wider : a.bracket = site.widened)
      (replaced : Replaced) : Ends site Replaced a (.error (.pillarFailure site.index residual))
  | rootFind {e : NumericError α} (unbroken : a.Unbroken) (result : a.run.result = .error e)
      (other : e.isSearchFailure = false) : Ends site Replaced a (.error (.rootFind site.index e))
  | interpolation {i : Nat} {source : NumericError α} (first : a.firstError? = some (.interpolation i source)) :
      Ends site Replaced a (.error (.interpolation i source))
  | helper {e : CurveError α} (first : a.firstError? = some e) (other : ∀ i source, e ≠ .interpolation i source)
      (relaxed : e.IsExtrapolation → a.extrapolates = true) : Ends site Replaced a (.error (.helper site.index e))

/-- The interval at a stage of the searches. -/
def stage (site : PillarSite α) (widened : Bool) : Bracket α := if widened then site.widened else site.bracket

/-- The searches from a stage on, where reads beyond the nodes may be answered and the interval may be replaced already:
    each follows the one before for one of two reasons, neither of which comes up again, and the last one decides. -/
structure Proceeds (site : PillarSite α) (guess : α) (extrapolates widened : Bool) (s : PillarSolve α) : Prop where
  count : s.attempts.length ≤ 1 + (if extrapolates then 0 else 1) + (if widened then 0 else 1)
  first : s.attempts.head? = some (site.attempt guess (site.stage widened) extrapolates)
  searched : ∀ a ∈ s.attempts, a = site.attempt guess a.bracket a.extrapolates
  retried : ∀ p ∈ s.steps, p.1.Relaxes p.2 ∨ site.Widens p.1 p.2
  relaxes : ∀ p ∈ s.steps, p.1.Relaxes p.2 → extrapolates = false
  widens : ∀ p ∈ s.steps, site.Widens p.1 p.2 → widened = false
  relaxed_once : s.AtMostOnce Attempt.Relaxes
  widened_once : s.AtMostOnce site.Widens
  ended : ∃ a, s.attempts.getLast? = some a ∧
    site.Ends (widened = true ∨ ∃ p ∈ s.steps, site.Widens p.1 p.2) a s.result

/-- Why a search is made again, and the stage before and after. -/
inductive Again (site : PillarSite α) (a b : Attempt α) : (extrapolates widened : Bool) → Bool → Bool → Prop where
  | relaxes {widened : Bool} (step : a.Relaxes b) : Again site a b false widened true widened
  | widens {extrapolates : Bool} (step : site.Widens a b) : Again site a b extrapolates false extrapolates true

variable {site : PillarSite α} {guess : α} {extrapolates widened extrapolates' widened' : Bool} {s : PillarSolve α}
  {a b : Attempt α} {bracket : Bracket α}

theorem Ends.imp {P Q : Prop} {result : Except (CurveError α) α} (h : site.Ends P a result) (hPQ : P → Q) :
    site.Ends Q a result := by
  cases h with
  | found unbroken result => exact .found unbroken result
  | failed unbroken result failure told wider replaced =>
    exact .failed unbroken result failure told wider (hPQ replaced)
  | rootFind unbroken result other => exact .rootFind unbroken result other
  | interpolation first => exact .interpolation first
  | helper first other relaxed => exact .helper first other relaxed

theorem Widens.not_relaxes (h : site.Widens a b) : ¬a.Relaxes b := by
  intro hrelaxes
  have hon := h.extrapolates.symm.trans hrelaxes.on
  rw [hrelaxes.off] at hon
  cases hon

omit [Scalar α] in
theorem exists_attempts (h : s.attempts.head? = some b) : ∃ rest, s.attempts = b :: rest := by
  obtain ⟨attempts, result⟩ := s
  cases attempts with
  | nil => cases h
  | cons first rest =>
    cases h
    exact ⟨rest, rfl⟩

omit [Scalar α] in
theorem steps_after (h : s.attempts.head? = some b) (a : Attempt α) : (s.after a).steps = (a, b) :: s.steps := by
  obtain ⟨rest, hrest⟩ := exists_attempts h
  unfold PillarSolve.steps PillarSolve.after
  rw [hrest]
  rfl

omit [Scalar α] in
theorem atMostOnce_after (h : s.attempts.head? = some b) {R : Attempt α → Attempt α → Prop} :
    (s.after a).AtMostOnce R ↔ (∀ q ∈ s.steps, ¬(R a b ∧ R q.1 q.2)) ∧ s.AtMostOnce R := by
  unfold PillarSolve.AtMostOnce
  rw [steps_after h, List.pairwise_cons]

/-- A search is followed by others: none of these follows the one before for the reason for which the first of them
    follows it. -/
theorem Proceeds.after (h : site.Proceeds guess extrapolates' widened' s)
    (hagain : site.Again (site.attempt guess (site.stage widened) extrapolates)
      (site.attempt guess (site.stage widened') extrapolates') extrapolates widened extrapolates' widened') :
    site.Proceeds guess extrapolates widened (s.after (site.attempt guess (site.stage widened) extrapolates)) := by
  have hsteps := steps_after h.first (site.attempt guess (site.stage widened) extrapolates)
  obtain ⟨last, hlast, hends⟩ := h.ended
  have hgetLast : (s.after (site.attempt guess (site.stage widened) extrapolates)).attempts.getLast? = some last := by
    obtain ⟨rest, hrest⟩ := exists_attempts h.first
    rw [PillarSolve.after, hrest, List.getLast?_cons_cons, ← hrest]
    exact hlast
  have hsearched : ∀ a ∈ (s.after (site.attempt guess (site.stage widened) extrapolates)).attempts,
      a = site.attempt guess a.bracket a.extrapolates := by
    intro a ha
    rcases List.mem_cons.mp ha with rfl | ha
    · rfl
    · exact h.searched a ha
  have hcount := h.count
  cases hagain with
  | relaxes step =>
    refine ⟨?_, rfl, hsearched, ?_, fun _ _ _ => rfl, ?_, ?_, ?_, last, hgetLast, hends.imp ?_⟩
    · rw [PillarSolve.after, List.length_cons]
      simp only [if_true, Bool.false_eq_true, if_false] at hcount ⊢
      omega
    · rw [hsteps, List.forall_mem_cons]
      exact ⟨.inl step, h.retried⟩
    · rw [hsteps, List.forall_mem_cons]
      exact ⟨fun hwidens => absurd step hwidens.not_relaxes, h.widens⟩
    · exact (atMostOnce_after h.first).mpr ⟨fun q hq hboth => (nomatch h.relaxes q hq hboth.2), h.relaxed_once⟩
    · exact (atMostOnce_after h.first).mpr ⟨fun q _ hboth => hboth.1.not_relaxes step, h.widened_once⟩
    · rw [hsteps]
      exact Or.imp_right fun ⟨p, hp, hwidens⟩ => ⟨p, List.mem_cons_of_mem _ hp, hwidens⟩
  | widens step =>
    refine ⟨?_, rfl, hsearched, ?_, ?_, fun _ _ _ => rfl, ?_, ?_, last, hgetLast, hends.imp ?_⟩
    · rw [PillarSolve.after, List.length_cons]
      simp only [if_true, Bool.false_eq_true, if_false] at hcount ⊢
      omega
    · rw [hsteps, List.forall_mem_cons]
      exact ⟨.inr step, h.retried⟩
    · rw [hsteps, List.forall_mem_cons]
      exact ⟨fun hrelaxes => absurd hrelaxes step.not_relaxes, h.relaxes⟩
    · exact (atMostOnce_after h.first).mpr ⟨fun q _ hboth => step.not_relaxes hboth.1, h.relaxed_once⟩
    · exact (atMostOnce_after h.first).mpr ⟨fun q hq hboth => (nomatch h.widens q hq hboth.2), h.widened_once⟩
    · rw [hsteps]
      exact fun _ => .inr ⟨_, List.mem_cons_self, step⟩

/-- A search that no other follows. -/
theorem proceeds_single {result : Except (CurveError α) α}
    (hends : site.Ends (widened = true) (site.attempt guess (site.stage widened) extrapolates) result) :
    site.Proceeds guess extrapolates widened
      ⟨[site.attempt guess (site.stage widened) extrapolates], result⟩ where
  count := by
    rw [List.length_singleton]
    omega
  first := rfl
  searched a ha := by
    rw [List.mem_singleton.mp ha]
    rfl
  retried _ hp := absurd hp List.not_mem_nil
  relaxes _ hp := absurd hp List.not_mem_nil
  widens _ hp := absurd hp List.not_mem_nil
  relaxed_once := .nil
  widened_once := .nil
  ended := ⟨_, rfl, hends.imp .inl⟩

theorem proceeds_solveFrom (site : PillarSite α) (guess : α) (hb : bracket = site.stage widened) :
    site.Proceeds guess extrapolates widened (site.solveFrom guess bracket extrapolates widened) := by
  -- The interval is known from the stage, so a search that failed on the first interval is followed by one on the wider.
  fun_induction solveFrom site guess bracket extrapolates widened
  case case1 hfirst =>
    subst hb
    refine proceeds_single (.helper hfirst (fun i source hsame => ?_) fun _ => rfl)
    cases hsame
  case case2 hfirst hoff ih =>
    subst hb
    rw [Bool.not_eq_true] at hoff
    subst hoff
    exact (ih rfl).after (.relaxes ⟨⟨_, _, _, hfirst⟩, rfl, rfl, rfl⟩)
  case case3 hfirst =>
    subst hb
    exact proceeds_single (.interpolation hfirst)
  case case4 e hextrapolation hinterpolation hfirst =>
    subst hb
    refine proceeds_single (.helper hfirst hinterpolation fun hrefused => ?_)
    cases e with
    | extrapolation t low high => exact (hextrapolation t low high rfl).elim
    | _ => exact hrefused.elim
  case case5 hfirst solution hresult =>
    subst hb
    exact proceeds_single (.found (Attempt.firstError?_eq_none.mp hfirst) hresult)
  case case6 hfirst e hresult hnone =>
    subst hb
    refine proceeds_single (.rootFind (Attempt.firstError?_eq_none.mp hfirst) hresult ?_)
    rw [← Bool.not_eq_true, NumericError.isSearchFailure_iff, hnone]
    rintro ⟨residual, hresidual⟩
    cases hresidual
  case case7 hfirst e hresult residual hresidual =>
    subst hb
    have hfailure := NumericError.isSearchFailure_iff.mpr ⟨residual, hresidual⟩
    exact proceeds_single
      (.failed (Attempt.firstError?_eq_none.mp hfirst) hresult hfailure hresidual rfl rfl)
  case case8 hfirst e hresult residual hresidual hfixed wider ih =>
    subst hb
    rw [Bool.not_eq_true] at hfixed
    subst hfixed
    have hfailure := NumericError.isSearchFailure_iff.mpr ⟨residual, hresidual⟩
    exact (ih rfl).after
      (.widens ⟨Attempt.firstError?_eq_none.mp hfirst, ⟨e, hresult, hfailure⟩, rfl, rfl, rfl⟩)

theorem length_attempts_le (site : PillarSite α) (guess : α) : (site.solve guess).attempts.length ≤ 3 := by
  have hproceeds : site.Proceeds guess site.looksAhead false (site.solve guess) := site.proceeds_solveFrom guess rfl
  refine hproceeds.count.trans ?_
  split <;> decide

end PillarSite

end TermStructure
