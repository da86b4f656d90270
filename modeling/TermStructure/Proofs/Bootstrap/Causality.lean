import TermStructure.Proofs.Bootstrap.Reordering
import TermStructure.Proofs.Bootstrap.TrialCurve

/-!
# Causality of the first pass

An unseeded pass solves a pillar on what lies up to it. So the pass over the first pillars is the first part
of the pass over all of them: it finds the same values, and fails where that one fails, if it gets so far.
-/

namespace TermStructure

section
variable {α : Type} [Scalar α]

/-! ### One pillar -/

/-- A pillar is solved alike wherever the searches see the same. -/
theorem PillarSite.solveFrom_congr {site other : PillarSite α}
    (hattempt : ∀ guess bracket allow, site.attempt guess bracket allow = other.attempt guess bracket allow)
    (hindex : site.index = other.index) (hframe : site.plan.frame = other.plan.frame)
    (hconfig : site.plan.config = other.plan.config) (guess : α) (bracket : Bracket α) (allow widened : Bool) :
    site.solveFrom guess bracket allow widened = other.solveFrom guess bracket allow widened := by
  -- Each further search is one with a policy that cannot change any more.
  induction hn : (if allow then 0 else 1) + (if widened then 0 else 1) using Nat.strongRecOn
    generalizing bracket allow widened with
  | ind n ih =>
    rw [solveFrom.eq_def site, solveFrom.eq_def other, ← hattempt guess bracket allow, hindex, hframe, hconfig]
    dsimp only
    split
    · split
      · rfl
      · rename_i hallow
        rw [ih _ (by simp [← hn, hallow]) _ _ _ rfl]
    · rfl
    · rfl
    · split
      · rfl
      · split
        · rfl
        · split
          · rfl
          · rename_i hwidened
            rw [ih _ (by simp [← hn, hwidened]) _ _ _ rfl]

/-- Pillars that passed their check pass it without the later ones. -/
theorem Pillar.check_take {index : Nat} {previous : α} {pillars : List (Pillar α)}
    (h : Pillar.check index previous pillars = .ok ()) (k : Nat) :
    Pillar.check index previous (pillars.take k) = .ok () := by
  induction pillars generalizing index previous k with
  | nil => rw [List.take_nil, h]
  | cons p rest ih =>
    cases k with
    | zero => rfl
    | succ k =>
      rw [List.take_succ_cons]
      unfold Pillar.check at h ⊢
      split at h
      · cases h
      · rename_i hvalid
        split at h
        · cases h
        · rename_i hspacing
          rw [if_neg hvalid, if_neg hspacing]
          exact ih h k

namespace BootstrapPlan

/-- The plan for the first `k` pillars only. -/
def initial (plan : BootstrapPlan α) (k : Nat) : BootstrapPlan α := { plan with pillars := plan.pillars.take k }

variable {plan : BootstrapPlan α} {k : Nat} {before : List α} {p : Pillar α} {pillars : List (Pillar α)}

theorem times_initial (plan : BootstrapPlan α) (k : Nat) : (plan.initial k).times = plan.times.take (k + 1) := by
  unfold times initial
  rw [List.take_succ_cons, List.map_take]

/-- A pillar is solved alike in the plan for the first pillars, if the nodes before it belong to them. -/
theorem solve_initial (hk : before.length ≤ k) (guess : α) :
    PillarSite.solve ⟨plan.initial k, p, before, []⟩ guess = PillarSite.solve ⟨plan, p, before, []⟩ guess := by
  have htrial (x : α) : (PillarSite.mk (plan.initial k) p before []).trialCurve x =
      (PillarSite.mk plan p before []).trialCurve x := by
    unfold PillarSite.trialCurve PillarSite.index
    dsimp only
    rw [times_initial, List.take_take, Nat.min_eq_left (by simpa using hk)]
    rfl
  have hobjective (allow : Bool) : (PillarSite.mk (plan.initial k) p before []).objective allow =
      (PillarSite.mk plan p before []).objective allow := by
    funext x
    unfold PillarSite.objective
    rw [htrial]
    rfl
  have htime : (PillarSite.mk (plan.initial k) p before []).previousTime =
      (PillarSite.mk plan p before []).previousTime := by
    unfold PillarSite.previousTime PillarSite.index
    dsimp only
    rw [times_initial, List.getD_eq_getElem?_getD, List.getElem?_take_of_lt (by omega), ← List.getD_eq_getElem?_getD]
  have hattempt (guess : α) (bracket : Bracket α) (allow : Bool) :
      (PillarSite.mk (plan.initial k) p before []).attempt guess bracket allow =
        (PillarSite.mk plan p before []).attempt guess bracket allow := by
    unfold PillarSite.attempt
    rw [hobjective]
    rfl
  unfold PillarSite.solve PillarSite.bracket
  rw [htime]
  exact PillarSite.solveFrom_congr hattempt rfl rfl rfl guess _ _ _

/-! ### Passes -/

/-- The solve of the next pillar in an unseeded pass. -/
def solveNext (plan : BootstrapPlan α) (before : List α) (p : Pillar α) : PillarSolve α :=
  PillarSite.solve ⟨plan, p, before, []⟩ (plan.frame.kind.initialGuess before.length (before.getLastD 0) p.time)

theorem passFrom_cons (plan : BootstrapPlan α) (before : List α) (p : Pillar α) (rest : List (Pillar α)) :
    plan.passFrom before [] (p :: rest) =
      (plan.solveNext before p).result >>= fun x => (plan.passFrom (before ++ [x]) [] rest).map fun pass =>
        { pass with solves := plan.solveNext before p :: pass.solves } := by
  rw [passFrom]
  unfold solveNext
  dsimp only [List.tail_nil]
  generalize PillarSite.solve ⟨plan, p, before, []⟩ _ = solve
  cases solve.result with
  | error e => rfl
  | ok x =>
    change _ = (plan.passFrom (before ++ [x]) [] rest).map _
    dsimp only
    cases plan.passFrom (before ++ [x]) [] rest <;> rfl

theorem passFrom_initial (h : before.length + pillars.length ≤ k + 1) :
    (plan.initial k).passFrom before [] pillars = plan.passFrom before [] pillars := by
  -- With each pillar that is solved there is one more node before and one pillar less to go.
  induction pillars generalizing before with
  | nil => rfl
  | cons p rest ih =>
    rw [List.length_cons] at h
    have hsolve : (plan.initial k).solveNext before p = plan.solveNext before p := solve_initial (by omega) _
    rw [passFrom_cons, passFrom_cons, hsolve]
    congr 1
    funext x
    rw [ih (by rw [List.length_append, List.length_singleton]; omega)]

/-- A pass over some pillars and then others goes on from the values found for the first ones. -/
theorem passFrom_append (plan : BootstrapPlan α) (before : List α) (ps qs : List (Pillar α)) :
    plan.passFrom before [] (ps ++ qs) =
      plan.passFrom before [] ps >>= fun pass => (plan.passFrom pass.values [] qs).map fun later =>
        { later with solves := pass.solves ++ later.solves } := by
  induction ps generalizing before with
  | nil =>
    change plan.passFrom before [] qs = (plan.passFrom before [] qs).map _
    cases plan.passFrom before [] qs <;> rfl
  | cons p rest ih =>
    rw [List.cons_append, passFrom_cons, passFrom_cons]
    cases (plan.solveNext before p).result with
    | error e => rfl
    | ok x =>
      change (plan.passFrom (before ++ [x]) [] (rest ++ qs)).map _ = (plan.passFrom (before ++ [x]) [] rest).map _ >>= _
      rw [ih]
      cases plan.passFrom (before ++ [x]) [] rest with
      | error e => rfl
      | ok pass =>
        change ((plan.passFrom pass.values [] qs).map _).map _ = (plan.passFrom pass.values [] qs).map _
        cases plan.passFrom pass.values [] qs <;> rfl

/-- A pass that succeeds over more pillars succeeds over the first of them. -/
theorem passFrom_take {pass : Pass α} {j : Nat} (hpass : plan.passFrom before [] (pillars.take j) = .ok pass)
    (hk : k ≤ j) : ∃ earlier, plan.passFrom before [] (pillars.take k) = .ok earlier := by
  rw [← List.take_append_drop k (pillars.take j), List.take_take, Nat.min_eq_left hk, passFrom_append] at hpass
  obtain ⟨earlier, hearlier, -⟩ := ok_of_bind hpass
  exact ⟨earlier, hearlier⟩

/-- The unseeded pass fails at the pillar numbered `i`: those before it are solved, and it is not. -/
def FailsAt (plan : BootstrapPlan α) (i : Nat) (e : CurveError α) : Prop :=
  ∃ j p pass, i = j + 1 ∧ plan.pillars[j]? = some p ∧
    plan.passFrom [plan.frame.kind.anchorValue] [] (plan.pillars.take j) = .ok pass ∧
    (plan.solveNext pass.values p).result = .error e

theorem passFrom_error {e : CurveError α} (h : plan.passFrom before [] pillars = .error e) :
    ∃ j p pass, pillars[j]? = some p ∧ plan.passFrom before [] (pillars.take j) = .ok pass ∧
      (plan.solveNext pass.values p).result = .error e := by
  induction pillars generalizing before with
  | nil => cases h
  | cons q rest ih =>
    rw [passFrom_cons] at h
    cases hresult : (plan.solveNext before q).result with
    | error e' =>
      rw [hresult] at h
      cases h
      exact ⟨0, q, ⟨before, []⟩, rfl, rfl, hresult⟩
    | ok x =>
      rw [hresult] at h
      obtain ⟨j, p, pass, hp, hpass, hfails⟩ := ih (error_of_map h)
      refine ⟨j + 1, p, { pass with solves := plan.solveNext before q :: pass.solves }, hp, ?_, hfails⟩
      rw [List.take_succ_cons, passFrom_cons, hresult]
      change (plan.passFrom (before ++ [x]) [] (rest.take j)).map _ = _
      rw [hpass]
      rfl

theorem pass_initial (plan : BootstrapPlan α) (k : Nat) :
    (plan.initial k).pass [] = plan.passFrom [plan.frame.kind.anchorValue] [] (plan.pillars.take k) := by
  have hlen : (plan.pillars.take k).length ≤ k := List.length_take_le k plan.pillars
  refine passFrom_initial ?_
  change 1 + (plan.pillars.take k).length ≤ k + 1
  omega

/-- The pass over the first pillars finds the first values of the pass over all of them, by the same solves. -/
theorem pass_initial_of_ok {pass : Pass α} (hpass : plan.pass [] = .ok pass) (hk : k ≤ plan.pillars.length) :
    ∃ earlier, (plan.initial k).pass [] = .ok earlier ∧ earlier.values.length = k + 1 ∧
      earlier.values = pass.values.take (k + 1) ∧ earlier.solves <+: pass.solves := by
  unfold BootstrapPlan.pass at hpass
  rw [← List.take_append_drop k plan.pillars, passFrom_append] at hpass
  obtain ⟨earlier, hearlier, hpass⟩ := ok_of_bind hpass
  obtain ⟨roots, hvalues, hlen, -⟩ := passFrom_ok hearlier
  cases hlater : plan.passFrom earlier.values [] (plan.pillars.drop k) with
  | error e =>
    rw [hlater] at hpass
    cases hpass
  | ok later =>
    rw [hlater] at hpass
    cases hpass
    obtain ⟨laterRoots, hlaterValues, -, -⟩ := passFrom_ok hlater
    have hlength : earlier.values.length = k + 1 := by
      rw [hvalues, List.length_append, List.length_singleton, hlen, List.length_take]
      omega
    refine ⟨earlier, (pass_initial plan k).trans hearlier, hlength, ?_, List.prefix_append _ _⟩
    change earlier.values = later.values.take (k + 1)
    rw [hlaterValues, ← hlength, List.take_left]

/-- The pass over the first pillars fails just when the pass over all fails at one of them. -/
theorem pass_initial_of_failsAt {i : Nat} {e : CurveError α} (h : plan.FailsAt i e) :
    (i ≤ k → (plan.initial k).pass [] = .error e) ∧ (k < i → ∃ earlier, (plan.initial k).pass [] = .ok earlier) := by
  obtain ⟨j, p, pass, rfl, hp, hpass, hfails⟩ := h
  obtain ⟨hlt, rfl⟩ := List.getElem?_eq_some_iff.mp hp
  rw [pass_initial]
  constructor
  · intro hk
    have hj : j < (plan.pillars.take k).length := by
      rw [List.length_take]
      omega
    have hsplit : plan.pillars.take k = plan.pillars.take j ++ plan.pillars[j] :: (plan.pillars.take k).drop (j + 1) :=
      calc plan.pillars.take k
        _ = (plan.pillars.take k).take j ++ (plan.pillars.take k).drop j := (List.take_append_drop j _).symm
        _ = _ := by
          rw [List.take_take, Nat.min_eq_left (by omega), List.drop_eq_getElem_cons hj, List.getElem_take]
    rw [hsplit, passFrom_append, hpass]
    change (plan.passFrom pass.values [] _).map _ = _
    rw [passFrom_cons, hfails]
    rfl
  · intro hk
    exact passFrom_take hpass (by omega)

omit [Scalar α] in
theorem initial_length (plan : BootstrapPlan α) : plan.initial plan.pillars.length = plan := by
  unfold initial
  rw [List.take_length]

/-- The pass fails just when it fails at one of the pillars. -/
theorem pass_error_iff {e : CurveError α} :
    plan.pass [] = .error e ↔ ∃ i, 1 ≤ i ∧ i ≤ plan.pillars.length ∧ plan.FailsAt i e := by
  constructor
  · intro h
    obtain ⟨j, p, pass, hp, hpass, hfails⟩ := passFrom_error h
    obtain ⟨hlt, -⟩ := List.getElem?_eq_some_iff.mp hp
    exact ⟨j + 1, by omega, hlt, j, p, pass, rfl, hp, hpass, hfails⟩
  · rintro ⟨i, -, hi, h⟩
    have hpass := (pass_initial_of_failsAt h).1 hi
    rwa [initial_length] at hpass

/-- An error of the pass over the first pillars is the error of the pass over all of them. -/
theorem pass_of_initial_error {e : CurveError α} (h : (plan.initial k).pass [] = .error e)
    (hk : k ≤ plan.pillars.length) : plan.pass [] = .error e := by
  cases hpass : plan.pass [] with
  | ok pass =>
    obtain ⟨earlier, hearlier, -⟩ := pass_initial_of_ok hpass hk
    cases h.symm.trans hearlier
  | error e' =>
    obtain ⟨i, -, -, hfails⟩ := pass_error_iff.mp hpass
    obtain ⟨hearly, hlate⟩ := pass_initial_of_failsAt hfails
    rcases Nat.lt_or_ge k i with hi | hi
    · obtain ⟨earlier, hearlier⟩ := hlate hi
      cases h.symm.trans hearlier
    · exact (hearly hi).symm.trans h

/-! ### The plan for the first pillars -/

variable {inputs : BootstrapInputs α} {config : BootstrapConfig α} {solver : RootFinder α}

/-- What is good for one set of helpers is good for every other that passes the check. -/
theorem make_of_check (h : make inputs config solver = .ok plan) {helpers : List (Helper α)} (hne : helpers ≠ [])
    (hcheck : Pillar.check 1 0 (Pillar.inOrder (helpers.map (Pillar.make inputs.frame))) = .ok ()) :
    make { inputs with helpers := helpers } config solver =
      .ok { plan with pillars := Pillar.inOrder (helpers.map (Pillar.make inputs.frame)) } := by
  obtain ⟨rfl, -, -, hvalid⟩ := make_ok h
  have hnonempty : helpers.isEmpty = false := List.isEmpty_eq_false_iff.mpr hne
  unfold make at h ⊢
  rw [hvalid] at h ⊢
  change (if _ then _ else _) = _ at h
  change (if _ then _ else _) = _
  split at h
  · cases h
  · rename_i hpoints
    dsimp only
    rw [if_neg hpoints, hnonempty, hcheck]
    rfl

variable [LawfulOrder α]

/-- The plan for the first pillars is the one made from their helpers alone, in any order. -/
theorem make_initial (h : make inputs config solver = .ok plan) (hk : 0 < k) {earliest : List (Helper α)}
    (hearliest : ((plan.pillars.take k).map (·.helper)).Perm earliest) :
    make { inputs with helpers := earliest } config solver = .ok (plan.initial k) := by
  have hmake : ((plan.pillars.take k).map (·.helper)).map (Pillar.make inputs.frame) = plan.pillars.take k := by
    rw [List.map_map]
    exact (List.map_congr_left fun p hp => make_helper h (List.mem_of_mem_take hp)).trans (List.map_id _)
  have hne : (plan.pillars.take k).map (·.helper) ≠ [] := by
    rw [Ne, List.map_eq_nil_iff, List.take_eq_nil_iff]
    rintro (rfl | hnil)
    · exact absurd hk (Nat.lt_irrefl 0)
    · exact pillars_ne_nil h hnil
  have hsorted : plan.pillars.Pairwise fun a b => Scalar.totalLe a.time b.time = true := by
    obtain ⟨rfl, -⟩ := make_ok h
    exact Pillar.inOrder_pairwise _
  have hinOrder : Pillar.inOrder (((plan.pillars.take k).map (·.helper)).map (Pillar.make inputs.frame)) =
      plan.pillars.take k := by
    rw [hmake]
    exact List.mergeSort_of_pairwise (hsorted.sublist (List.take_sublist k _))
  obtain ⟨-, hcheck, -⟩ := make_ok h
  have hinitial := make_of_check h hne (by rw [hinOrder, Pillar.check_take hcheck])
  rw [hinOrder] at hinitial
  exact (@make_perm α _ _ { inputs with helpers := _ } _ hearliest config solver).trans hinitial

end BootstrapPlan

/-- The first pass up to a pillar depends on nothing after it. The helpers of the `k` earliest pillars make a
    plan of their own, whose first pass finds the first `k + 1` values of the first pass over all pillars and
    fails as that one does if it does so at one of them. So any two plans with the same `k` earliest pillars
    have the same first values, or fail with the same error. -/
theorem first_pass_causal [LawfulOrder α] {inputs : BootstrapInputs α} {config : BootstrapConfig α}
    {solver : RootFinder α} {plan : BootstrapPlan α} (hplan : BootstrapPlan.make inputs config solver = .ok plan)
    {k : Nat} (hk : k ≤ plan.pillars.length) :
    (∀ earliest, 0 < k → ((plan.pillars.take k).map (·.helper)).Perm earliest →
      BootstrapPlan.make { inputs with helpers := earliest } config solver = .ok (plan.initial k)) ∧
    (∀ pass, plan.pass [] = .ok pass → ∃ earlier, (plan.initial k).pass [] = .ok earlier ∧
      earlier.values.length = k + 1 ∧ earlier.values = pass.values.take (k + 1) ∧ earlier.solves <+: pass.solves) ∧
    (∀ e, plan.pass [] = .error e ↔ ∃ i, 1 ≤ i ∧ i ≤ plan.pillars.length ∧ plan.FailsAt i e) ∧
    (∀ i e, plan.FailsAt i e → (i ≤ k → (plan.initial k).pass [] = .error e) ∧
      (k < i → ∃ earlier, (plan.initial k).pass [] = .ok earlier)) ∧
    ∀ other : BootstrapPlan α, other.initial k = plan.initial k →
      (∀ pass otherPass, plan.pass [] = .ok pass → other.pass [] = .ok otherPass →
        otherPass.values.take (k + 1) = pass.values.take (k + 1)) ∧
      ∀ i e, plan.FailsAt i e → i ≤ k → other.pass [] = .error e := by
  refine ⟨fun earliest hpos hearliest => BootstrapPlan.make_initial hplan hpos hearliest,
    fun pass hpass => BootstrapPlan.pass_initial_of_ok hpass hk, fun e => BootstrapPlan.pass_error_iff,
    fun i e hfails => BootstrapPlan.pass_initial_of_failsAt hfails, fun other hother => ?_⟩
  have hotherPillars : k ≤ other.pillars.length := by
    have hlength := congrArg (·.pillars.length) hother
    dsimp only [BootstrapPlan.initial] at hlength
    rw [List.length_take, List.length_take] at hlength
    omega
  constructor
  · intro pass otherPass hpass hotherPass
    obtain ⟨earlier, hearlier, -, hvalues, -⟩ := BootstrapPlan.pass_initial_of_ok hpass hk
    obtain ⟨otherEarlier, hotherEarlier, -, hotherValues, -⟩ :=
      BootstrapPlan.pass_initial_of_ok hotherPass hotherPillars
    rw [hother, hearlier] at hotherEarlier
    cases hotherEarlier
    exact hotherValues.symm.trans hvalues
  · intro i e hfails hi
    have hinitial := (BootstrapPlan.pass_initial_of_failsAt hfails).1 hi
    rw [← hother] at hinitial
    exact BootstrapPlan.pass_of_initial_error hinitial hotherPillars

end

theorem first_pass_causal_two :
    ∃ pass earlier, twoHazardPlan.pass [] = .ok pass ∧ pass.values = [0, 1 / 100, 3 / 100] ∧
      BootstrapPlan.make averageInputs default (Brent.finder default) = .ok (twoHazardPlan.initial 1) ∧
      (twoHazardPlan.initial 1).pass [] = .ok earlier ∧ earlier.values = [0, 1 / 100] := by
  obtain ⟨pass, hpass, hvalues, -⟩ := twoHazardPlan_accepted
  obtain ⟨hmake, hok, -⟩ := first_pass_causal make_twoHazardPlan (by decide : 1 ≤ twoHazardPlan.pillars.length)
  obtain ⟨earlier, hearlier, -, htake, -⟩ := hok pass hpass
  refine ⟨pass, earlier, hpass, hvalues, hmake [averageHazard] (by decide) (List.Perm.refl _), hearlier, ?_⟩
  rw [htake, hvalues]
  rfl

end TermStructure
