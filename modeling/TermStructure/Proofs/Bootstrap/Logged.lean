import TermStructure.Proofs.Bootstrap.LookAhead
import TermStructure.Proofs.Bootstrap.Retries

/-!
# Logged runs

A run with a log of the solves of each pass that it makes, also of one that fails. The log changes nothing about what
the run comes to. It shows that a run makes at most three passes, and so at most nine searches at a pillar.
-/

namespace TermStructure

variable {α : Type} [Scalar α]

/-! ### One pass -/

namespace BootstrapPlan

variable {plan : BootstrapPlan α} {before seeds : List α} {pillars : List (Pillar α)} {s : PillarSolve α} {k : Nat}

/-- The solves of a pass in order, up to the one that ends it if it fails. -/
def solvesFrom (plan : BootstrapPlan α) : (before seeds : List α) → List (Pillar α) → List (PillarSolve α)
  | _, _, [] => []
  | before, seeds, p :: rest =>
    plan.nextSolve before seeds p ::
      match (plan.nextSolve before seeds p).result with
      | .ok x => plan.solvesFrom (before ++ [x]) seeds.tail rest
      | .error _ => []

/-- A pass that succeeds has made all its solves. -/
theorem solves_of_passFrom {pass : Pass α} (h : plan.passFrom before seeds pillars = .ok pass) :
    pass.solves = plan.solvesFrom before seeds pillars := by
  induction pillars generalizing before seeds pass with
  | nil =>
    cases h
    rfl
  | cons p rest ih =>
    rw [passFrom_next] at h
    obtain ⟨x, hx, h⟩ := ok_of_bind h
    obtain ⟨later, hlater, rfl⟩ := ok_of_map h
    unfold solvesFrom
    rw [hx, ih hlater]

/-- A solve of a pass is that of the pillar of its number. -/
theorem solve_of_solvesFrom (h : (plan.solvesFrom before seeds pillars)[k]? = some s) :
    ∃ p before' after guess, pillars[k]? = some p ∧ before'.length = before.length + k ∧
      s = PillarSite.solve ⟨plan, p, before', after⟩ guess := by
  induction pillars generalizing before seeds k with
  | nil => cases h
  | cons p rest ih =>
    unfold solvesFrom at h
    cases k with
    | zero =>
      cases h
      exact ⟨p, before, seeds.tail, plan.guess before seeds p, rfl, rfl, rfl⟩
    | succ k =>
      rw [List.getElem?_cons_succ] at h
      split at h
      · obtain ⟨q, before', after, guess, hq, hlength, hs⟩ := ih h
        rw [List.length_append, List.length_singleton, Nat.add_assoc, Nat.add_comm 1 k] at hlength
        exact ⟨q, before', after, guess, hq, hlength, hs⟩
      · cases h

end BootstrapPlan

/-! ### Runs with a log -/

/-- A part of a run with the solves of each pass that it made, also of one that failed. -/
structure Logged (α β : Type) where
  passes : List (List (PillarSolve α))
  result : Except (CurveError α) β

namespace Logged

variable {β γ : Type}

/-- A part of a run that makes no pass. -/
def still (result : Except (CurveError α) β) : Logged α β := ⟨[], result⟩

/-- What comes after a part that succeeds. -/
def andThen (x : Logged α β) (f : β → Logged α γ) : Logged α γ :=
  match x.result with
  | .ok b => ⟨x.passes ++ (f b).passes, (f b).result⟩
  | .error e => ⟨x.passes, .error e⟩

variable {x : Logged α β} {f : β → Logged α γ}

omit [Scalar α] in
theorem andThen_result (x : Logged α β) (f : β → Logged α γ) :
    (x.andThen f).result = x.result >>= fun b => (f b).result := by
  unfold andThen
  cases x.result <;> rfl

omit [Scalar α] in
theorem andThen_ok {c : γ} (h : (x.andThen f).result = .ok c) :
    ∃ b, x.result = .ok b ∧ (f b).result = .ok c ∧ (x.andThen f).passes = x.passes ++ (f b).passes := by
  rw [andThen_result] at h
  obtain ⟨b, hb, hc⟩ := ok_of_bind h
  refine ⟨b, hb, hc, ?_⟩
  unfold andThen
  rw [hb]

/-- There are no more passes than so many, and each is one of the plan. -/
structure Within (plan : BootstrapPlan α) (bound : Nat) (x : Logged α β) : Prop where
  count : x.passes.length ≤ bound
  solves : ∀ solves ∈ x.passes, ∃ seeds, solves = plan.solvesFrom [plan.frame.kind.anchorValue] seeds plan.pillars

variable {plan : BootstrapPlan α} {m n : Nat}

theorem within_still (plan : BootstrapPlan α) (result : Except (CurveError α) β) : (still result).Within plan n :=
  ⟨Nat.zero_le n, nofun⟩

theorem Within.andThen (hx : x.Within plan m) (n : Nat) (hf : ∀ b, (f b).Within plan n) :
    (x.andThen f).Within plan (m + n) := by
  unfold Logged.andThen
  split
  · rename_i b _
    refine ⟨?_, fun solves hsolves => ?_⟩
    · rw [List.length_append]
      exact Nat.add_le_add hx.count (hf b).count
    · exact (List.mem_append.mp hsolves).elim (hx.solves solves) ((hf b).solves solves)
  · exact ⟨hx.count.trans (Nat.le_add_right m n), hx.solves⟩

end Logged

/-- The solves of the passes of a draft, in the order of the passes. -/
def Draft.solves {α : Type} (d : Draft α) : List (List (PillarSolve α)) := d.all.reverse.map (·.solves)

namespace BootstrapPlan

variable (plan : BootstrapPlan α) (d : Draft α)

def loggedPass (seeds : List α) : Logged α (Pass α) :=
  ⟨[plan.solvesFrom [plan.frame.kind.anchorValue] seeds plan.pillars], plan.pass seeds⟩

def loggedExtend : Logged α (Draft α) :=
  (plan.loggedPass d.last.values.tail).andThen fun pass => .still (.ok ⟨pass, d.all⟩)

def loggedDraft : Logged α (Draft α) :=
  (plan.loggedPass []).andThen fun pass =>
    if plan.scheme.isGlobal then plan.loggedExtend ⟨pass, []⟩ else .still (.ok ⟨pass, []⟩)

def loggedRetry : Logged α (Draft α × NodeCurve α × RepricingReport α) :=
  (plan.loggedExtend d).andThen fun d =>
    .still ((plan.globalCheck d.last.values).map fun (curve, report) => (d, curve, report))

def loggedRecover (failure : CurveError α) : Logged α (BootstrapOutcome α) :=
  if plan.config.globalRetry then
    { passes := (plan.loggedRetry d).passes
      result :=
        match (plan.loggedRetry d).result with
        | .ok (d, curve, report) => if report.allPassed then plan.publish d curve (some report) else .error failure
        | .error e => .error (if e.breaksOff then e else failure) }
  else .still (.error failure)

/-- What a run makes of a draft. -/
def loggedFinish : Logged α (BootstrapOutcome α) :=
  if plan.config.globalCheck then
    (Logged.still (plan.globalCheck d.last.values)).andThen fun checked =>
      match checked.2.failure? with
      | none => .still (plan.publish d checked.1 (some checked.2))
      | some failure => plan.loggedRecover d failure
  else .still (plan.finishedCurve d.last.values >>= fun curve => plan.publish d curve none)

/-- A run with the solves of each pass that it makes. -/
def loggedRun : Logged α (BootstrapOutcome α) := plan.loggedDraft.andThen plan.loggedFinish

theorem loggedExtend_result : (plan.loggedExtend d).result = plan.extend d := by
  unfold loggedExtend extend
  rw [Logged.andThen_result]
  rfl

theorem loggedDraft_result : plan.loggedDraft.result = plan.draft := by
  unfold loggedDraft draft
  rw [Logged.andThen_result]
  change (plan.pass [] >>= _) = (plan.pass [] >>= _)
  congr 1
  funext pass
  dsimp only
  split
  · exact loggedExtend_result plan ⟨pass, []⟩
  · rfl

theorem loggedRetry_result : (plan.loggedRetry d).result = plan.retry d := by
  unfold loggedRetry retry
  rw [Logged.andThen_result, loggedExtend_result]
  congr 1

theorem loggedRecover_result (failure : CurveError α) :
    (plan.loggedRecover d failure).result = plan.recover d failure := by
  unfold loggedRecover recover
  split
  · dsimp only
    cases h : plan.retry d <;> simp only [loggedRetry_result, h]
  · rfl

/-- The log changes nothing about what a run comes to. -/
theorem loggedRun_result : plan.loggedRun.result = plan.run := by
  unfold loggedRun run
  rw [Logged.andThen_result, loggedDraft_result]
  congr 1
  funext d
  unfold loggedFinish
  dsimp only
  split
  · rw [Logged.andThen_result]
    change (plan.globalCheck d.last.values >>= _) = _
    congr 1
    funext checked
    cases hfailure : checked.2.failure? with
    | none => rfl
    | some failure => exact loggedRecover_result plan d failure
  · rfl

theorem within_loggedPass (seeds : List α) : (plan.loggedPass seeds).Within plan 1 :=
  ⟨le_rfl, fun _ hsolves => ⟨seeds, List.mem_singleton.mp hsolves⟩⟩

theorem within_loggedExtend : (plan.loggedExtend d).Within plan 1 :=
  (plan.within_loggedPass _).andThen 0 fun _ => Logged.within_still plan _

theorem within_loggedDraft : plan.loggedDraft.Within plan 2 := by
  refine (plan.within_loggedPass []).andThen 1 fun pass => ?_
  split
  · exact plan.within_loggedExtend _
  · exact Logged.within_still plan _

theorem within_loggedRecover (failure : CurveError α) : (plan.loggedRecover d failure).Within plan 1 := by
  unfold loggedRecover
  split
  · have hretry : (plan.loggedRetry d).Within plan 1 :=
      (plan.within_loggedExtend d).andThen 0 fun _ => Logged.within_still plan _
    exact ⟨hretry.count, hretry.solves⟩
  · exact Logged.within_still plan _

theorem within_loggedFinish : (plan.loggedFinish d).Within plan 1 := by
  unfold loggedFinish
  split
  · refine (Logged.within_still (n := 0) plan (plan.globalCheck d.last.values)).andThen 1 fun checked => ?_
    split
    · exact Logged.within_still plan _
    · exact plan.within_loggedRecover d _
  · exact Logged.within_still plan _

/-- A run makes at most two passes for a draft and one more to mend it. -/
theorem within_loggedRun : plan.loggedRun.Within plan 3 :=
  plan.within_loggedDraft.andThen 1 plan.within_loggedFinish

/-! ### What is published -/

variable {plan d}

theorem loggedExtend_ok {d' : Draft α} (h : (plan.loggedExtend d).result = .ok d') :
    d'.solves = d.solves ++ (plan.loggedExtend d).passes := by
  obtain ⟨pass, hpass, hd', hpasses⟩ := Logged.andThen_ok h
  cases hd'
  have hlog : (plan.loggedExtend d).passes = [pass.solves] := by
    rw [solves_of_passFrom hpass]
    exact hpasses
  rw [hlog]
  unfold Draft.solves Draft.all
  rw [List.reverse_cons, List.map_append]
  rfl

theorem loggedDraft_ok (h : plan.loggedDraft.result = .ok d) : d.solves = plan.loggedDraft.passes := by
  obtain ⟨pass, hpass, hd, hpasses⟩ := Logged.andThen_ok h
  have hfirst : Draft.solves ⟨pass, []⟩ = (plan.loggedPass []).passes := by
    change [pass.solves] = _
    rw [solves_of_passFrom hpass]
    rfl
  unfold loggedDraft
  rw [hpasses, ← hfirst]
  split at hd
  · rename_i hglobal
    rw [if_pos hglobal]
    exact loggedExtend_ok hd
  · rename_i hlocal
    rw [if_neg hlocal]
    cases hd
    exact (List.append_nil _).symm

variable {o : BootstrapOutcome α}

theorem loggedRecover_ok {failure : CurveError α} (h : (plan.loggedRecover d failure).result = .ok o) :
    ∃ d' curve report, d'.solves = d.solves ++ (plan.loggedRecover d failure).passes ∧
      plan.publish d' curve report = .ok o := by
  unfold loggedRecover at h ⊢
  split at h
  · rename_i hretries
    rw [if_pos hretries]
    dsimp only at h ⊢
    split at h
    · rename_i d' curve report hretry
      split at h
      · obtain ⟨extended, hextend, hchecked, hpasses⟩ := Logged.andThen_ok hretry
        obtain ⟨checked, -, hd'⟩ := ok_of_map hchecked
        cases hd'
        refine ⟨_, _, _, ?_, h⟩
        rw [loggedExtend_ok hextend]
        exact congrArg (d.solves ++ ·) ((List.append_nil _).symm.trans hpasses.symm)
      · cases h
    · cases h
  · cases h

theorem loggedFinish_ok (h : (plan.loggedFinish d).result = .ok o) :
    ∃ d' curve report, d'.solves = d.solves ++ (plan.loggedFinish d).passes ∧ plan.publish d' curve report = .ok o := by
  unfold loggedFinish at h ⊢
  split at h
  · rename_i hchecks
    rw [if_pos hchecks]
    obtain ⟨checked, -, h, hpasses⟩ := Logged.andThen_ok h
    rw [hpasses]
    cases hfailure : checked.2.failure? with
    | none =>
      rw [hfailure] at h
      exact ⟨d, _, _, (List.append_nil _).symm, h⟩
    | some failure =>
      rw [hfailure] at h
      exact loggedRecover_ok h
  · rename_i hunchecked
    rw [if_neg hunchecked]
    obtain ⟨curve, -, h⟩ := ok_of_bind h
    exact ⟨d, curve, none, (List.append_nil _).symm, h⟩

/-- A run counts its passes right. -/
theorem loggedRun_ok (h : plan.loggedRun.result = .ok o) : o.passes = plan.loggedRun.passes.length := by
  obtain ⟨d, hd, h, hpasses⟩ := Logged.andThen_ok h
  obtain ⟨d', curve, report, hsolves, hpublish⟩ := loggedFinish_ok h
  have hall : d'.solves = plan.loggedRun.passes := by
    rw [hsolves, loggedDraft_ok hd, ← hpasses]
    rfl
  rw [publish_ok hpublish, ← hall]
  change d'.all.length = (d'.all.reverse.map _).length
  rw [List.length_map, List.length_reverse]

end BootstrapPlan

/-- How many searches passes make at the pillar of a number, counted from zero. -/
def searchesAt {α : Type} (passes : List (List (PillarSolve α))) (k : Nat) : Nat :=
  ((passes.filterMap (·[k]?)).map (·.attempts.length)).sum

theorem Logged.Within.searchesAt_le {β : Type} {x : Logged α β} {plan : BootstrapPlan α} {n : Nat}
    (h : x.Within plan n) (k : Nat) : searchesAt x.passes k ≤ n * 3 := by
  have hsolve : ∀ length ∈ (x.passes.filterMap (·[k]?)).map (·.attempts.length), length ≤ 3 := by
    intro length hlength
    obtain ⟨s, hs, rfl⟩ := List.mem_map.mp hlength
    obtain ⟨solves, hsolves, hs⟩ := List.mem_filterMap.mp hs
    obtain ⟨seeds, rfl⟩ := h.solves solves hsolves
    obtain ⟨p, before, after, guess, -, -, rfl⟩ := BootstrapPlan.solve_of_solvesFrom hs
    exact PillarSite.length_attempts_le _ guess
  have hsum := List.sum_le_card_nsmul _ 3 hsolve
  rw [List.length_map, smul_eq_mul] at hsum
  exact hsum.trans (Nat.mul_le_mul_right 3 ((List.length_filterMap_le _ _).trans h.count))

/-- At every pillar, whatever the root finder, the helper and the scheme, and whether the pass is seeded or not, there
    are at most three searches: one follows the other at most once on a curve that answers beyond its nodes, and at most
    once on a wider interval, and the last one decides. A run makes at most three passes, and at most nine searches at a
    pillar. -/
theorem searches_bounded :
    (∀ (site : PillarSite α) (guess : α), (site.solve guess).attempts.length ≤ 3 ∧
      site.Proceeds guess site.looksAhead false (site.solve guess)) ∧
    ∀ plan : BootstrapPlan α,
      plan.loggedRun.result = plan.run ∧ plan.loggedRun.passes.length ≤ 3 ∧
      (∀ o, plan.run = .ok o → o.passes = plan.loggedRun.passes.length) ∧
      (∀ solves ∈ plan.loggedRun.passes, ∀ k s, solves[k]? = some s →
        ∃ p before after guess, plan.pillars[k]? = some p ∧ before.length = 1 + k ∧
          s = PillarSite.solve ⟨plan, p, before, after⟩ guess) ∧
      ∀ k, searchesAt plan.loggedRun.passes k ≤ 9 := by
  refine ⟨fun site guess => ⟨site.length_attempts_le guess, site.proceeds_solveFrom guess rfl⟩, fun plan => ?_⟩
  have hwithin := plan.within_loggedRun
  refine ⟨plan.loggedRun_result, hwithin.count, fun o ho => ?_, fun solves hsolves k s hs => ?_,
    fun k => hwithin.searchesAt_le k⟩
  · exact BootstrapPlan.loggedRun_ok (plan.loggedRun_result.trans ho)
  · obtain ⟨seeds, rfl⟩ := hwithin.solves solves hsolves
    exact BootstrapPlan.solve_of_solvesFrom hs

/-- The first pillar of a bootstrap, whose helper reads beyond it without saying so. -/
def straddlingSite (quote : ℚ) : PillarSite ℚ :=
  let inputs := straddlingInputs quote
  let pillar := Pillar.make inputs.frame (straddlingHazard quote)
  ⟨⟨inputs.frame, inputs.scheme, default, Brent.finder default, [pillar]⟩, pillar, [0], []⟩

/-- A hazard rate that is beyond the first interval is found by the third search. -/
theorem searches_bounded_straddling :
    ∃ a b c, ((straddlingSite 2).solve 0).attempts = [a, b, c] ∧ a.Relaxes b ∧ (straddlingSite 2).Widens b c ∧
      ((straddlingSite 2).solve 0).result = .ok 4 := by
  obtain ⟨-, hproceeds⟩ := searches_bounded.1 (straddlingSite 2) 0
  have hflags : ((straddlingSite 2).solve 0).attempts.map (·.extrapolates) = [false, true, true] := by decide +kernel
  have hresult : ((straddlingSite 2).solve 0).result.toOption = some 4 := by decide +kernel
  have hretried := hproceeds.retried
  unfold PillarSolve.steps at hretried
  obtain ⟨a, b, c, habc⟩ := List.length_eq_three.mp (by simpa using congrArg List.length hflags)
  rw [habc] at hflags hretried
  simp only [List.map_cons, List.map_nil, List.cons.injEq, and_true] at hflags
  obtain ⟨ha, hb, -⟩ := hflags
  have hfirst := hretried (a, b) (by simp)
  have hsecond := hretried (b, c) (by simp)
  refine ⟨a, b, c, habc, hfirst.resolve_right fun h => ?_, hsecond.resolve_left fun h => ?_, ok_of_toOption hresult⟩
  · have hsame := h.extrapolates
    rw [ha, hb] at hsame
    cases hsame
  · have hoff := h.off
    rw [hb] at hoff
    cases hoff

end TermStructure
