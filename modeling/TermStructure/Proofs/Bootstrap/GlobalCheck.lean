import TermStructure.Proofs.Bootstrap.Alignment
import TermStructure.Proofs.Bootstrap.Failures
import TermStructure.Proofs.Bootstrap.Repricing
import TermStructure.Proofs.Scalar.Comparisons

/-!
# The global check

A run that checks its helpers makes up to three passes and two checks, and each of them may fail. What it
reports is settled by the first check alone: one more pass can mend a miss, but nothing that goes wrong in it is
ever told.
-/

namespace TermStructure

variable {α : Type} [Scalar α]

/-! ### The worst check -/

/-- Check `k` has the largest error, and those after it have smaller ones. -/
structure RepricingReport.Worst (checks : List (RepricingCheck α)) (k : Nat) (worst : RepricingCheck α) : Prop where
  here : checks[k]? = some worst
  largest : ∀ check ∈ checks, Scalar.totalLe check.error worst.error = true
  last : ∀ j check, k < j → checks[j]? = some check → Scalar.totalLe worst.error check.error = false

namespace RepricingReport

variable {checks : List (RepricingCheck α)} {worst check : RepricingCheck α} {k : Nat}

theorem worst?_append (checks : List (RepricingCheck α)) (check : RepricingCheck α) :
    worst? (checks ++ [check]) =
      match worst? checks with
      | some w => if Scalar.totalLe w.error check.error then some check else some w
      | none => some check := by
  unfold worst?
  rw [List.foldl_append]
  rfl

/-- Another check becomes the worst if no error exceeds its own. -/
theorem worst_append_of_le [LawfulOrder α] (h : ∀ c ∈ checks, Scalar.totalLe c.error check.error = true) :
    Worst (checks ++ [check]) checks.length check := by
  refine ⟨List.getElem?_concat_length, fun c hc => ?_, fun j c hj hget => ?_⟩
  · rcases List.mem_append.mp hc with hc | hc
    · exact h c hc
    · rw [List.mem_singleton.mp hc]
      exact LawfulOrder.totalLe_self _
  · rw [List.getElem?_eq_none (by rw [List.length_append, List.length_singleton]; omega)] at hget
    cases hget

/-- The worst check stays so if another error is smaller. -/
theorem Worst.append [LawfulOrder α] (h : Worst checks k worst)
    (hless : Scalar.totalLe worst.error check.error = false) : Worst (checks ++ [check]) k worst := by
  have hk := (List.getElem?_eq_some_iff.mp h.here).1
  refine ⟨?_, fun c hc => ?_, fun j c hj hget => ?_⟩
  · rw [List.getElem?_append_left hk]
    exact h.here
  · rcases List.mem_append.mp hc with hc | hc
    · exact h.largest c hc
    · rw [List.mem_singleton.mp hc]
      exact (Bool.or_eq_true _ _ ▸ LawfulOrder.totalLe_total worst.error check.error).resolve_left
        (Bool.eq_false_iff.mp hless)
  · rcases Nat.lt_or_ge j checks.length with hlt | hge
    · rw [List.getElem?_append_left hlt] at hget
      exact h.last j c hj hget
    · rw [List.getElem?_append_right hge] at hget
      rw [List.mem_singleton.mp (List.mem_of_getElem? hget)]
      exact hless

theorem exists_worst [LawfulOrder α] (h : worst? checks = some worst) : ∃ k, Worst checks k worst := by
  -- The fold keeps the worst check so far, so the next one is added at the end.
  induction checks using List.reverseRecOn generalizing worst with
  | nil => cases h
  | append_singleton checks check ih =>
    rw [worst?_append] at h
    cases hw : worst? checks with
    | none =>
      rw [hw] at h
      cases h
      obtain rfl : checks = [] := by
        by_contra hne
        exact worst?_ne_none hne hw
      have hfirst : Worst ([] ++ [check]) 0 check := worst_append_of_le nofun
      exact ⟨0, hfirst⟩
    | some w =>
      obtain ⟨k, hk⟩ := ih hw
      rw [hw] at h
      dsimp only at h
      split at h
      · rename_i hle
        cases h
        exact ⟨checks.length, worst_append_of_le fun c hc => LawfulOrder.totalLe_trans (hk.largest c hc) hle⟩
      · rename_i hless
        cases h
        exact ⟨k, hk.append (Bool.eq_false_iff.mpr hless)⟩

/-- Only one check is the worst. -/
theorem Worst.unique {k' : Nat} {worst' : RepricingCheck α} (h : Worst checks k worst) (h' : Worst checks k' worst') :
    k = k' := by
  have hmem := List.mem_of_getElem? h.here
  have hmem' := List.mem_of_getElem? h'.here
  rcases Nat.lt_trichotomy k k' with hlt | heq | hgt
  · cases (h.last k' worst' hlt h'.here).symm.trans (h'.largest worst hmem)
  · exact heq
  · cases (h'.last k worst hgt h.here).symm.trans (h.largest worst' hmem')

/-- What is reported is the worst check, if any check did not pass. -/
theorem failure?_eq_some_iff [LawfulOrder α] {e : CurveError α} :
    (make checks).failure? = some e ↔ (∃ c ∈ checks, c.passed = false) ∧
      ∃ k worst, Worst checks k worst ∧ e = .globalCheckFailure worst.index worst.residual := by
  have hmissed : (make checks).allPassed = true ↔ ¬∃ c ∈ checks, c.passed = false := by
    change checks.all (·.passed) = true ↔ _
    simp only [List.all_eq_true, not_exists, not_and, Bool.not_eq_false]
  constructor
  · intro h
    unfold failure? at h
    split at h
    · cases h
    · rename_i hall
      obtain ⟨worst, hworst, rfl⟩ := Option.map_eq_some_iff.mp h
      obtain ⟨k, hk⟩ := exists_worst hworst
      exact ⟨not_not.mp fun hno => hall (hmissed.mpr hno), k, worst, hk, rfl⟩
  · rintro ⟨hsome, k, worst, hk, rfl⟩
    obtain ⟨w, hw⟩ := Option.ne_none_iff_exists'.mp
      (worst?_ne_none (List.ne_nil_of_mem (List.mem_of_getElem? hk.here)))
    obtain ⟨k', hk'⟩ := exists_worst hw
    obtain rfl := hk.unique hk'
    obtain rfl := Option.some.inj (hk.here.symm.trans hk'.here)
    unfold failure?
    rw [if_neg fun hall => hmissed.mp hall hsome]
    change (worst? checks).map _ = _
    rw [hw]
    rfl

end RepricingReport

/-! ### The pass after a failed check -/

namespace BootstrapPlan

variable {plan : BootstrapPlan α} {d : Draft α} {pass : Pass α} {curve : NodeCurve α} {report : RepricingReport α}
  {failure e : CurveError α} {o : BootstrapOutcome α}

/-- What a draft is published as. -/
def outcome (plan : BootstrapPlan α) (d : Draft α) (curve : NodeCurve α) (report : RepricingReport α) :
    BootstrapOutcome α :=
  ⟨⟨plan.times, d.last.values⟩, plan.pillarDates, curve, some report, d.passes, d.evaluations⟩

/-- A pass that is seeded with the draft reprices every helper. -/
structure Mends (plan : BootstrapPlan α) (d : Draft α) (pass : Pass α) (curve : NodeCurve α)
    (report : RepricingReport α) : Prop where
  solved : plan.pass d.last.values.tail = .ok pass
  check : plan.globalCheck pass.values = .ok (curve, report)
  passed : report.allPassed = true

/-- Nothing is done about a miss, or to no avail: what is done comes to its end, but does not mend it. -/
def Unmended (plan : BootstrapPlan α) (d : Draft α) : Prop :=
  plan.config.globalRetry = false ∨
    CurveError.completed (plan.retry d) = true ∧ ∀ pass curve report, ¬plan.Mends d pass curve report

theorem unmended_or_mends (plan : BootstrapPlan α) (d : Draft α) :
    plan.Unmended d ∨ plan.config.globalRetry = true ∧
      ((∃ pass curve report, plan.Mends d pass curve report) ∨
        ∃ e, plan.retry d = .error e ∧ e.breaksOff = true) := by
  cases hretry : plan.config.globalRetry with
  | false => exact .inl (.inl hretry)
  | true =>
    by_cases hmends : ∃ pass curve report, plan.Mends d pass curve report
    · exact .inr ⟨rfl, .inl hmends⟩
    · cases hcompleted : CurveError.completed (plan.retry d) with
      | true => exact .inl (.inr ⟨hcompleted, fun pass curve report h => hmends ⟨pass, curve, report, h⟩⟩)
      | false => exact .inr ⟨rfl, .inr (CurveError.exists_of_not_completed hcompleted)⟩

theorem retry_eq_of_mends (h : plan.Mends d pass curve report) : plan.retry d = .ok (⟨pass, d.all⟩, curve, report) := by
  unfold retry extend
  rw [h.solved]
  change (plan.globalCheck pass.values >>= _) = _
  rw [h.check]
  rfl

theorem mends_of_retry {d' : Draft α} (h : plan.retry d = .ok (d', curve, report)) (hpassed : report.allPassed = true) :
    d' = ⟨d'.last, d.all⟩ ∧ plan.Mends d d'.last curve report := by
  obtain ⟨d'', hextend, h⟩ := ok_of_bind h
  obtain ⟨pass, hpass, hextend⟩ := ok_of_bind hextend
  obtain ⟨⟨c, r⟩, hcheck, h⟩ := ok_of_bind h
  cases hextend
  cases h
  exact ⟨rfl, hpass, hcheck, hpassed⟩

theorem recover_of_unmended (h : plan.Unmended d) (failure : CurveError α) : plan.recover d failure = .error failure := by
  unfold recover
  rcases h with hoff | ⟨hcompleted, hnone⟩
  · rw [hoff]
    rfl
  · split
    · split
      · rename_i hretry
        split
        · rename_i hpassed
          exact absurd (mends_of_retry hretry hpassed).2 (hnone _ _ _)
        · rfl
      · rename_i e hretry
        rw [hretry] at hcompleted
        rw [if_neg (CurveError.not_breaksOff_of_completed hcompleted)]
    · rfl

/-- Where one more pass breaks off, so does what it is for. -/
theorem recover_of_breaksOff (hretry : plan.config.globalRetry = true) (he : plan.retry d = .error e)
    (hbreaks : e.breaksOff = true) (failure : CurveError α) : plan.recover d failure = .error e := by
  unfold recover
  rw [if_pos hretry, he]
  exact congrArg Except.error (if_pos hbreaks)

/-- What a draft is published as fits the pillars, so it is never refused. -/
theorem publish_drafted [LawfulDifference α] {inputs : BootstrapInputs α} {config : BootstrapConfig α}
    {solver : RootFinder α} (hmake : make inputs config solver = .ok plan) (hd : plan.Drafted d) (curve : NodeCurve α)
    (report : RepricingReport α) : plan.publish d curve (some report) = .ok (plan.outcome d curve report) := by
  obtain ⟨seeds, -, hpass⟩ := hd
  unfold publish
  rw [ofSolution_of_pass hmake hpass]
  rfl

section
variable [LawfulDifference α] {inputs : BootstrapInputs α} {config : BootstrapConfig α} {solver : RootFinder α}

theorem recover_of_mends (hmake : make inputs config solver = .ok plan) (hd : plan.Drafted d)
    (hretry : plan.config.globalRetry = true) (h : plan.Mends d pass curve report) (failure : CurveError α) :
    plan.recover d failure = .ok (plan.outcome ⟨pass, d.all⟩ curve report) := by
  obtain ⟨seeds, hseeds, hlast⟩ := hd
  unfold recover
  rw [if_pos hretry, retry_eq_of_mends h]
  dsimp only
  rw [if_pos h.passed]
  exact publish_drafted hmake ⟨_, .seeded hseeds hlast, h.solved⟩ curve report

/-- A run that checks its helpers, from the first check on. -/
theorem run_checked (hmake : make inputs config solver = .ok plan) (hchecks : plan.config.globalCheck = true)
    (hdraft : plan.draft = .ok d) :
    plan.run = plan.globalCheck d.last.values >>= fun (curve, report) =>
      match report.failure? with
      | none => .ok (plan.outcome d curve report)
      | some failure => plan.recover d failure := by
  unfold run
  rw [hdraft]
  change (if plan.config.globalCheck = true then _ else _) = _
  rw [if_pos hchecks]
  congr 1
  funext ⟨curve, report⟩
  dsimp only
  cases report.failure? with
  | none => exact publish_drafted hmake (draft_ok hdraft).1 curve report
  | some failure => rfl

end

/-! ### What the first check settles -/

/-- The checks of a report are those of all pillars on one curve, in order. -/
structure Evaluated (plan : BootstrapPlan α) (curve : NodeCurve α) (report : RepricingReport α) : Prop where
  made : ∃ checks, report = .make checks
  count : report.checks.length = plan.pillars.length
  compares : ∀ k p, plan.pillars[k]? = some p → ∃ check, report.checks[k]? = some check ∧
    Compares curve (plan.times.getLastD 0) plan.config.accuracy (k + 1) p check

theorem evaluated_of_globalCheck {values : List α} (h : plan.globalCheck values = .ok (curve, report)) :
    plan.Evaluated curve report := by
  obtain ⟨-, checks, hchecks, rfl⟩ := globalCheck_ok h
  obtain ⟨hlength, hall⟩ := repriceFrom_ok hchecks
  refine ⟨⟨checks, rfl⟩, hlength, fun k p hk => ?_⟩
  obtain ⟨check, hcheck, hreprice⟩ := hall k p hk
  rw [Nat.add_comm 1 k] at hreprice
  exact ⟨check, hcheck, compares_of_reprice hreprice⟩

/-- Check `k` is that of pillar `k`, which has the number after it. -/
theorem Evaluated.pillar (h : plan.Evaluated curve report) {k : Nat} {check : RepricingCheck α}
    (hcheck : report.checks[k]? = some check) :
    ∃ p, plan.pillars[k]? = some p ∧
      Compares curve (plan.times.getLastD 0) plan.config.accuracy (k + 1) p check := by
  have hlt : k < plan.pillars.length := by
    rw [← h.count]
    exact (List.getElem?_eq_some_iff.mp hcheck).1
  obtain ⟨check', hcheck', hcompares⟩ := h.compares k _ (List.getElem?_eq_getElem hlt)
  obtain rfl := Option.some.inj (hcheck.symm.trans hcheck')
  exact ⟨_, List.getElem?_eq_getElem hlt, hcompares⟩

/-- Every helper is repriced over the values, but some are missed: number `index` by `residual`, and none by more. -/
def Misses (plan : BootstrapPlan α) (values : List α) (index : Nat) (residual : α) : Prop :=
  ∃ curve report k worst, plan.globalCheck values = .ok (curve, report) ∧
    (∃ check ∈ report.checks, ¬check.error ≤ plan.config.accuracy) ∧
    RepricingReport.Worst report.checks k worst ∧ index = k + 1 ∧ residual = worst.residual

/-- A check of number `index` among others, which misses its pillar by `residual` and is missed by no more elsewhere. -/
structure Blames (plan : BootstrapPlan α) (curve : NodeCurve α) (report : RepricingReport α) (index : Nat)
    (residual : α) (p : Pillar α) (check : RepricingCheck α) : Prop where
  pillar : plan.pillars[index - 1]? = some p
  here : report.checks[index - 1]? = some check
  compares : Compares curve (plan.times.getLastD 0) plan.config.accuracy index p check
  residual : residual = check.implied - check.market
  largest : ∀ other ∈ report.checks, ¬check.error < other.error
  /-- Of several it is the last. -/
  last : ∀ k other, index ≤ k → report.checks[k]? = some other → other.error ≠ check.error

/-- The failure that is told is that of the checks themselves. -/
theorem failure?_of_globalCheck [LawfulOrder α] {values : List α} (h : plan.globalCheck values = .ok (curve, report)) :
    report.failure? = some failure ↔ ∃ i r, failure = .globalCheckFailure i r ∧ plan.Misses values i r := by
  have heval := evaluated_of_globalCheck h
  have hindex {k : Nat} {worst : RepricingCheck α} (hw : RepricingReport.Worst report.checks k worst) :
      worst.index = k + 1 := by
    obtain ⟨p, -, hp⟩ := heval.pillar hw.here
    exact hp.index
  have hmissed : (∃ c ∈ report.checks, c.passed = false) ↔ ∃ c ∈ report.checks, ¬c.error ≤ plan.config.accuracy := by
    refine exists_congr fun c => and_congr_right fun hc => ?_
    obtain ⟨k, hk⟩ := List.getElem?_of_mem hc
    obtain ⟨p, -, hp⟩ := heval.pillar hk
    rw [hp.passed, decide_eq_false_iff_not]
  obtain ⟨checks, rfl⟩ := heval.made
  rw [RepricingReport.failure?_eq_some_iff]
  constructor
  · rintro ⟨hsome, k, worst, hw, rfl⟩
    exact ⟨_, _, rfl, curve, _, k, worst, h, hmissed.mp hsome, hw, hindex hw, rfl⟩
  · rintro ⟨i, r, rfl, curve', report', k, worst, h', hsome, hw, rfl, rfl⟩
    cases h.symm.trans h'
    exact ⟨hmissed.mpr hsome, k, worst, hw, by rw [hindex hw]⟩

theorem Misses.blames [LawfulOrder α] [LawfulComparison α] {values : List α} {i : Nat} {r : α}
    (h : plan.Misses values i r) : ∃ curve report p check, plan.globalCheck values = .ok (curve, report) ∧
      plan.Evaluated curve report ∧ plan.Blames curve report i r p check := by
  obtain ⟨curve, report, k, worst, hcheck, -, hw, rfl, rfl⟩ := h
  have heval := evaluated_of_globalCheck hcheck
  obtain ⟨p, hp, hcompares⟩ := heval.pillar hw.here
  refine ⟨curve, report, p, worst, hcheck, heval, hp, hw.here, hcompares, hcompares.residual, fun other ho => ?_,
    fun j other hj ho heq => ?_⟩
  · exact LawfulComparison.not_lt_of_totalLe (hw.largest other ho)
  · have hless := hw.last j other hj ho
    rw [heq, LawfulOrder.totalLe_self] at hless
    cases hless

section
variable [LawfulOrder α] [LawfulDifference α] {inputs : BootstrapInputs α} {config : BootstrapConfig α}
  {solver : RootFinder α}

omit [LawfulOrder α] in
theorem run_of_passed (hmake : make inputs config solver = .ok plan) (hchecks : plan.config.globalCheck = true)
    (hdraft : plan.draft = .ok d) (hcheck : plan.globalCheck d.last.values = .ok (curve, report))
    (hpassed : report.allPassed = true) : plan.run = .ok (plan.outcome d curve report) := by
  obtain ⟨checks, rfl⟩ := (evaluated_of_globalCheck hcheck).made
  rw [run_checked hmake hchecks hdraft, hcheck]
  change (match (RepricingReport.make checks).failure? with | none => _ | some failure => _) = _
  rw [RepricingReport.failure?_eq_none_iff.mpr hpassed]

/-- After a miss all depends on what is done about it. -/
theorem run_of_misses (hmake : make inputs config solver = .ok plan) (hchecks : plan.config.globalCheck = true)
    (hdraft : plan.draft = .ok d) {i : Nat} {r : α} (h : plan.Misses d.last.values i r) :
    plan.run = plan.recover d (.globalCheckFailure i r) := by
  have hmisses := h
  obtain ⟨curve, report, -, -, hcheck, -⟩ := hmisses
  rw [run_checked hmake hchecks hdraft, hcheck]
  change (match report.failure? with | none => _ | some failure => _) = _
  rw [(failure?_of_globalCheck hcheck).mpr ⟨i, r, rfl, h⟩]

/-- How a run ends that has come to its first check. -/
inductive Concludes (plan : BootstrapPlan α) (d : Draft α) : Except (CurveError α) (BootstrapOutcome α) → Prop where
  /-- The check cannot be made. -/
  | unchecked {e : CurveError α} (failed : plan.globalCheck d.last.values = .error e) : Concludes plan d (.error e)
  | passed {curve : NodeCurve α} {report : RepricingReport α}
      (check : plan.globalCheck d.last.values = .ok (curve, report)) (passed : report.allPassed = true) :
      Concludes plan d (.ok (plan.outcome d curve report))
  /-- Nothing mends a miss, whatever error there was in trying to. -/
  | missed {i : Nat} {r : α} (misses : plan.Misses d.last.values i r) (unmended : plan.Unmended d) :
      Concludes plan d (.error (.globalCheckFailure i r))
  /-- One more pass mends a miss, and all that is published is from that pass. -/
  | mended {i : Nat} {r : α} {pass : Pass α} {curve : NodeCurve α} {report : RepricingReport α}
      (misses : plan.Misses d.last.values i r) (retry : plan.config.globalRetry = true)
      (mends : plan.Mends d pass curve report) : Concludes plan d (.ok (plan.outcome ⟨pass, d.all⟩ curve report))
  /-- One more pass breaks off, which is no end of its own. -/
  | brokenOff {i : Nat} {r : α} {e : CurveError α} (misses : plan.Misses d.last.values i r)
      (retry : plan.config.globalRetry = true) (failed : plan.retry d = .error e) (breaksOff : e.breaksOff = true) :
      Concludes plan d (.error e)

theorem run_of_concludes (hmake : make inputs config solver = .ok plan) (hchecks : plan.config.globalCheck = true)
    (hdraft : plan.draft = .ok d) {result : Except (CurveError α) (BootstrapOutcome α)} (h : plan.Concludes d result) :
    plan.run = result := by
  cases h with
  | unchecked failed =>
    rw [run_checked hmake hchecks hdraft, failed]
    rfl
  | passed check passed => exact run_of_passed hmake hchecks hdraft check passed
  | missed misses unmended => rw [run_of_misses hmake hchecks hdraft misses, recover_of_unmended unmended]
  | mended misses retry mends =>
    rw [run_of_misses hmake hchecks hdraft misses, recover_of_mends hmake (draft_ok hdraft).1 retry mends]
  | brokenOff misses retry failed breaksOff =>
    rw [run_of_misses hmake hchecks hdraft misses, recover_of_breaksOff retry failed breaksOff]

/-- There is always one of these ends, and each of them is the only one. -/
theorem run_eq_iff_concludes (hmake : make inputs config solver = .ok plan) (hchecks : plan.config.globalCheck = true)
    (hdraft : plan.draft = .ok d) {result : Except (CurveError α) (BootstrapOutcome α)} :
    plan.run = result ↔ plan.Concludes d result := by
  have hsome : ∃ result, plan.Concludes d result := by
    cases hcheck : plan.globalCheck d.last.values with
    | error e => exact ⟨_, .unchecked hcheck⟩
    | ok checked =>
      obtain ⟨curve, report⟩ := checked
      cases hfailure : report.failure? with
      | none =>
        obtain ⟨checks, rfl⟩ := (evaluated_of_globalCheck hcheck).made
        exact ⟨_, .passed hcheck (RepricingReport.failure?_eq_none_iff.mp hfailure)⟩
      | some failure =>
        obtain ⟨i, r, -, hmisses⟩ := (failure?_of_globalCheck hcheck).mp hfailure
        rcases plan.unmended_or_mends d with
          hunmended | ⟨hretry, ⟨pass, curve', report', hmends⟩ | ⟨e, hfailed, hbreaks⟩⟩
        · exact ⟨_, .missed hmisses hunmended⟩
        · exact ⟨_, .mended hmisses hretry hmends⟩
        · exact ⟨_, .brokenOff hmisses hretry hfailed hbreaks⟩
  refine ⟨fun h => ?_, run_of_concludes hmake hchecks hdraft⟩
  -- The end that is reached has the result of the run, and a run has but one.
  obtain ⟨result', hconcludes⟩ := hsome
  rw [← h, run_of_concludes hmake hchecks hdraft hconcludes]
  exact hconcludes

end

theorem draft_passes (h : plan.draft = .ok d) : ∃ first, plan.pass [] = .ok first ∧
    (plan.scheme.isGlobal = true → plan.pass first.values.tail = .ok d.last ∧ d.earlier = [first]) ∧
    (plan.scheme.isGlobal = false → d = ⟨first, []⟩) := by
  obtain ⟨first, hfirst, h⟩ := ok_of_bind h
  refine ⟨first, hfirst, fun hglobal => ?_, fun hglobal => ?_⟩
  · dsimp only at h
    rw [if_pos hglobal] at h
    obtain ⟨pass, hpass, h⟩ := ok_of_bind h
    cases h
    exact ⟨hpass, rfl⟩
  · dsimp only at h
    rw [hglobal] at h
    exact (Except.ok.inj h).symm

/-- A run that checks its helpers is settled by its first check, which is made after the only pass, or after the second
    one of a global scheme. It fails with a missed check just when that check evaluates all helpers but misses some, and
    one more pass is not asked for or does not mend that; what it tells is the worst miss of that check. There are three
    other ways for it to end, and in none of them is an error told that is met after that check; but where one more pass
    breaks off, it does so too. -/
theorem run_settled_by_first_check [LawfulOrder α] [LawfulDifference α] [LawfulComparison α]
    {inputs : BootstrapInputs α} {config : BootstrapConfig α} {solver : RootFinder α}
    (hmake : make inputs config solver = .ok plan) (hchecks : config.globalCheck = true)
    (hdraft : plan.draft = .ok d) :
    (∃ first, plan.pass [] = .ok first ∧
      (inputs.scheme.isGlobal = true → plan.pass first.values.tail = .ok d.last ∧ d.earlier = [first]) ∧
      (inputs.scheme.isGlobal = false → d = ⟨first, []⟩)) ∧
    (∀ i r, plan.run = .error (.globalCheckFailure i r) ↔ plan.Misses d.last.values i r ∧ plan.Unmended d) ∧
    (∀ i r, plan.Misses d.last.values i r → ∃ curve report p check,
      plan.globalCheck d.last.values = .ok (curve, report) ∧ plan.Evaluated curve report ∧
        plan.Blames curve report i r p check) ∧
    ∀ result, plan.run = result ↔ plan.Concludes d result := by
  obtain ⟨hplan, -, -, -⟩ := make_ok hmake
  have hscheme : plan.scheme = inputs.scheme := by rw [hplan]
  have hchecks' : plan.config.globalCheck = true := by rw [hplan, hchecks]
  have hends {result : Except (CurveError α) (BootstrapOutcome α)} : plan.run = result ↔ plan.Concludes d result :=
    run_eq_iff_concludes hmake hchecks' hdraft
  refine ⟨?_, fun i r => ⟨fun h => ?_, fun ⟨hmisses, hunmended⟩ => hends.mpr (.missed hmisses hunmended)⟩,
    fun i r => Misses.blames, fun result => hends⟩
  · rw [← hscheme]
    exact draft_passes hdraft
  · cases hends.mp h with
    | unchecked failed =>
      rcases globalCheck_error failed with ⟨source, heq⟩ | ⟨curve, k, p, -, hreprice⟩
      · cases heq
      · obtain ⟨-, source, heq, -⟩ := reprice_error hreprice
        cases heq
    | missed misses unmended => exact ⟨misses, unmended⟩
    | brokenOff misses retry failed breaksOff => cases breaksOff

end BootstrapPlan

/-- A hazard rate that is quoted for some date, whichever its pillar. -/
def hazardAt (pillar read : Date) (quote : ℚ) : Helper ℚ :=
  ⟨⟨pillar, read, "Hazard rate", fun f => Reading.value (f.time read)⟩, some quote⟩

/-- A hazard rate at the end of two years for the node at the end of the first one, and one at a later node. -/
def aheadInputs (last : Date) : BootstrapInputs ℚ where
  frame := ⟨.newYear 2025, .act365Fixed, .hazardRate⟩
  scheme := Method.linear.scheme
  helpers := [hazardAt (.newYear 2026) (.newYear 2027) (2 / 100), hazardAt last last (1 / 100)]

def aheadPlan (last : Date) : BootstrapPlan ℚ where
  frame := (aheadInputs last).frame
  scheme := (aheadInputs last).scheme
  config := default
  solver := Brent.finder default
  pillars := (aheadInputs last).helpers.map (Pillar.make (aheadInputs last).frame)

/-- Two rates for one date are at odds. One more pass fails, of which nothing is told. -/
theorem run_settled_by_first_check_ahead :
    ∃ d e, (aheadPlan (.newYear 2027)).draft = .ok d ∧ (aheadPlan (.newYear 2027)).retry d = .error e ∧
      (aheadPlan (.newYear 2027)).Misses d.last.values 1 (-1 / 100) ∧ (aheadPlan (.newYear 2027)).Unmended d := by
  have hmake : BootstrapPlan.make (aheadInputs (.newYear 2027)) default (Brent.finder default)
      = .ok (aheadPlan (.newYear 2027)) :=
    BootstrapPlan.make_of_pairwise rfl (ok_of_toOption (by decide +kernel)) le_rfl (by decide) (by decide +kernel)
      (ok_of_toOption (by decide +kernel))
  obtain ⟨d, hd⟩ := ok_of_isSome (by decide +kernel : (aheadPlan (.newYear 2027)).draft.toOption.isSome = true)
  have hretry : ((aheadPlan (.newYear 2027)).draft >>= (aheadPlan (.newYear 2027)).retry).toOption.isNone = true := by
    decide +kernel
  rw [hd] at hretry
  obtain ⟨e, he⟩ := error_of_isNone hretry
  have hrun : ((aheadPlan (.newYear 2027)).run.map fun _ => ()) = .error (.globalCheckFailure 1 (-1 / 100)) := by
    decide +kernel
  obtain ⟨-, hiff, -⟩ := BootstrapPlan.run_settled_by_first_check hmake rfl hd
  exact ⟨d, e, hd, he, (hiff _ _).mp (error_of_map hrun)⟩

/-- Where the later node lies behind the date of the first rate, one more pass mends what the first one missed. -/
example : (aheadPlan (.newYear 2028)).run.toOption.map (fun o => (o.passes, o.nodes.values)) =
    some (2, [0, 3 / 100, 1 / 100]) := by
  decide +kernel

end TermStructure
