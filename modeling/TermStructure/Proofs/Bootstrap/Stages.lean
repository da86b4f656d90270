import TermStructure.Bootstrap.Run

/-!
# Stages of a bootstrap

What each stage of a bootstrap hands on when it succeeds.
-/

namespace TermStructure

theorem ok_of_bind {ε β γ : Type} {x : Except ε β} {f : β → Except ε γ} {c : γ} (h : (x >>= f) = .ok c) :
    ∃ b, x = .ok b ∧ f b = .ok c := by
  cases x with
  | error e => cases h
  | ok b => exact ⟨b, rfl, h⟩

theorem ok_of_mapError {ε ε' β : Type} {x : Except ε β} {f : ε → ε'} {b : β} (h : x.mapError f = .ok b) : x = .ok b := by
  cases x with
  | error e => cases h
  | ok c =>
    cases h
    rfl

theorem ok_of_toOption {ε β : Type} {x : Except ε β} {b : β} (h : x.toOption = some b) : x = .ok b := by
  cases x with
  | error e => cases h
  | ok c =>
    cases h
    rfl

theorem ok_of_isSome {ε β : Type} {x : Except ε β} (h : x.toOption.isSome = true) : ∃ b, x = .ok b := by
  obtain ⟨b, hb⟩ := Option.isSome_iff_exists.mp h
  exact ⟨b, ok_of_toOption hb⟩

theorem error_of_isNone {ε β : Type} {x : Except ε β} (h : x.toOption.isNone = true) : ∃ e, x = .error e := by
  cases x with
  | error e => exact ⟨e, rfl⟩
  | ok b => cases h

theorem error_of_map {ε β γ : Type} {x : Except ε β} {f : β → γ} {e : ε} (h : x.map f = .error e) : x = .error e := by
  cases x with
  | error e' =>
    cases h
    rfl
  | ok b => cases h

theorem BootstrapPlan.curveOver_ok {α : Type} {plan : BootstrapPlan α} {curve : NodeCurve α} {index : Nat}
    {times values : List α} (h : plan.curveOver index times values = .ok curve) :
    ∃ f, plan.scheme.build times values = .ok f ∧ curve = ⟨plan.frame, f, false⟩ := by
  unfold curveOver at h
  split at h
  · rename_i f hf
    exact ⟨f, hf, (Except.ok.inj h).symm⟩
  · cases h

theorem BootstrapPlan.curveOver_of_build {α : Type} {plan : BootstrapPlan α} {f : Interpolant α} {times values : List α}
    (h : plan.scheme.build times values = .ok f) (index : Nat) :
    plan.curveOver index times values = .ok ⟨plan.frame, f, false⟩ := by
  unfold curveOver
  rw [h]

variable {α : Type} [Scalar α]

theorem NodeStore.ofSolution_ok {times values : List α} {s : NodeStore α} (h : ofSolution times values = .ok s) :
    s = ⟨times, values⟩ := by
  unfold ofSolution at h
  split at h
  · cases h
  · split at h
    · cases h
    · split at h
      · cases h
      · exact (Except.ok.inj h).symm

/-! ### The check of the pillars -/

/-- What the check says of a pillar after a node at time `previous`. -/
theorem Pillar.check_cons {index : Nat} {previous : α} {p : Pillar α} {rest : List (Pillar α)}
    (h : check index previous (p :: rest) = .ok ()) :
    Scalar.isFinite p.time = true ∧ ¬p.time - previous ≤ minSpacing ∧ check (index + 1) p.time rest = .ok () := by
  unfold check at h
  split at h
  · cases h
  · rename_i hvalid
    split at h
    · cases h
    · rename_i hspacing
      rw [Bool.or_eq_true, not_or, Bool.not_eq_true', Bool.not_eq_false] at hvalid
      exact ⟨hvalid.1, hspacing, h⟩

theorem Pillar.finite_of_check {index : Nat} {previous : α} {pillars : List (Pillar α)}
    (h : check index previous pillars = .ok ()) : ∀ p ∈ pillars, Scalar.isFinite p.time = true := by
  induction pillars generalizing index previous with
  | nil =>
    intro p hp
    cases hp
  | cons q rest ih =>
    obtain ⟨hfinite, -, hrest⟩ := check_cons h
    intro p hp
    rcases List.mem_cons.mp hp with rfl | hp
    · exact hfinite
    · exact ih hrest p hp

/-! ### Repricing one helper -/

/-- What a check that was made compares. -/
theorem RepricingCheck.evaluate_ok {index : Nat} {h : Helper α} {curve : NodeCurve α} {tolerance : α}
    {check : RepricingCheck α} (hc : evaluate index h curve tolerance = .ok check) :
    ∃ market implied, h.quote = some market ∧ curve.read (h.instrument.implied curve.frame) = .ok implied ∧
      check = make index h.instrument.description market implied tolerance := by
  obtain ⟨market, hm, hc⟩ := ok_of_bind hc
  obtain ⟨implied, hi, hc⟩ := ok_of_bind hc
  refine ⟨market, implied, ?_, hi, (Except.ok.inj hc).symm⟩
  unfold Helper.marketQuote at hm
  cases hq : h.quote with
  | none =>
    rw [hq] at hm
    cases hm
  | some q =>
    rw [hq] at hm
    rw [Except.ok.inj hm]

theorem RepricingCheck.evaluate_eq {index : Nat} {h : Helper α} {curve : NodeCurve α} {tolerance market : α}
    (hq : h.quote = some market) :
    evaluate index h curve tolerance
      = (curve.read (h.instrument.implied curve.frame)).map (make index h.instrument.description market · tolerance) := by
  unfold evaluate Helper.marketQuote
  rw [hq]
  cases curve.read (h.instrument.implied curve.frame) <;> rfl

theorem foldl_ne_none {β γ : Type} {f : Option β → γ → Option β} (hf : ∀ w c, f w c ≠ none) {init : Option β}
    {cs : List γ} (h : cs ≠ []) : cs.foldl f init ≠ none := by
  induction cs generalizing init with
  | nil => exact absurd rfl h
  | cons c rest ih =>
    cases rest with
    | nil => exact hf init c
    | cons c' rest => exact ih (List.cons_ne_nil c' rest)

/-- A worst check is found among any. -/
theorem RepricingReport.worst?_ne_none {checks : List (RepricingCheck α)} (h : checks ≠ []) : worst? checks ≠ none := by
  refine foldl_ne_none (fun w c => ?_) h
  cases w with
  | none => exact nofun
  | some w =>
    dsimp only
    split <;> exact nofun

/-- There is no failure to report just when every check passed. -/
theorem RepricingReport.failure?_eq_none_iff {checks : List (RepricingCheck α)} :
    (make checks).failure? = none ↔ (make checks).allPassed = true := by
  unfold failure?
  split
  · simp_all
  · rename_i h
    simp only [Option.map_eq_none_iff, h, Bool.false_eq_true, iff_false]
    intro hw
    cases checks with
    | nil => exact h rfl
    | cons c rest => exact worst?_ne_none (List.cons_ne_nil c rest) hw

namespace BootstrapPlan

variable {plan : BootstrapPlan α} {curve : NodeCurve α} {d : Draft α} {o : BootstrapOutcome α}
  {report : RepricingReport α}

/-- The helper reads beyond the last node, and says so. -/
def declares (plan : BootstrapPlan α) (p : Pillar α) : Bool := decide (p.latestTime > plan.times.getLastD 0)

theorem reprice_ok {index : Nat} {p : Pillar α} {check : RepricingCheck α}
    (h : plan.reprice curve index p = .ok check) :
    ∃ allow, RepricingCheck.evaluate index p.helper (curve.extrapolating allow) plan.config.accuracy = .ok check ∧
      (allow = plan.declares p ∨ allow = true ∧ ∃ t low high,
        RepricingCheck.evaluate index p.helper (curve.extrapolating (plan.declares p)) plan.config.accuracy
          = .error (.extrapolation t low high)) := by
  have h := ok_of_mapError h
  split at h
  · rename_i t low high hext
    split at h
    · cases h
    · exact ⟨true, h, .inr ⟨rfl, t, low, high, hext⟩⟩
  · exact ⟨_, h, .inl rfl⟩

/-- Every pillar has its check, in order. -/
theorem repriceFrom_ok {index : Nat} {pillars : List (Pillar α)} {checks : List (RepricingCheck α)}
    (h : plan.repriceFrom curve index pillars = .ok checks) :
    checks.length = pillars.length ∧ ∀ k p, pillars[k]? = some p →
      ∃ check, checks[k]? = some check ∧ plan.reprice curve (index + k) p = .ok check := by
  induction pillars generalizing index checks with
  | nil =>
    cases h
    exact ⟨rfl, fun k p hk => by simp at hk⟩
  | cons q rest ih =>
    obtain ⟨check, hcheck, h⟩ := ok_of_bind h
    obtain ⟨later, hlater, h⟩ := ok_of_bind h
    cases h
    obtain ⟨hlen, hrest⟩ := ih hlater
    refine ⟨by simp [hlen], fun k p hk => ?_⟩
    cases k with
    | zero =>
      cases hk
      exact ⟨check, rfl, hcheck⟩
    | succ k =>
      obtain ⟨c, hc, hp⟩ := hrest k p hk
      exact ⟨c, hc, by rw [← hp]; congr 1; omega⟩

theorem globalCheck_ok {values : List α} (h : plan.globalCheck values = .ok (curve, report)) :
    plan.finishedCurve values = .ok curve ∧
      ∃ checks, plan.repriceFrom curve 1 plan.pillars = .ok checks ∧ report = .make checks := by
  obtain ⟨c, hc, h⟩ := ok_of_bind h
  obtain ⟨checks, hchecks, h⟩ := ok_of_bind h
  cases h
  exact ⟨hc, checks, hchecks, rfl⟩

theorem publish_ok {report : Option (RepricingReport α)} (h : plan.publish d curve report = .ok o) :
    o = ⟨⟨plan.times, d.last.values⟩, plan.pillarDates, curve, report, d.passes, d.evaluations⟩ := by
  obtain ⟨nodes, hn, h⟩ := ok_of_bind h
  rw [NodeStore.ofSolution_ok hn] at h
  exact (Except.ok.inj h).symm

/-- What is published after a check is what was checked, and the check passed. -/
structure Checked (plan : BootstrapPlan α) (d : Draft α) (curve : NodeCurve α) (report : RepricingReport α)
    (o : BootstrapOutcome α) : Prop where
  check : plan.globalCheck d.last.values = .ok (curve, report)
  passed : report.allPassed = true
  publish : plan.publish d curve (some report) = .ok o

theorem recover_ok {failure : CurveError α} (h : plan.recover d failure = .ok o) :
    ∃ d curve report, Checked plan d curve report o := by
  unfold recover at h
  split at h
  · split at h
    · rename_i d' curve report hretry
      split at h
      · rename_i hpassed
        obtain ⟨d'', -, hretry⟩ := ok_of_bind hretry
        obtain ⟨⟨c, r⟩, hcheck, hretry⟩ := ok_of_bind hretry
        cases hretry
        exact ⟨_, _, _, hcheck, hpassed, h⟩
      · cases h
    · cases h
  · cases h

/-- By whichever path a run succeeds, it publishes what it has checked. -/
theorem run_ok (hg : plan.config.globalCheck = true) (h : plan.run = .ok o) :
    ∃ d curve report, Checked plan d curve report o := by
  obtain ⟨d, -, h⟩ := ok_of_bind h
  rw [if_pos hg] at h
  obtain ⟨⟨curve, report⟩, hcheck, h⟩ := ok_of_bind h
  dsimp only at h
  split at h
  · rename_i hnone
    obtain ⟨-, checks, -, rfl⟩ := globalCheck_ok hcheck
    exact ⟨d, curve, _, hcheck, RepricingReport.failure?_eq_none_iff.mp hnone, h⟩
  · exact recover_ok h

theorem make_ok {inputs : BootstrapInputs α} {config : BootstrapConfig α} {solver : RootFinder α}
    (h : make inputs config solver = .ok plan) :
    plan = ⟨inputs.frame, inputs.scheme, config, solver, Pillar.inOrder (inputs.helpers.map (Pillar.make inputs.frame))⟩ ∧
      Pillar.check 1 0 plan.pillars = .ok () ∧ inputs.helpers ≠ [] ∧ config.validate = .ok () := by
  obtain ⟨_, hv, h⟩ := ok_of_bind h
  dsimp only at h
  split at h
  · cases h
  · split at h
    · cases h
    · rename_i hne
      obtain ⟨_, hcheck, h⟩ := ok_of_bind h
      cases h
      exact ⟨rfl, hcheck, fun hnil => hne (by rw [hnil]; rfl), hv⟩

variable {inputs : BootstrapInputs α} {config : BootstrapConfig α} {solver : RootFinder α}

/-- Helpers given in the order of their pillars are planned for as they are. -/
theorem make_of_pairwise {pillars : List (Pillar α)} (hpillars : inputs.helpers.map (Pillar.make inputs.frame) = pillars)
    (hvalid : config.validate = .ok ()) (hmin : inputs.scheme.minPoints ≤ firstTrialNodes) (hne : pillars ≠ [])
    (horder : pillars.Pairwise fun p q => Scalar.totalLe p.time q.time = true)
    (hcheck : Pillar.check 1 0 pillars = .ok ()) :
    make inputs config solver = .ok ⟨inputs.frame, inputs.scheme, config, solver, pillars⟩ := by
  subst hpillars
  have hsort : Pillar.inOrder (inputs.helpers.map (Pillar.make inputs.frame)) =
      inputs.helpers.map (Pillar.make inputs.frame) := List.mergeSort_of_pairwise horder
  have hempty : ¬inputs.helpers.isEmpty = true := fun hnil => hne (List.map_eq_nil_iff.mpr (List.isEmpty_iff.mp hnil))
  unfold make
  rw [hvalid]
  change (if inputs.scheme.minPoints > firstTrialNodes then _ else _) = _
  rw [if_neg (Nat.not_lt.mpr hmin), if_neg hempty, hsort]
  dsimp only
  rw [hcheck]
  rfl

theorem pillars_perm (h : make inputs config solver = .ok plan) :
    plan.pillars.Perm (inputs.helpers.map (Pillar.make inputs.frame)) := by
  obtain ⟨rfl, -⟩ := make_ok h
  exact List.mergeSort_perm _ _

theorem pillars_length (h : make inputs config solver = .ok plan) :
    plan.pillars.length = inputs.helpers.length := by
  rw [(pillars_perm h).length_eq, List.length_map]

/-- Every pillar is that of a helper. -/
theorem exists_helper {p : Pillar α} (h : make inputs config solver = .ok plan) (hp : p ∈ plan.pillars) :
    ∃ helper ∈ inputs.helpers, Pillar.make inputs.frame helper = p :=
  List.mem_map.mp ((pillars_perm h).mem_iff.mp hp)

/-- A pillar is made from its helper. -/
theorem make_helper {p : Pillar α} (h : make inputs config solver = .ok plan) (hp : p ∈ plan.pillars) :
    Pillar.make inputs.frame p.helper = p := by
  obtain ⟨helper, -, rfl⟩ := exists_helper h hp
  rfl

theorem pillars_ne_nil (h : make inputs config solver = .ok plan) : plan.pillars ≠ [] := by
  obtain ⟨-, -, hne, -⟩ := make_ok h
  intro hnil
  have hperm := pillars_perm h
  rw [hnil] at hperm
  exact hne (List.map_eq_nil_iff.mp hperm.nil_eq.symm)

end BootstrapPlan

theorem bootstrap_ok {inputs : BootstrapInputs α} {config : BootstrapConfig α} {solver : RootFinder α}
    {o : BootstrapOutcome α} (h : bootstrap inputs config solver = .ok o) :
    ∃ plan, BootstrapPlan.make inputs config solver = .ok plan ∧ plan.run = .ok o :=
  ok_of_bind h

end TermStructure
