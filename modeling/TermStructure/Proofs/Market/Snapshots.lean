import TermStructure.Proofs.Bootstrap.Alignment
import TermStructure.Proofs.Market.Versions

/-!
# Snapshots

What a curve of a market has committed is what one solve returned, whatever was done to the curve since:
its reference date, its helpers and their quotes may have changed, but the snapshot is of one moment.
-/

namespace TermStructure

namespace Controller

variable {α : Type} {c d : Controller α} {n : Nat}

theorem isUpToDate_iff : c.isUpToDate = true ↔ c.cleanVersion = c.version := beq_iff_eq

/-- A change leaves nothing clean. -/
theorem Orderly.stale (ho : c.Orderly) (hv : c.version < d.version) (hc : d.cleanVersion = c.cleanVersion) :
    d.isUpToDate = false := by
  have hclean := ho.clean
  rw [Bool.eq_false_iff, Ne, isUpToDate_iff]
  omega

/-- What is up to date after news was so before. -/
theorem Orderly.isUpToDate_of_heard (ho : c.Orderly) (h : c.Heard n d) (hd : d.isUpToDate = true) :
    c.isUpToDate = true := by
  rcases h.cases with ⟨-, h⟩ | ⟨-, -, h⟩ | ⟨hn, -, h⟩
  · rw [h] at hd
    exact hd
  · rw [h] at hd
    exact hd
  · have hstale : d.isUpToDate = false := by
      rw [h]
      exact ho.stale (Nat.lt_add_of_pos_right (Nat.pos_of_ne_zero hn)) rfl
    rw [hstale] at hd
    cases hd

theorem Orderly.isUpToDate_of_release (ho : c.Orderly) (hd : c.release.isUpToDate = true) : c.isUpToDate = true := by
  rcases release_eq ho with ⟨-, hr⟩ | ⟨-, hr⟩
  · have hstale : c.release.isUpToDate = false := by
      rw [hr]
      exact ho.stale (Nat.lt_succ_self _) rfl
    rw [hstale] at hd
    cases hd
  · rw [hr] at hd
    exact hd

end Controller

namespace PiecewiseCurve

variable {α : Type} [Scalar α] {c d : PiecewiseCurve α} {quotes : QuoteId → Option α}

/-- The inputs the curve would have with another reference date and other helpers. -/
def inputsAt (c : PiecewiseCurve α) (reference : Date) (helpers : List (MarketHelper α))
    (quotes : QuoteId → Option α) : BootstrapInputs α :=
  ⟨⟨reference, c.config.dayCount, c.config.kind⟩, c.scheme, helpers.map (·.priced quotes)⟩

/-- What is committed is what a solve of given helpers returned. -/
def SolvedFrom (c : PiecewiseCurve α) (reference : Date) (helpers : List (MarketHelper α)) : Prop :=
  ∃ quotes o, bootstrap (c.inputsAt reference helpers quotes) c.config.bootstrap c.solver = .ok o ∧
    c.committed = .ofOutcome reference o

/-- What is committed comes from a solve, if there was one, and from one of the present helpers if it counts
    as valid. -/
structure Settled (c : PiecewiseCurve α) : Prop where
  solved : c.committed.curve.isSome = true → ∃ reference helpers, c.SolvedFrom reference helpers
  valid : c.isValid = true → c.SolvedFrom c.reference c.helpers

theorem Settled.withController (h : c.Settled) {k : Controller α}
    (hk : k.isUpToDate = true → c.controller.isUpToDate = true) : Settled { c with controller := k } :=
  ⟨h.solved, fun hv => h.valid (hk hv)⟩

theorem Settled.heard {n : Nat} (ho : c.controller.Orderly) (h : c.Settled) (hd : c.Heard n d) : d.Settled := by
  obtain ⟨k, hk, rfl⟩ := hd
  exact h.withController (ho.isUpToDate_of_heard hk)

/-- A change of the inputs themselves leaves a snapshot of what they were. -/
theorem Settled.of_stale (h : c.Settled) {reference : Date} {helpers : List (MarketHelper α)} {k : Controller α}
    (hk : k.isUpToDate = false) : Settled { c with reference, helpers, controller := k } := by
  refine ⟨h.solved, fun hv => ?_⟩
  rw [isValid, hk] at hv
  cases hv

theorem Settled.moved (ho : c.controller.Orderly) (h : c.Settled) (reference : Date) :
    (c.moved reference).Settled :=
  h.of_stale (ho.stale (Nat.lt_succ_self _) rfl)

theorem Settled.rehelped (ho : c.controller.Orderly) (h : c.Settled) (helpers : List (MarketHelper α)) :
    (c.rehelped helpers).Settled :=
  h.of_stale (ho.stale (Nat.lt_succ_self _) rfl)

theorem Settled.settle (h : c.Settled) (hinvalid : c.isValid = false) (quotes : QuoteId → Option α) :
    (c.settle (c.solve quotes)).Settled := by
  cases hs : c.solve quotes with
  | error e =>
    refine ⟨h.solved, fun hv => ?_⟩
    have hclean : (c.settle (.error e)).isValid = c.isValid := rfl
    rw [hclean, hinvalid] at hv
    cases hv
  | ok committed =>
    obtain ⟨o, ho, rfl⟩ := ok_of_map hs
    have hfrom : (c.settle (.ok (.ofOutcome c.reference o))).SolvedFrom c.reference c.helpers := ⟨quotes, o, ho, rfl⟩
    exact ⟨fun _ => ⟨_, _, hfrom⟩, fun _ => hfrom⟩

/-- Every move leaves a snapshot of one moment. -/
theorem Settled.move (ho : c.controller.Orderly) (h : c.Settled) (hd : c.Move quotes d) : d.Settled := by
  cases hd with
  | hear hd => exact h.heard ho hd
  | advance => exact h.of_stale (ho.stale (Nat.lt_succ_self _) rfl)
  | freeze => exact h.withController id
  | release => exact h.withController ho.isUpToDate_of_release
  | refer reference => exact h.moved ho reference
  | extrapolate allow => exact ⟨h.solved, h.valid⟩
  | effect e => exact ⟨h.solved, h.valid⟩
  | ensure =>
    unfold PiecewiseCurve.ensure
    cases hv : c.controller.verdict? with
    | some r => exact h
    | none =>
      refine h.settle ?_ quotes
      have hclean := (Controller.verdict?_eq_none_iff.mp hv).1
      rw [isValid, Bool.eq_false_iff, Ne, Controller.isUpToDate_iff]
      exact hclean

theorem Settled.moves (ho : c.controller.Orderly) (h : c.Settled) (hd : c.Moves quotes d) : d.Settled :=
  hd.keeps Settled.move ho h

theorem SolvedFrom.isSome {reference : Date} {helpers : List (MarketHelper α)} (h : c.SolvedFrom reference helpers) :
    c.committed.curve.isSome = true := by
  obtain ⟨quotes, o, -, hcommitted⟩ := h
  rw [hcommitted]
  rfl

/-- What is committed is aligned with the plan for given helpers at some values of their quotes. -/
def CommittedFrom (c : PiecewiseCurve α) (reference : Date) (helpers : List (MarketHelper α)) : Prop :=
  ∃ quotes plan, BootstrapPlan.make (c.inputsAt reference helpers quotes) c.config.bootstrap c.solver = .ok plan ∧
    c.committed.Aligned ⟨reference, c.config.dayCount, c.config.kind⟩ c.scheme (helpers.map (·.priced quotes))
      plan.retries

theorem SolvedFrom.aligned [LawfulOrder α] [LawfulDifference α] {reference : Date} {helpers : List (MarketHelper α)}
    (h : c.SolvedFrom reference helpers) : c.CommittedFrom reference helpers := by
  obtain ⟨quotes, o, ho, hcommitted⟩ := h
  obtain ⟨plan, hmake, hrun⟩ := bootstrap_ok ho
  refine ⟨quotes, plan, hmake, ?_⟩
  rw [hcommitted]
  exact BootstrapPlan.aligned_of_run hmake hrun

end PiecewiseCurve

namespace Market

variable {α : Type} [Scalar α] {m : Market α}

/-- The curves of a market have committed snapshots. -/
structure Recorded (m : Market α) : Prop where
  orderly : m.Orderly
  settled : ∀ i c, m.curves.get? i = some c → c.Settled

theorem settled_of_build {spec : CurveSpec α} {c : PiecewiseCurve α} (h : spec.build = .ok c) : c.Settled := by
  rw [build_eq h]
  exact ⟨nofun, nofun⟩

theorem Reachable.recorded (h : Reachable m) : m.Recorded :=
  ⟨h.orderly, h.holds PiecewiseCurve.Settled.move (fun helpers ho hc => hc.rehelped ho helpers) settled_of_build⟩

/-- The parts of a solved curve fit together. Whatever a pass of a run finds can be stored, and what a run
    publishes is aligned with what it was made from. So is what a curve of a reachable market has committed,
    whatever was done since, with the helpers and the reference date of the solve it comes from; these are the
    present ones for as long as the curve counts as valid. -/
theorem solved_curves_aligned [LawfulOrder α] [LawfulDifference α] :
    (∀ method : Method, (method.scheme : Scheme α).KeepsNodes) ∧
    (∀ (inputs : BootstrapInputs α) (config : BootstrapConfig α) (solver : RootFinder α) (plan : BootstrapPlan α),
      BootstrapPlan.make inputs config solver = .ok plan →
        (∀ seeds pass, plan.pass seeds = .ok pass →
          NodeStore.ofSolution plan.times pass.values = .ok ⟨plan.times, pass.values⟩) ∧
        ∀ o, plan.run = .ok o → (CommittedCurve.ofOutcome inputs.frame.reference o).Aligned inputs.frame
          inputs.scheme inputs.helpers plan.retries) ∧
    ∀ (m : Market α) (i : Nat) (c : PiecewiseCurve α), Reachable m → m.curves.get? i = some c →
      (c.committed.curve.isSome = true → ∃ reference helpers, c.CommittedFrom reference helpers) ∧
      (c.isValid = true → c.committed.curve.isSome = true ∧ c.CommittedFrom c.reference c.helpers) := by
  refine ⟨Method.scheme_keepsNodes, fun inputs config solver plan hmake => ⟨?_, ?_⟩, fun m i c hm hc => ?_⟩
  · exact fun seeds pass hpass => BootstrapPlan.ofSolution_of_pass hmake hpass
  · exact fun o hrun => BootstrapPlan.aligned_of_run hmake hrun
  · have hsettled := hm.recorded.settled i c hc
    refine ⟨fun hsome => ?_, fun hvalid => ?_⟩
    · obtain ⟨reference, helpers, hfrom⟩ := hsettled.solved hsome
      exact ⟨reference, helpers, hfrom.aligned⟩
    · have hfrom := hsettled.valid hvalid
      exact ⟨hfrom.isSome, hfrom.aligned⟩

theorem solved_curves_aligned_spot :
    ∃ c plan o pass, (acts {} spotOperations).curves.get? 0 = some c ∧ c.isValid = true ∧
      c.CommittedFrom c.reference c.helpers ∧
      BootstrapPlan.make (c.inputs (acts {} spotOperations).values) c.config.bootstrap c.solver = .ok plan ∧
      plan.run = .ok o ∧ (CommittedCurve.ofOutcome c.reference o).Aligned c.frame c.scheme
        (c.helpers.map (·.priced (acts {} spotOperations).values)) plan.retries ∧
      plan.pass [] = .ok pass ∧ NodeStore.ofSolution plan.times pass.values = .ok ⟨plan.times, pass.values⟩ := by
  have hr : Reachable (acts {} spotOperations) := Leads.refl.acts (by decide +kernel)
  have hc : ((acts {} spotOperations).curves.get? 0).any (fun c => c.isValid &&
      (bootstrap (c.inputs (acts {} spotOperations).values) c.config.bootstrap c.solver).toOption.isSome) = true := by
    decide +kernel
  obtain ⟨c, hc, hp⟩ := (Option.any_eq_true _ _).mp hc
  obtain ⟨hv, hb⟩ := (Bool.and_eq_true _ _).mp hp
  obtain ⟨o, ho⟩ := ok_of_isSome hb
  obtain ⟨plan, hmake, hrun⟩ := bootstrap_ok ho
  obtain ⟨d, hdraft, -⟩ := ok_of_bind hrun
  obtain ⟨pass, hpass, -⟩ := ok_of_bind hdraft
  obtain ⟨-, hruns, hcurves⟩ := solved_curves_aligned (α := ℚ)
  obtain ⟨hstored, haligned⟩ := hruns _ _ _ plan hmake
  exact ⟨c, plan, o, pass, hc, hv, ((hcurves _ 0 c hr hc).2 hv).2, hmake, hrun, haligned o hrun, hpass,
    hstored [] pass hpass⟩

end Market

end TermStructure
