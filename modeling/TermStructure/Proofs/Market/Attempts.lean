import TermStructure.Proofs.Market.Controllers
import TermStructure.Proofs.Market.Course

/-!
# One attempt for each version

A controller attempts a solve only of a version that it knows nothing of, and knows how that ended as long
as the version lasts. So there are never more attempts than versions, and after the first question that
follows a change nothing is solved until the next one.
-/

namespace TermStructure

namespace Controller

variable {α : Type} {c d e : Controller α}

/-- The versions are in order, and there is an attempt for each version at most. -/
structure Tallied (c : Controller α) : Prop extends Orderly c where
  later : ∀ v e, c.failure = some (v, e) → c.cleanVersion < v
  solves : c.solves ≤ c.version
  /-- The present version has had no attempt as long as nothing is known of it. -/
  spare : c.verdict? = none → c.solves < c.version

/-- Nothing is solved, and the version does not fall. -/
structure Rests (c d : Controller α) : Prop where
  version : c.version ≤ d.version
  clean : d.cleanVersion = c.cleanVersion
  failure : d.failure = c.failure
  solves : d.solves = c.solves

theorem Rests.refl (c : Controller α) : c.Rests c := ⟨Nat.le_refl _, rfl, rfl, rfl⟩

theorem Rests.verdict? (h : c.Rests d) (hv : d.version = c.version) : d.verdict? = c.verdict? := by
  unfold Controller.verdict? isUpToDate lastFailure?
  rw [hv, h.clean, h.failure]

theorem rests_hear (c : Controller α) : c.Rests c.hear := by
  unfold hear
  split
  · exact ⟨Nat.le_refl _, rfl, rfl, rfl⟩
  · exact ⟨Nat.le_succ _, rfl, rfl, rfl⟩

theorem rests_release (c : Controller α) : c.Rests c.release := by
  unfold release
  rw [thaw_eq]
  split
  · exact ⟨Nat.le_succ _, rfl, rfl, rfl⟩
  · exact ⟨Nat.le_refl _, rfl, rfl, rfl⟩

/-- A step solves nothing, or makes an attempt at a version of which nothing is known. -/
theorem Step.rests_or_settles (h : c.Step d) :
    c.Rests d ∨ (c.verdict? = none ∧ ∃ outcome, d = c.settle outcome) := by
  cases h with
  | observe | freeze => exact .inl ⟨Nat.le_refl _, rfl, rfl, rfl⟩
  | hear => exact .inl (rests_hear c)
  | advance => exact .inl ⟨Nat.le_succ _, rfl, rfl, rfl⟩
  | release => exact .inl (rests_release c)
  | ensure outcome =>
    unfold Controller.ensure
    cases hv : c.verdict? with
    | some r => exact .inl (.refl c)
    | none => exact .inr ⟨rfl, outcome, rfl⟩

theorem Orderly.step (ho : c.Orderly) (h : c.Step d) : d.Orderly := by
  cases h with
  | observe => exact ho.of_le (Nat.le_refl _) rfl rfl ho.pending
  | freeze => exact ho.of_le (Nat.le_refl _) rfl rfl fun _ => rfl
  | hear => exact ho.heard (.hear c)
  | advance => exact ho.advance
  | release => exact ho.release
  | ensure outcome =>
    unfold Controller.ensure
    cases c.verdict? with
    | some r => exact ho
    | none => exact ho.settle outcome

theorem settle_version (c : Controller α) (outcome : Except (CurveError α) Unit) :
    (c.settle outcome).version = c.version := by
  cases outcome <;> rfl

theorem settle_solves (c : Controller α) (outcome : Except (CurveError α) Unit) :
    (c.settle outcome).solves = c.solves + 1 := by
  cases outcome <;> rfl

theorem tallied_new : Tallied ({} : Controller α) :=
  ⟨⟨Nat.zero_le _, nofun, nofun⟩, nofun, Nat.zero_le _, fun _ => Nat.zero_lt_one⟩

theorem Tallied.step (hc : c.Tallied) (h : c.Step d) : d.Tallied := by
  have ho := hc.toOrderly.step h
  rcases h.rests_or_settles with h | ⟨hv, outcome, rfl⟩
  · refine ⟨ho, fun v e he => ?_, ?_, fun hd => ?_⟩
    · rw [h.clean]
      exact hc.later v e (h.failure ▸ he)
    · rw [h.solves]
      exact Nat.le_trans hc.solves h.version
    · -- A version that is gone leaves room for one attempt more; one that lasts has had none yet.
      rw [h.solves]
      rcases Nat.lt_or_eq_of_le h.version with hlt | heq
      · exact Nat.lt_of_le_of_lt hc.solves hlt
      · rw [← heq]
        exact hc.spare (h.verdict? heq.symm ▸ hd)
  · have hclean := (verdict?_eq_none_iff.mp hv).1
    refine ⟨ho, fun v e he => ?_, ?_, fun hd => ?_⟩
    · cases outcome with
      | ok _ => cases he
      | error e =>
        cases he
        exact Nat.lt_of_le_of_ne hc.clean hclean
    · rw [settle_version, settle_solves]
      exact hc.spare hv
    · rw [verdict?_settle hv] at hd
      cases hd

/-- As long as the version lasts, there was no attempt, or there was one and it is known how it ended. -/
structure Spent (c d : Controller α) : Prop where
  version : c.version ≤ d.version
  solves : d.version = c.version → (d.solves = c.solves ∧ d.verdict? = c.verdict?) ∨
    (c.verdict? = none ∧ d.solves = c.solves + 1 ∧ d.verdict?.isSome = true)

theorem Steps.spent (h : c.Steps d) : c.Spent d := by
  induction h with
  | refl => exact ⟨Nat.le_refl _, fun _ => .inl ⟨rfl, rfl⟩⟩
  | @tail d e _ h ih =>
    rcases h.rests_or_settles with h | ⟨hv, outcome, rfl⟩
    · refine ⟨Nat.le_trans ih.version h.version, fun he => ?_⟩
      have hde : e.version = d.version := Nat.le_antisymm (he ▸ ih.version) h.version
      rw [h.solves, h.verdict? hde]
      exact ih.solves (hde.symm.trans he)
    · -- An attempt is the first at this version: after another one its end would be known.
      refine ⟨(settle_version d outcome).symm ▸ ih.version, fun he => ?_⟩
      rw [settle_version] at he
      rw [settle_solves, verdict?_settle hv]
      rcases ih.solves he with ⟨hs, hd⟩ | ⟨-, -, hd⟩
      · exact .inr ⟨hd ▸ hv, by rw [hs], rfl⟩
      · rw [hv] at hd
        cases hd

end Controller

namespace Market

variable {α : Type} [Scalar α] {m n : Market α} {i : Nat} {c d : PiecewiseCurve α}

theorem Reachable.tallied {x : ControllerId} {c : Controller α} (hm : Reachable m) (hx : m.controller? x = some c) :
    c.Tallied :=
  hm.controller Controller.tallied_new (fun _ _ hc h => hc.step h) hx

/-- The operation asks the curve at place `i` something. -/
inductive Operation.Asks (c : PiecewiseCurve α) (i : Nat) : Operation α → Prop where
  | ensure : Asks c i (.ensure i)
  | inspect : Asks c i (.inspect i)
  | recalculate : Asks c i (.recalculate i)
  | query {r : Frame → Reading α α} (hr : (r c.frame).asks = true) : Asks c i (.query i r)

/-- The operation asks something of a curve or changes whether it extrapolates, or it sets a quote without
    the curve at place `i` being told of it. -/
def calm (m : Market α) (i : Nat) : Operation α → Bool
  | .query .. | .inspect _ | .ensure _ | .setExtrapolation .. => true
  | .setQuote id value => !(m.curves.get? i).any (·.isTold m.values (.setQuote id value))
  | _ => false

/-- The operations are calm when their turn comes. -/
def calms (m : Market α) (i : Nat) : List (Operation α) → Bool
  | [] => true
  | op :: ops => m.calm i op && (m.act op).calms i ops

/-- A curve that is asked knows how a solve of its inputs ends. -/
theorem verdict_of_asks (hc : m.curves.get? i = some c) {op : Operation α} (ha : op.Asks c i) :
    ∃ d, (m.act op).curves.get? i = some d ∧ d.controller.verdict?.isSome = true := by
  cases ha with
  | ensure | inspect => exact ⟨_, get?_onCurve hc, PiecewiseCurve.isSome_verdict?_ensure c⟩
  | recalculate => exact ⟨_, get?_onCurve hc, PiecewiseCurve.isSome_verdict?_ensure _⟩
  | @query r hr =>
    have h := PiecewiseCurve.resembles_read c m.values r
    rw [if_pos hr] at h
    exact ⟨_, get?_onCurve hc, h.same.verdict? ▸ PiecewiseCurve.isSome_verdict?_ensure c⟩

/-- A calm operation is nothing to a curve that knows its verdict. -/
theorem after_of_calm (hc : m.curves.get? i = some c) (hv : c.controller.verdict?.isSome = true) {op : Operation α}
    (hop : m.calm i op = true) : ∃ d, c.after i m.values op = some d ∧ c.Same d := by
  cases op with
  | setQuote id value =>
    have htold : c.isTold m.values (.setQuote id value) = false := by simpa [calm, hc] using hop
    refine ⟨c, ?_, .refl c⟩
    rw [PiecewiseCurve.after, htold, if_neg Bool.false_ne_true]
  | setExtrapolation j allow =>
    refine ⟨_, rfl, ?_⟩
    split
    · exact ⟨rfl, rfl, rfl, rfl, rfl⟩
    · exact .refl c
  | ensure j | inspect j =>
    refine ⟨_, rfl, ?_⟩
    split
    · exact (PiecewiseCurve.ensure_of_isSome hv m.values).symm ▸ .refl c
    · exact .refl c
  | query j r =>
    refine ⟨_, rfl, ?_⟩
    split
    · have h := PiecewiseCurve.resembles_read c m.values r
      rw [PiecewiseCurve.ensure_of_isSome hv, ite_self] at h
      exact h.same
    · exact .refl c
  | _ => cases hop

theorem admissible_of_calm {op : Operation α} (hop : m.calm i op = true) : op.Admissible m := by
  cases op with
  | query | inspect | ensure | setExtrapolation | setQuote => exact .of_cited rfl
  | _ => cases hop

theorem same_of_calms (hm : m.Wired) (hc : m.curves.get? i = some c) (hv : c.controller.verdict?.isSome = true)
    {ops : List (Operation α)} (hops : m.calms i ops = true) :
    ∃ d, (m.acts ops).curves.get? i = some d ∧ c.Same d := by
  induction ops generalizing m c with
  | nil => exact ⟨c, hc, .refl c⟩
  | cons op ops ih =>
    obtain ⟨hop, hops⟩ := (Bool.and_eq_true _ _).mp hops
    have ha := admissible_of_calm hop
    obtain ⟨d, hd, hcd⟩ := after_of_calm hc hv hop
    obtain ⟨e, he, hde⟩ := (hd ▸ holds_act hm ha hc).exists_heard
    have hce := hcd.trans hde.resembles.same
    obtain ⟨f, hf, hef⟩ := ih (hm.act ha) he (hce.verdict? ▸ hv) hops
    exact ⟨f, hf, hce.trans hef⟩

/-- Of every controller, the version that was last solved is not past the present one, the version that failed
    lies between the two, and there were no more attempts than versions. As long as the version of a
    controller lasts, through whatever is done, there is one attempt at most, and none if it is known how a
    solve ends. So a curve that was asked something keeps its version, its nodes and the number of its
    solves through any number of questions, changes of whether it extrapolates, values set to what they
    were, and values of quotes that none of its helpers has. -/
theorem one_attempt_per_version (hm : Reachable m) :
    (∀ x c, m.controller? x = some c → c.cleanVersion ≤ c.version ∧
      (∀ v e, c.failure = some (v, e) → c.cleanVersion < v ∧ v ≤ c.version) ∧ c.solves ≤ c.version) ∧
    (∀ x c n d, m.controller? x = some c → Leads m n → n.controller? x = some d → d.version = c.version →
      d.solves ≤ c.solves + 1 ∧ (c.verdict?.isSome = true → d.solves = c.solves)) ∧
    ∀ i c op, m.curves.get? i = some c → op.Asks c i →
      ∃ d, (m.act op).curves.get? i = some d ∧ ∀ ops, (m.act op).calms i ops = true →
        ∃ e, ((m.act op).acts ops).curves.get? i = some e ∧ e.controller.version = d.controller.version ∧
          e.controller.solves = d.controller.solves ∧ e.committed = d.committed := by
  refine ⟨fun x c hc => ?_, fun x c n d hc hl hd hv => ?_, fun i c op hc ha => ?_⟩
  · have ht := hm.tallied hc
    exact ⟨ht.clean, fun v e he => ⟨ht.later v e he, ht.failed v e he⟩, ht.solves⟩
  · rcases (hl.steps hc hd).spent.solves hv with ⟨hs, -⟩ | ⟨hnone, hs, -⟩
    · exact ⟨hs ▸ Nat.le_succ _, fun _ => hs⟩
    · refine ⟨hs.le, fun hsome => ?_⟩
      rw [hnone] at hsome
      cases hsome
  · obtain ⟨d, hd, hv⟩ := verdict_of_asks hc ha
    have hadm : op.Admissible m := by cases ha <;> exact .of_cited rfl
    refine ⟨d, hd, fun ops hops => ?_⟩
    obtain ⟨e, he, hs⟩ := same_of_calms (hm.wired.act hadm) hd hv hops
    exact ⟨e, he, hs.version, hs.solves, hs.committed⟩

/-- Makes a curve with a jump, whose factor is on a quote of its own. -/
def jumpOperations : List (Operation ℚ) := [.newQuote (some (1 / 100)), .newQuote (some 1), .build (hazardSpec 2026 1)]

/-- Asks a curve that was solved, and sets its quote to what it was and that of its jump to another value. -/
def calmOperations : List (Operation ℚ) :=
  [.query 0 fun _ => Reading.value (1 / 2), .inspect 0, .setExtrapolation 0 true, .setQuote 0 (some (1 / 100)),
   .setQuote 1 (some (1 / 2)), .ensure 0]

theorem one_attempt_per_version_jump :
    ∃ c d e, (acts {} jumpOperations).curves.get? 0 = some c ∧ c.controller.solves ≤ c.controller.version ∧
      (acts {} (jumpOperations ++ [Operation.ensure 0])).curves.get? 0 = some d ∧
      d.controller.solves ≤ c.controller.solves + 1 ∧
      (acts {} (jumpOperations ++ [Operation.ensure 0] ++ calmOperations)).curves.get? 0 = some e ∧
      e.controller.solves = d.controller.solves ∧ e.committed = d.committed := by
  have hr : Reachable (acts {} jumpOperations) := Leads.refl.acts (by decide +kernel)
  obtain ⟨c, hc⟩ := Option.isSome_iff_exists.mp
    (by decide +kernel : ((acts {} jumpOperations).curves.get? 0).isSome = true)
  obtain ⟨hbounds, hperiod, hasked⟩ := one_attempt_per_version hr
  obtain ⟨d, hd, hcalm⟩ := hasked 0 c (.ensure 0) hc .ensure
  obtain ⟨e, he, -, hs, hcommitted⟩ := hcalm calmOperations (by decide +kernel)
  have hctrl {m : Market ℚ} {c : PiecewiseCurve ℚ} (h : m.curves.get? 0 = some c) :
      m.controller? (.curve 0) = some c.controller := by simp [controller?, h]
  have hv : d.controller.version = c.controller.version := by
    have h : (((acts {} jumpOperations).act (.ensure 0)).curves.get? 0).map (·.controller.version)
        = ((acts {} jumpOperations).curves.get? 0).map (·.controller.version) := by decide +kernel
    rw [hd, hc] at h
    exact Option.some.inj h
  have hends : (acts {} jumpOperations).completes (.ensure 0) = true := by decide +kernel
  have hl : Leads (acts {} jumpOperations) ((acts {} jumpOperations).act (.ensure 0)) :=
    Leads.refl.step (.ensure 0) (.of_cited rfl) hends
  obtain ⟨hs', -⟩ := hperiod (.curve 0) _ _ _ (hctrl hc) hl (hctrl hd) hv
  exact ⟨c, d, e, hc, (hbounds _ _ (hctrl hc)).2.2, hd, hs', he, hs, hcommitted⟩

end Market

end TermStructure
