import TermStructure.Proofs.Market.Versions
import TermStructure.Proofs.Bootstrap.Stages

/-!
# Failed solves

A solve that fails leaves what was committed before. Its error is the answer to whatever is asked of the
curve from then on, and nothing is solved again, until an input changes; then the next question solves.
-/

namespace TermStructure
open Relation

namespace PiecewiseCurve

section
variable {α : Type} {c : PiecewiseCurve α} {e : CurveError α}

theorem verdict?_eq_error_iff : c.controller.verdict? = some (.error e) ↔
    c.isValid = false ∧ c.controller.lastFailure? = some e := by
  unfold Controller.verdict? isValid
  split <;> simp_all

theorem verdict?_eq_none_iff : c.controller.verdict? = none ↔
    c.isValid = false ∧ c.controller.lastFailure? = none := by
  unfold Controller.verdict? isValid
  split <;> simp_all

theorem settle_solves (c : PiecewiseCurve α) (r : Except (CurveError α) (CommittedCurve α)) :
    (c.settle r).controller.solves = c.controller.solves + 1 := by
  cases r <;> rfl

theorem verdict?_settle (hv : c.controller.verdict? = none) (r : Except (CurveError α) (CommittedCurve α)) :
    (c.settle r).controller.verdict? = some (r.map fun _ => ()) := by
  cases r with
  | error e => exact Controller.verdict?_settle hv (.error e)
  | ok committed => exact Controller.verdict?_settle hv (.ok ())

end

variable {α : Type} [Scalar α] {quotes : QuoteId → Option α} {c d : PiecewiseCurve α} {e : CurveError α}

/-- The curve answers with an error, whatever it is asked, and shows what it committed before. None of
    this changes it, so nothing is solved. -/
structure Refuses (c : PiecewiseCurve α) (quotes : QuoteId → Option α) (e : CurveError α) : Prop where
  invalid : c.isValid = false
  failure : c.controller.lastFailure? = some e
  ensure : c.ensure quotes = (.error e, c)
  inspect : c.inspect quotes = (c.committed, c)
  /-- Every question that a computation asks is answered with the error. -/
  read {β : Type} (r : Frame → Reading α β) : c.read quotes r = ((r c.frame).run fun _ => .error e, c)
  value (t : α) : c.read quotes (fun _ => .value t) = (.error e, c)
  discount (t : α) : c.read quotes (fun _ => .discount t) = (.error e, c)
  zeroRate (t : α) : c.read quotes (fun _ => .zeroRate t) = (.error e, c)
  forwardRate (start finish : α) :
    ¬finish ≤ start → c.read quotes (fun _ => .forwardRate start finish) = (.error e, c)

theorem ensure_of_verdict {r : Except (CurveError α) Unit} (hv : c.controller.verdict? = some r) :
    c.ensure quotes = (r, c) := by
  unfold PiecewiseCurve.ensure
  rw [hv]

theorem answer_of_verdict (hv : c.controller.verdict? = some (.error e)) (p : Probe α) :
    c.answer quotes p = (.error e, c) := by
  unfold answer
  rw [ensure_of_verdict hv]

theorem runOn_of_verdict {β : Type} (hv : c.controller.verdict? = some (.error e)) (r : Reading α β) :
    r.runOn (fun c p => c.answer quotes p) c = (r.run fun _ => .error e, c) := by
  induction r with
  | done result => rfl
  | ask p next ih =>
    simp only [Reading.runOn, Reading.run, answer_of_verdict hv]
    exact ih _

theorem refuses_of_verdict (hv : c.controller.verdict? = some (.error e)) : c.Refuses quotes e := by
  have hread {β : Type} (r : Frame → Reading α β) : c.read quotes r = ((r c.frame).run fun _ => .error e, c) :=
    runOn_of_verdict hv _
  obtain ⟨hi, hf⟩ := verdict?_eq_error_iff.mp hv
  refine ⟨hi, hf, ensure_of_verdict hv, ?_, hread, fun t => hread _, fun t => hread _, fun t => hread _, ?_⟩
  · unfold PiecewiseCurve.inspect
    rw [ensure_of_verdict hv]
  · intro start finish h
    rw [hread, Reading.forwardRate, if_neg h]
    rfl

/-- The curve is solved for the first question it is asked. -/
structure Awaits (c : PiecewiseCurve α) (quotes : QuoteId → Option α) : Prop where
  invalid : c.isValid = false
  failure : c.controller.lastFailure? = none
  ensure : (c.ensure quotes).2.controller.solves = c.controller.solves + 1
  read {β : Type} (r : Frame → Reading α β) (p : Probe α) (next : Except (CurveError α) α → Reading α β) :
    r c.frame = .ask p next → (c.read quotes r).2.controller.solves = c.controller.solves + 1

theorem answer_controller (c : PiecewiseCurve α) (p : Probe α) :
    (c.answer quotes p).2.controller = (c.ensure quotes).2.controller := by
  unfold answer
  rcases c.ensure quotes with ⟨x | x, d⟩
  · rfl
  · dsimp only
    split
    · rfl
    · exact adjust_keeps_controller d p _

/-- A curve that knows its verdict is not solved by what it is asked. -/
theorem runOn_controller {β : Type} (r : Reading α β) {v : Except (CurveError α) Unit}
    (hv : c.controller.verdict? = some v) : (r.runOn (fun c p => c.answer quotes p) c).2.controller = c.controller := by
  induction r generalizing c with
  | done result => rfl
  | ask p next ih =>
    have hc : (c.answer quotes p).2.controller = c.controller := by
      rw [answer_controller, PiecewiseCurve.ensure, hv]
    rw [Reading.runOn, ih _ (by rw [hc]; exact hv), hc]

theorem awaits_of_verdict (hv : c.controller.verdict? = none) : c.Awaits quotes := by
  have he : c.ensure quotes = ((c.solve quotes).map fun _ => (), c.settle (c.solve quotes)) := by
    rw [PiecewiseCurve.ensure, hv]
  obtain ⟨hi, hf⟩ := verdict?_eq_none_iff.mp hv
  refine ⟨hi, hf, by rw [he, settle_solves], fun r p next hr => ?_⟩
  have hc : (c.answer quotes p).2.controller = (c.settle (c.solve quotes)).controller := by
    rw [answer_controller, he]
  rw [PiecewiseCurve.read, hr, Reading.runOn, runOn_controller _ (by rw [hc]; exact verdict?_settle hv _), hc,
    settle_solves]

/-- A verdict is kept until the version changes. -/
theorem Move.still {v : Except (CurveError α) Unit} (hv : c.controller.verdict? = some v) (h : c.Move quotes d) :
    c.Same d ∨ c.controller.version < d.controller.version := by
  rcases h.trichotomy with h | h | ⟨h, -⟩
  · exact .inl h
  · exact .inr h.version
  · rw [hv] at h
    cases h

theorem Move.version_le (h : c.Move quotes d) : c.controller.version ≤ d.controller.version := by
  rcases h.trichotomy with h | h | ⟨-, rfl⟩
  · exact h.version.ge
  · exact h.version.le
  · cases c.solve quotes <;> exact Nat.le_refl _

theorem Moves.version_le (h : c.Moves quotes d) : c.controller.version ≤ d.controller.version := by
  induction h with
  | refl => exact Nat.le_refl _
  | tail _ h ih => exact Nat.le_trans ih h.version_le

theorem Moves.still {v : Except (CurveError α) Unit} (hv : c.controller.verdict? = some v) (h : c.Moves quotes d) :
    c.Same d ∨ c.controller.version < d.controller.version := by
  induction h with
  | refl => exact .inl (.refl c)
  | tail _ h ih =>
    rcases ih with ih | ih
    · rcases h.still (ih.verdict?.trans hv) with h | h
      · exact .inl (ih.trans h)
      · exact .inr (ih.version ▸ h)
    · exact .inr (Nat.lt_of_lt_of_le ih h.version_le)

theorem Move.solves_le (h : c.Move quotes d) : c.controller.solves ≤ d.controller.solves := by
  rcases h.trichotomy with h | h | ⟨-, rfl⟩
  · exact h.solves.ge
  · exact h.solves.ge
  · rw [settle_solves]
    exact Nat.le_succ _

theorem Moves.solves_le (h : c.Moves quotes d) : c.controller.solves ≤ d.controller.solves := by
  induction h with
  | refl => exact Nat.le_refl _
  | tail _ h ih => exact Nat.le_trans ih h.solves_le

/-- Without a solve, a curve that has come to another version knows no verdict on it. -/
theorem Moves.unsolved (ho : c.controller.Orderly) (h : c.Moves quotes d)
    (hs : d.controller.solves = c.controller.solves) :
    c.Same d ∨ (d.committed = c.committed ∧ d.controller.verdict? = none) := by
  induction h with
  | refl => exact .inl (.refl c)
  | @tail d f hd h ih =>
    have hle := Moves.solves_le hd
    have hle' := h.solves_le
    have hds : d.controller.solves = c.controller.solves := by omega
    rcases h.trichotomy with h | h | ⟨-, rfl⟩
    · rcases ih hds with ih | ⟨ihc, ihv⟩
      · exact .inl (ih.trans h)
      · exact .inr ⟨h.committed.trans ihc, h.verdict?.trans ihv⟩
    · have hc : d.committed = c.committed := (ih hds).elim (·.committed) (·.1)
      exact .inr ⟨h.committed.trans hc, h.verdict? (Moves.orderly ho hd)⟩
    · rw [settle_solves] at hs
      omega

end PiecewiseCurve

namespace Market

section
variable {α : Type} {m : Market α} {i : Nat} {c d : PiecewiseCurve α} {e : CurveError α}

theorem get?_onCurve {β : Type} {f : PiecewiseCurve α → (QuoteId → Option α) → β × PiecewiseCurve α}
    (hc : m.curves.get? i = some c) :
    (((m.onCurve i f).map (·.2)).getD m).curves.get? i = some (f c m.values).2 := by
  simp [onCurve, hc, Slots.get?_modify]

/-- What a failed solve leaves. -/
structure Failed (c d : PiecewiseCurve α) (e : CurveError α) : Prop where
  verdict : d.controller.verdict? = some (.error e)
  committed : d.committed = c.committed
  solves : d.controller.solves = c.controller.solves + 1

theorem failed_settle (hv : c.controller.verdict? = none) : Failed c (c.settle (.error e)) e :=
  ⟨PiecewiseCurve.verdict?_settle hv _, rfl, PiecewiseCurve.settle_solves c _⟩

end

variable {α : Type} [Scalar α] {m n : Market α} {i : Nat} {c d : PiecewiseCurve α} {e : CurveError α}

/-- The operation has the curve at place `i` solved. -/
inductive Operation.Attempts (c : PiecewiseCurve α) (i : Nat) : Operation α → Prop where
  | ensure (hv : c.controller.verdict? = none) : Attempts c i (.ensure i)
  | inspect (hv : c.controller.verdict? = none) : Attempts c i (.inspect i)
  | query {r : Frame → Reading α α} {p : Probe α} {next : Except (CurveError α) α → Reading α α}
      (hv : c.controller.verdict? = none) (hr : r c.frame = .ask p next) : Attempts c i (.query i r)
  | recalculate : Attempts c i (.recalculate i)

theorem failed_ensure {quotes : QuoteId → Option α} (hv : c.controller.verdict? = none)
    (he : c.solve quotes = .error e) : Failed c (c.ensure quotes).2 e := by
  have h : (c.ensure quotes).2 = c.settle (.error e) := by rw [PiecewiseCurve.ensure, hv, he]
  rw [h]
  exact failed_settle hv

theorem failed_attempt (ho : c.controller.Orderly) (hc : m.curves.get? i = some c) {op : Operation α}
    (ha : op.Attempts c i) (he : c.solve m.values = .error e) :
    ∃ d, (m.act op).curves.get? i = some d ∧ Failed c d e := by
  cases ha with
  | ensure hv => exact ⟨_, get?_onCurve hc, failed_ensure hv he⟩
  | inspect hv => exact ⟨_, get?_onCurve hc, failed_ensure hv he⟩
  | recalculate =>
    have h := failed_ensure (c := c.control (·.advance)) ho.verdict?_advance he
    exact ⟨_, get?_onCurve hc, h.verdict, h.committed, h.solves⟩
  | @query r p next hv hr =>
    have h := failed_ensure hv he
    refine ⟨_, get?_onCurve hc, ?_⟩
    have hans : c.answer m.values p = (.error e, (c.ensure m.values).2) := by
      rw [PiecewiseCurve.answer, PiecewiseCurve.ensure, hv, he]
      rfl
    have hread : (c.read m.values r).2 = (c.ensure m.values).2 := by
      simp only [PiecewiseCurve.read, hr, Reading.runOn, hans, PiecewiseCurve.runOn_of_verdict h.verdict]
    rw [hread]
    exact h

theorem Leads.size_le (h : Leads m n) : m.curves.size ≤ n.curves.size := by
  induction h with
  | refl => exact Nat.le_refl _
  | step op _ _ _ ih => exact Nat.le_trans ih (size_act _ op)

/-- A verdict lasts until the version changes, whatever is done. -/
theorem Leads.still {v : Except (CurveError α) Unit} (hc : m.curves.get? i = some c)
    (hv : c.controller.verdict? = some v) (h : Leads m n) (hd : n.curves.get? i = some d) :
    c.Same d ∨ c.controller.version < d.controller.version := by
  induction h generalizing d with
  | refl =>
    rw [hc] at hd
    cases hd
    exact .inl (.refl c)
  | step op hl _ _ ih =>
    cases yields_act hd with
    | moved hop hc' h =>
      rcases ih hc' with hs | hs
      · rcases h.still (hs.verdict?.trans hv) with h | h
        · exact .inl (hs.trans h)
        · exact .inr (hs.version ▸ h)
      · exact .inr (Nat.lt_of_lt_of_le hs h.version_le)
    | @rehelped b helpers k hop hc' h =>
      have hle : c.controller.version ≤ b.controller.version := (ih hc').elim (·.version.ge) Nat.le_of_lt
      have hlt := (PiecewiseCurve.bumped_rehelped b helpers).version
      have hh : (b.rehelped helpers).controller.version ≤ d.controller.version :=
        PiecewiseCurve.Move.version_le (.hear h : PiecewiseCurve.Move m.values _ _)
      exact .inr (by omega)
    | built hop hi h =>
      -- The place has been taken since before.
      have hlt := Slots.lt_size_of_get? hc
      have hle := hl.size_le
      omega

/-- Without a solve, a curve that an operation brings to another version knows no verdict on it. -/
theorem unsolved_act (ho : m.Orderly) (hc : m.curves.get? i = some c) {op : Operation α}
    (hd : (m.act op).curves.get? i = some d) (hs : d.controller.solves = c.controller.solves) :
    c.Same d ∨ (d.committed = c.committed ∧ d.controller.verdict? = none) := by
  cases yields_act hd with
  | moved hop hc' h =>
    rw [hc] at hc'
    cases hc'
    exact h.unsolved (ho i c hc) hs
  | @rehelped c' helpers k hop hc' h =>
    rw [hc] at hc'
    cases hc'
    have hb := PiecewiseCurve.bumped_rehelped c helpers
    rcases h.same_or_bumped with h | h
    · exact .inr ⟨h.committed.trans hb.committed, h.verdict?.trans (hb.verdict? (ho i c hc))⟩
    · exact .inr ⟨h.committed.trans hb.committed, h.verdict? (ho i c hc).advance⟩
  | built hop hi h =>
    have hlt := Slots.lt_size_of_get? hc
    omega

/-- A failed solve changes nothing but what is known of the inputs: the curve answers every question
    with the error and shows what it committed before, through whatever is done, for as long as the
    version of its inputs lasts. An operation that brings it to another version without solving it has
    it forget the error, and the next question solves. -/
theorem failed_solve_memoized (hm : Reachable m) (hc : m.curves.get? i = some c) {op : Operation α}
    (ha : op.Attempts c i) (he : bootstrap (c.inputs m.values) c.config.bootstrap c.solver = .error e) :
    ∃ d, (m.act op).curves.get? i = some d ∧ d.controller.solves = c.controller.solves + 1 ∧
      ∀ n d', Leads (m.act op) n → n.curves.get? i = some d' → d'.controller.version = d.controller.version →
        d'.committed = c.committed ∧ d'.controller.solves = d.controller.solves ∧ d'.Refuses n.values e ∧
        ∀ op' d'', (n.act op').curves.get? i = some d'' → d''.controller.version ≠ d'.controller.version →
          d''.controller.solves = d'.controller.solves →
          d''.committed = c.committed ∧ d''.Awaits (n.act op').values := by
  have hs : c.solve m.values = .error e := by rw [PiecewiseCurve.solve, he]; rfl
  obtain ⟨d, hd, hf⟩ := failed_attempt (hm.orderly i c hc) hc ha hs
  refine ⟨d, hd, hf.solves, fun n d' hl hd' hv => ?_⟩
  have hsame : d.Same d' := (hl.still hd hf.verdict hd').resolve_right fun h => Nat.ne_of_gt h hv
  have hverdict := hsame.verdict?.trans hf.verdict
  refine ⟨hsame.committed.trans hf.committed, hsame.solves, PiecewiseCurve.refuses_of_verdict hverdict, ?_⟩
  intro op' d'' hd'' hv' hs'
  have ho : n.Orderly := ((hm.orderly).act op).leads hl
  rcases unsolved_act ho hd' hd'' hs' with h | ⟨hcommitted, hverdict'⟩
  · exact absurd h.version hv'
  · exact ⟨hcommitted.trans (hsame.committed.trans hf.committed), PiecewiseCurve.awaits_of_verdict hverdict'⟩

/-- A curve that was solved is asked after its quote lost its value. -/
theorem failed_solve_memoized_spot :
    ∃ c d e, (acts {} (spotOperations ++ [Operation.setQuote 0 none])).curves.get? 0 = some c ∧
      c.committed.passes = 1 ∧
      (acts {} (spotOperations ++ [Operation.setQuote 0 none, .ensure 0])).curves.get? 0 = some d ∧
      d.committed = c.committed ∧
      d.Refuses (acts {} (spotOperations ++ [Operation.setQuote 0 none, .ensure 0])).values e := by
  have hr : Reachable (acts {} (spotOperations ++ [Operation.setQuote 0 none])) := Leads.refl.acts (by decide +kernel)
  have hc : ((acts {} (spotOperations ++ [Operation.setQuote 0 none])).curves.get? 0).any (fun c =>
      c.controller.verdict?.isNone && c.committed.passes == 1 &&
        (bootstrap (c.inputs (acts {} (spotOperations ++ [Operation.setQuote 0 none])).values) c.config.bootstrap
          c.solver).toOption.isNone) = true := by
    decide +kernel
  obtain ⟨c, hc, hp⟩ := (Option.any_eq_true _ _).mp hc
  simp only [Bool.and_eq_true, Option.isNone_iff_eq_none, beq_iff_eq] at hp
  obtain ⟨⟨hv, hpasses⟩, hb⟩ := hp
  obtain ⟨e, he⟩ := error_of_isNone (Option.isNone_iff_eq_none.mpr hb)
  obtain ⟨d, hd, -, h⟩ := failed_solve_memoized hr hc (.ensure hv) he
  obtain ⟨hcommitted, -, hrefuses, -⟩ := h _ d .refl hd rfl
  exact ⟨c, d, e, hc, hpasses, hd, hcommitted, hrefuses⟩

/-- Makes a curve without helpers, which no solve succeeds for. -/
def bareOperations : List (Operation ℚ) := [.build { reference := .newYear 2025, helpers := [], config := default }]

/-- A question about a period that does not increase is refused before the curve is read, so it is not
    answered with the error of a failed solve. -/
theorem not_every_query_refused :
    ¬∀ (m : Market ℚ) (op : Operation ℚ) (i : Nat) (c d : PiecewiseCurve ℚ) (e : CurveError ℚ), Reachable m →
      m.curves.get? i = some c → op.Attempts c i →
      bootstrap (c.inputs m.values) c.config.bootstrap c.solver = .error e → (m.act op).curves.get? i = some d →
      ∀ start finish, (d.read (m.act op).values fun _ => .forwardRate start finish).1 = .error e := by
  intro h
  have hr : Reachable (acts {} bareOperations) := Leads.refl.acts (by decide +kernel)
  have hc : ((acts {} bareOperations).curves.get? 0).any (fun c =>
      c.controller.verdict?.isNone &&
        (bootstrap (c.inputs (acts {} bareOperations).values) c.config.bootstrap c.solver).toOption.isNone) = true := by
    decide +kernel
  obtain ⟨c, hc, hp⟩ := (Option.any_eq_true _ _).mp hc
  obtain ⟨hv, hb⟩ := (Bool.and_eq_true _ _).mp hp
  have hv := Option.isNone_iff_eq_none.mp hv
  obtain ⟨e, he⟩ := error_of_isNone hb
  -- The error tells the period that was asked for, so two periods have two errors.
  have hperiod (start finish : ℚ) (hle : finish ≤ start) :
      (.error (.numeric (.invalidInput (.period start finish))) : Except (CurveError ℚ) ℚ) = .error e := by
    rw [← h _ _ 0 c _ _ hr hc (.ensure hv) he (get?_onCurve hc) start finish, PiecewiseCurve.read,
      Reading.forwardRate, if_pos hle]
    rfl
  have heq := (hperiod 2 1 (by decide +kernel)).trans (hperiod 3 1 (by decide +kernel)).symm
  simp at heq

end Market

end TermStructure
