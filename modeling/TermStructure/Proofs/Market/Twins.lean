import TermStructure.Proofs.Market.Freshness
import TermStructure.Proofs.Market.Jump

/-!
# Runs that differ in one quote

A quote that none of its helpers has means nothing to the nodes of a curve. Two runs in which only such a
quote is given other values take the curve through the same versions, solves, failures and nodes. So the
factor of a jump bears on what is answered and on nothing else.
-/

namespace TermStructure

open Market

/-- The places hold the same, but for what stands at one of them. -/
structure Slots.AgreeBut {β : Type} (id : Nat) (s t : Slots β) : Prop where
  size : t.size = s.size
  isSome : ∀ j, (t.get? j).isSome = (s.get? j).isSome
  eq : ∀ j, j ≠ id → t.get? j = s.get? j

namespace Slots.AgreeBut

variable {β : Type} {id : Nat} {s t : Slots β}

theorem add (h : s.AgreeBut id t) {a b : β} (hab : s.size ≠ id → b = a) : (s.add a).AgreeBut id (t.add b) := by
  refine ⟨by simp [h.size], fun j => ?_, fun j hj => ?_⟩
  · rw [get?_add, get?_add, h.size]
    split
    · rfl
    · exact h.isSome j
  · rw [get?_add, get?_add, h.size]
    split
    · rename_i hs
      rw [hab (hs ▸ hj)]
    · exact h.eq j hj

theorem modify (h : s.AgreeBut id t) {k : Nat} {f g : β → β} (hfg : k ≠ id → g = f) :
    (s.modify k f).AgreeBut id (t.modify k g) := by
  refine ⟨by simp [h.size], fun j => ?_, fun j hj => ?_⟩
  · rw [get?_modify, get?_modify]
    split
    · simpa using h.isSome j
    · exact h.isSome j
  · rw [get?_modify, get?_modify]
    split
    · rename_i hk
      rw [hfg (hk ▸ hj), h.eq j hj]
    · exact h.eq j hj

end Slots.AgreeBut

theorem Controller.release_observers {α : Type} (k : Controller α) (r : Registry) :
    ({ k with observers := r } : Controller α).release = { k.release with observers := r } := by
  unfold release isDue thaw
  split <;> split <;> rfl

namespace PiecewiseCurve

section
variable {α : Type} {c d c' d' : PiecewiseCurve α}

theorem Resembles.helpers (h : c.Resembles d) : d.helpers = c.helpers := by
  obtain ⟨_, _, rfl⟩ := h
  rfl

theorem Resembles.control (h : c.Resembles d) {f : Controller α → Controller α}
    (hf : ∀ (k : Controller α) (r : Registry), f { k with observers := r } = { f k with observers := r }) :
    (c.control f).Resembles (d.control f) := by
  obtain ⟨r, e, rfl⟩ := h
  exact ⟨r, e, congrArg (fun k => { c with controller := k, effect := e }) (hf c.controller r)⟩

theorem Resembles.ite (h' : c'.Resembles d') (h : c.Resembles d) (p : Prop) [Decidable p] :
    (if p then c' else c).Resembles (if p then d' else d) := by
  split
  · exact h'
  · exact h

end

variable {α : Type} [Scalar α] {c d : PiecewiseCurve α} {quotes quotes' : QuoteId → Option α}

/-- Curves that are solved from the same inputs go on to resemble each other. -/
theorem Resembles.ensure (h : c.Resembles d) (hq : ∀ g ∈ c.helpers, quotes' g.quote = quotes g.quote) :
    (c.ensure quotes).2.Resembles (d.ensure quotes').2 := by
  have hs : d.solve quotes' = c.solve quotes := by
    have hd : d.solve quotes = c.solve quotes := by
      obtain ⟨_, _, rfl⟩ := h
      rfl
    rw [← hd]
    exact solve_congr (h.helpers ▸ hq)
  unfold PiecewiseCurve.ensure
  rw [h.same.verdict?, hs]
  cases c.controller.verdict? with
  | some r => exact h
  | none =>
    obtain ⟨r, e, rfl⟩ := h
    cases c.solve quotes <;> exact ⟨r, e, rfl⟩

theorem Resembles.read {β : Type} (h : c.Resembles d) (hq : ∀ g ∈ c.helpers, quotes' g.quote = quotes g.quote)
    (r : Frame → Reading α β) : (c.read quotes r).2.Resembles (d.read quotes' r).2 := by
  have hframe : d.frame = c.frame := by
    obtain ⟨_, _, rfl⟩ := h
    rfl
  have hc := resembles_read c quotes r
  have hd := resembles_read d quotes' r
  rw [hframe] at hd
  exact hc.symm.trans (((h.ensure hq).ite h _).trans hd)

theorem Resembles.isTold (h : c.Resembles d) (hq : ∀ g ∈ c.helpers, quotes' g.quote = quotes g.quote)
    (op : Operation α) : d.isTold quotes' op = c.isTold quotes op := by
  cases op with
  | setQuote id value =>
    have hu : d.uses id = c.uses id := by
      unfold uses
      rw [h.helpers]
    simp only [PiecewiseCurve.isTold, hu]
    by_cases huses : c.uses id = true
    · obtain ⟨g, hg, hid⟩ := List.any_eq_true.mp huses
      rw [← beq_iff_eq.mp hid, hq g hg]
    · rw [Bool.eq_false_iff.mpr huses, Bool.false_and, Bool.false_and]
  | _ => rfl

/-- An operation leaves of curves that resemble each other curves that do. -/
theorem Resembles.after (h : c.Resembles d) (hq : ∀ g ∈ c.helpers, quotes' g.quote = quotes g.quote) (i : Nat)
    (op : Operation α) : Option.Rel Resembles (c.after i quotes op) (d.after i quotes' op) := by
  cases op with
  | setQuote id value =>
    simp only [PiecewiseCurve.after, h.isTold hq]
    exact .some ((h.control Controller.hear_observers).ite h _)
  | freeze x => exact .some ((h.control fun _ _ => rfl).ite h _)
  | unfreeze x => exact .some ((h.control Controller.release_observers).ite h _)
  | drop j =>
    simp only [PiecewiseCurve.after]
    split
    · exact .none
    · exact .some h
  | setReference j reference =>
    obtain ⟨r, e, rfl⟩ := h
    exact .some (Resembles.ite ⟨r, e, rfl⟩ ⟨r, e, rfl⟩ _)
  | replaceHelpers j helpers =>
    obtain ⟨r, e, rfl⟩ := h
    exact .some (Resembles.ite ⟨r, e, rfl⟩ ⟨r, e, rfl⟩ _)
  | setExtrapolation j allow =>
    obtain ⟨r, e, rfl⟩ := h
    exact .some (Resembles.ite ⟨r, e, rfl⟩ ⟨r, e, rfl⟩ _)
  | ensure j => exact .some ((h.ensure hq).ite h _)
  | inspect j => exact .some ((h.ensure hq).ite h _)
  | recalculate j => exact .some (((h.control (f := (·.advance)) fun _ _ => rfl).ensure hq).ite h _)
  | query j r => exact .some ((h.read hq r).ite h _)
  | _ => exact .some h

end PiecewiseCurve

namespace Market

section
variable {α : Type} {m m' : Market α} {i : Nat} {id : QuoteId}

/-- What is known of the solves of a curve, and what they left. -/
def record (c : PiecewiseCurve α) : Nat × Bool × Nat × Option (CurveError α) × CommittedCurve α :=
  (c.controller.version, c.isValid, c.controller.solves, c.controller.lastFailure?, c.committed)

theorem record_of_same {c d : PiecewiseCurve α} (h : c.Same d) : record d = record c := by
  unfold record PiecewiseCurve.isValid Controller.isUpToDate Controller.lastFailure?
  rw [h.version, h.clean, h.failure, h.solves, h.committed]

/-! ### Markets that mean the same to a curve -/

/-- The markets differ in the value of a quote that the curve at place `i` has no use for, and in what
    bears on no solve of the curve. -/
structure Kindred (i : Nat) (id : QuoteId) (m m' : Market α) : Prop where
  wired : m.Wired
  wired' : m'.Wired
  size : m'.curves.size = m.curves.size
  board : m.board.AgreeBut id m'.board
  free : (m.curves.get? i).any (·.uses id) = false
  curve : Option.Rel PiecewiseCurve.Resembles (m.curves.get? i) (m'.curves.get? i)

theorem Kindred.values (h : Kindred i id m m') {j : QuoteId} (hj : j ≠ id) : m'.values j = m.values j := by
  rw [values_eq, values_eq, h.board.eq j hj]

theorem Kindred.values_helpers (h : Kindred i id m m') {c : PiecewiseCurve α} (hc : m.curves.get? i = some c) :
    ∀ g ∈ c.helpers, m'.values g.quote = m.values g.quote := by
  intro g hg
  refine h.values fun hid => ?_
  have hfree := h.free
  rw [hc, Option.any_some, PiecewiseCurve.uses, List.any_eq_false] at hfree
  exact hfree g hg (beq_iff_eq.mpr hid)

theorem Kindred.admissible (h : Kindred i id m m') {op : Operation α} (ha : op.Admissible m) : op.Admissible m' := by
  intro j hj
  rw [has_eq, h.board.isSome, ← has_eq]
  exact ha j hj

theorem Holds.resembles {left left' : Option (PiecewiseCurve α)} (h : m.Holds i left) (h' : m'.Holds i left')
    (hr : Option.Rel PiecewiseCurve.Resembles left left') :
    Option.Rel PiecewiseCurve.Resembles (m.curves.get? i) (m'.curves.get? i) := by
  unfold Holds at h h'
  generalize m.curves.get? i = d at h ⊢
  generalize m'.curves.get? i = d' at h' ⊢
  cases hr with
  | none =>
    cases h
    cases h'
    exact .none
  | some hr =>
    cases h with | some h =>
    cases h' with | some h' =>
    exact .some (h.resembles.symm.trans (hr.trans h'.resembles))

end

variable {α : Type} [Scalar α] {m m' : Market α} {i : Nat} {id : QuoteId} {op : Operation α}

/-- The curve that an operation makes at place `i`, if there are so many places. -/
def Operation.made (i size : Nat) : Operation α → Option (PiecewiseCurve α)
  | .build spec => if i = size then spec.build.toOption else none
  | _ => none

theorem get?_act_of_none (h : m.curves.get? i = none) (op : Operation α) :
    (m.act op).curves.get? i = op.made i m.curves.size := by
  cases hd : (m.act op).curves.get? i with
  | some d =>
    cases yields_act hd with
    | moved _ hc _ | rehelped _ hc _ =>
      rw [h] at hc
      cases hc
    | built hop hi hb =>
      subst hop
      rw [Operation.made, if_pos hi, hb]
      rfl
  | none =>
    cases op with
    | build spec =>
      rw [Operation.made]
      split
      · rename_i hi
        cases hb : spec.build with
        | error e => rfl
        | ok b =>
          simp only [act, buildCurve, hb, Except.map, Except.toOption, Option.getD_some, curves_addCurve,
            Slots.get?_add, if_pos hi] at hd
          cases hd
      · rfl
    | _ => rfl

/-- The markets were reached by the same operations, but for the values that a quote was given, which no helper of
    the curve at place `i` ever had. -/
inductive Twins (i : Nat) (id : QuoteId) : Market α → Market α → Prop where
  | start : Twins i id {} {}
  | both {m m' : Market α} (op : Operation α) : Twins i id m m' → op.Admissible m →
      ((m.act op).curves.get? i).any (·.uses id) = false → Twins i id (m.act op) (m'.act op)
  /-- The quote is made with different values. -/
  | made {m m' : Market α} (value value' : Option α) : Twins i id m m' → m.quotes.size = id →
      Twins i id (m.act (.newQuote value)) (m'.act (.newQuote value'))
  | set {m m' : Market α} (value value' : Option α) : Twins i id m m' →
      Twins i id (m.act (.setQuote id value)) (m'.act (.setQuote id value'))

/-- Operations that leave such curves alike leave such markets. -/
theorem Kindred.act (h : Kindred i id m m') {op' : Operation α} (ha : op.Admissible m) (ha' : op'.Admissible m')
    (hmakes : op'.makes = op.makes) (hmade : op'.made i m.curves.size = op.made i m.curves.size)
    (hboard : (op.writes m.board).AgreeBut id (op'.writes m'.board))
    (hfree : ((m.act op).curves.get? i).any (·.uses id) = false)
    (hafter : ∀ c c', m.curves.get? i = some c → m'.curves.get? i = some c' → c.Resembles c' →
      Option.Rel PiecewiseCurve.Resembles (c.after i m.values op) (c'.after i m'.values op')) :
    Kindred i id (m.act op) (m'.act op') := by
  refine ⟨h.wired.act ha, h.wired'.act ha', ?_, ?_, hfree, ?_⟩
  · rw [size_act_eq, size_act_eq, h.size, hmakes]
  · rw [board_act, board_act]
    exact hboard
  · have hcurve := h.curve
    cases hc : m.curves.get? i with
    | none =>
      -- The curve is made by this operation, and is the same in both, or is not there yet.
      have hc' : m'.curves.get? i = none := by
        rw [hc] at hcurve
        generalize m'.curves.get? i = c' at hcurve
        cases hcurve
        rfl
      rw [get?_act_of_none hc, get?_act_of_none hc', h.size, hmade]
      cases op.made i m.curves.size with
      | none => exact .none
      | some b => exact .some (.refl b)
    | some c =>
      rw [hc] at hcurve
      cases hc' : m'.curves.get? i with
      | none =>
        rw [hc'] at hcurve
        cases hcurve
      | some c' =>
        rw [hc'] at hcurve
        cases hcurve with | some hr =>
        exact (holds_act h.wired ha hc).resembles (holds_act h.wired' ha' hc') (hafter c c' hc hc' hr)

/-- A quote that no helper of a curve has is of no use to it until it is given other helpers. -/
theorem uses_act {j : QuoteId} (hfree : (m.curves.get? i).any (·.uses j) = false) (hop : ¬op.Unseats i)
    (hmade : op.made i m.curves.size = none) : ((m.act op).curves.get? i).any (·.uses j) = false := by
  cases hd : (m.act op).curves.get? i with
  | none => rfl
  | some d =>
    cases yields_act hd with
    | moved _ hc h =>
      rw [hc] at hfree
      simpa only [Option.any_some, PiecewiseCurve.uses, h.helpers] using hfree
    | rehelped hr _ _ =>
      subst hr
      exact absurd rfl hop
    | built hb hi h =>
      subst hb
      rw [Operation.made, if_pos hi, h] at hmade
      cases hmade

theorem Twins.kindred (h : Twins i id m m') : Kindred i id m m' := by
  induction h with
  | start =>
    refine ⟨wired_empty, wired_empty, rfl, ⟨rfl, fun _ => rfl, fun _ _ => rfl⟩, by simp [Slots.get?], ?_⟩
    simp only [Slots.get?]
    exact .none
  | @both m m' op _ ha hfree ih =>
    refine ih.act ha (ih.admissible ha) rfl rfl ?_ hfree fun c c' hc _ hr => ?_
    · cases op with
      | newQuote value => exact ih.board.add fun _ => rfl
      | setQuote j value => exact ih.board.modify fun _ => rfl
      | _ => exact ih.board
    · exact hr.after (ih.values_helpers hc) i op
  | @made m m' value value' _ hid ih =>
    refine ih.act (.of_cited rfl) (.of_cited rfl) rfl rfl (ih.board.add fun h => ?_) ih.free
      fun c c' _ _ hr => .some hr
    rw [size_board] at h
    exact absurd hid h
  | @set m m' value value' _ ih =>
    refine ih.act (.of_cited rfl) (.of_cited rfl) rfl rfl (ih.board.modify fun h => absurd rfl h)
      (uses_act ih.free (fun h => h) rfl) ?_
    -- Neither curve is told of the quote.
    intro c c' hc _ hr
    have hu : c.uses id = false := by
      have hfree := ih.free
      rwa [hc] at hfree
    have hu' : c'.uses id = false := by rw [PiecewiseCurve.uses, hr.helpers, ← PiecewiseCurve.uses, hu]
    simp only [PiecewiseCurve.after, PiecewiseCurve.isTold, hu, hu', Bool.false_and, if_neg Bool.false_ne_true]
    exact .some hr

/-- The factor of a jump bears on answers alone. Runs that differ in the values of a quote that no helper of a
    curve has take the curve through the same versions, solves, failures and nodes. A curve that was
    built with a jump, whatever was done since, answers for the nodes it has committed if the question is for a
    hazard rate or the time is not after the jump. To other questions it answers after the jump with the same,
    times the factor that is quoted at that moment, or with an error if there is none or it does not lie in
    `(0, 1]`. The jump is as far from the committed reference date as its date is, which is the given one
    or the last day of that year. -/
theorem jump_bears_on_answers :
    (∀ (i : Nat) (id : QuoteId) (m m' : Market α), Twins i id m m' →
      (m'.curves.get? i).map record = (m.curves.get? i).map record) ∧
    ∀ (m n : Market α) (spec : CurveSpec α) (e : TurnOfYear α) (b c d : PiecewiseCurve α), Reachable m →
      (Operation.build spec).Admissible m → spec.build = .ok b → spec.effect = some e → e.window = none →
      Leads (m.act (.build spec)) n → n.curves.get? m.curves.size = some c → c.ensure n.values = (.ok (), d) →
      ∃ jump, e.FallsOn d.committed.reference jump ∧
        ∀ (p : Probe α) (answer : Option (Except (CurveError α) α)),
          answer = (n.readCurve m.curves.size fun _ => .ask p .done).map (·.1) →
          (∀ error, d.committed.answer c.extrapolates p = .error error → answer = some (.error error)) ∧
          ∀ v, d.committed.answer c.extrapolates p = .ok v →
            ((spec.config.kind = .hazardRate ∧ p = .value p.time) ∨
                ¬p.time > spec.config.dayCount.yearFraction d.committed.reference jump →
              answer = some (.ok v)) ∧
            (¬(spec.config.kind = .hazardRate ∧ p = .value p.time) →
              p.time > spec.config.dayCount.yearFraction d.committed.reference jump →
              (∀ x, n.values e.quote = some x → x > 0 ∧ x ≤ 1 → answer = some (.ok (v * x))) ∧
              (∀ x, n.values e.quote = some x → ¬(x > 0 ∧ x ≤ 1) →
                answer = some (.error (.invalidAdjustment (.factor x)))) ∧
              (n.values e.quote = none → answer = some (.error (.invalidAdjustment .missing)))) := by
  refine ⟨fun i id m m' h => ?_, fun m n spec e b c d hm ha hb he hw hl hc hd => ?_⟩
  · have hcurve := h.kindred.curve
    generalize m.curves.get? i = c at hcurve ⊢
    generalize m'.curves.get? i = c' at hcurve ⊢
    cases hcurve with
    | none => rfl
    | some hr => exact congrArg some (record_of_same hr.same)
  · have hcarries := hl.carries hm ha hb he hw hc
    have hsolved : d.Carries spec.config e := by
      have h := hcarries.ensure n.values
      rwa [hd] at h
    obtain ⟨jump, hjump, hfalls⟩ := e.exists_jumpDate d.committed.reference
    refine ⟨jump, hfalls, fun p answer hanswer => ?_⟩
    rw [readCurve_ask hc, hcarries.answer_eq hd hjump p, PiecewiseCurve.extrapolates_of_ensure hd] at hanswer
    refine ⟨fun error herror => ?_, fun v hv => ⟨fun hbefore => ?_, fun hbears hafter => ?_⟩⟩
    · rw [hanswer, herror]
      rfl
    · rw [hanswer, hv, Except.bind, if_neg fun h => hbefore.elim ((hsolved.adjusts_iff p).mp h.1) (· h.2)]
    · rw [hv, Except.bind, if_pos ⟨(hsolved.adjusts_iff p).mpr hbears, hafter⟩, TurnOfYear.factor] at hanswer
      refine ⟨fun x hx hin => ?_, fun x hx hout => ?_, fun hx => ?_⟩ <;> rw [hanswer, hx]
      · dsimp only
        rw [if_pos hin]
        rfl
      · dsimp only
        rw [if_neg hout]
        rfl
      · rfl

/-- A curve of one survival probability, with a jump over the end of 2025 on a quote of its own. -/
def survivalSpec : CurveSpec ℚ where
  reference := .newYear 2025
  helpers := [spotHazard (.newYear 2026)]
  config := { (default : CurveConfig ℚ) with kind := .survivalProbability, interpolation := .linear }
  effect := some { quote := 1 }

/-- Two quotes, the second for the factor of a jump. -/
def quotedMarket : Market ℚ := acts {} [.newQuote (some (99 / 100)), .newQuote (some (1 / 2))]

/-- A curve that was solved when its factor had been given a value. -/
def survivalMarket (factor : Option ℚ) : Market ℚ :=
  acts quotedMarket [.build survivalSpec, .setQuote 1 factor, .ensure 0]

theorem jump_bears_on_answers_survival :
    ((survivalMarket (some (1 / 4))).curves.get? 0).map record = ((survivalMarket none).curves.get? 0).map record ∧
      ∃ v, v ≠ 0 ∧ ((survivalMarket (some (1 / 4))).readCurve 0 fun _ => .ask (.discount 1) .done).map (·.1)
        = some (.ok (v * (1 / 4))) := by
  obtain ⟨htwins, hanswers⟩ := jump_bears_on_answers (α := ℚ)
  have hquoted : Twins 0 1 quotedMarket quotedMarket := by
    refine .both (.newQuote (some (1 / 2))) (.both (.newQuote (some (99 / 100))) .start (.of_cited rfl) ?_)
      (.of_cited rfl) ?_ <;> decide +kernel
  have hbuilt : Twins 0 1 (quotedMarket.act (.build survivalSpec)) (quotedMarket.act (.build survivalSpec)) :=
    hquoted.both _ (by decide +kernel) (by decide +kernel)
  have hset : Twins 0 1 ((quotedMarket.act (.build survivalSpec)).act (.setQuote 1 none))
      ((quotedMarket.act (.build survivalSpec)).act (.setQuote 1 (some (1 / 4)))) := hbuilt.set _ _
  refine ⟨htwins 0 1 _ _ (hset.both (.ensure 0) (.of_cited rfl) (by decide +kernel)), ?_⟩
  have hm : Reachable quotedMarket := Leads.refl.acts (by decide +kernel)
  have hl : Leads (quotedMarket.act (.build survivalSpec)) (survivalMarket (some (1 / 4))) :=
    .step (.ensure 0) (.step (.setQuote 1 (some (1 / 4))) .refl (.of_cited rfl) rfl) (.of_cited rfl) (by decide +kernel)
  have hbuild : survivalSpec.build.toOption.isSome = true := by decide +kernel
  rcases hb : survivalSpec.build with _ | b
  · rw [hb] at hbuild
    cases hbuild
  have hsolves : ((survivalMarket (some (1 / 4))).curves.get? 0).any (fun c =>
      (c.ensure (survivalMarket (some (1 / 4))).values).1.toOption.isSome &&
      (c.ensure (survivalMarket (some (1 / 4))).values).2.committed.reference == .newYear 2025 &&
      ((c.ensure (survivalMarket (some (1 / 4))).values).2.committed.answer c.extrapolates (.discount 1)).toOption.any
        (· ≠ 0)) = true := by decide +kernel
  obtain ⟨c, hc, hsolves⟩ := (Option.any_eq_true _ _).mp hsolves
  rcases hd : c.ensure (survivalMarket (some (1 / 4))).values with ⟨_ | _, d⟩
  · rw [hd] at hsolves
    cases hsolves
  simp only [hd, Bool.and_eq_true, beq_iff_eq] at hsolves
  obtain ⟨⟨-, href⟩, hv⟩ := hsolves
  rcases hanswer : d.committed.answer c.extrapolates (.discount 1) with _ | v
  · rw [hanswer] at hv
    cases hv
  rw [hanswer] at hv
  obtain ⟨jump, hjump, hp⟩ := hanswers quotedMarket _ survivalSpec _ b c d hm (by decide +kernel) hb rfl rfl hl hc hd
  have hafter : (1 : ℚ) > survivalSpec.config.dayCount.yearFraction d.committed.reference jump := by
    obtain ⟨hyear, hmonth, hday⟩ := hjump.2 rfl
    obtain ⟨year, month, day, isDay⟩ := jump
    rw [href] at hyear ⊢
    cases hyear
    cases hmonth
    cases hday
    have h : (1 : ℚ) > survivalSpec.config.dayCount.yearFraction (.newYear 2025) ⟨2025, 12, 31, by decide⟩ := by
      decide +kernel
    exact h
  obtain ⟨hscaled, -, -⟩ := ((hp (.discount 1) _ rfl).2 v hanswer).2 (fun h => nomatch h.1) hafter
  exact ⟨v, of_decide_eq_true hv, hscaled _ (by decide +kernel) (by decide +kernel)⟩

end Market

end TermStructure
