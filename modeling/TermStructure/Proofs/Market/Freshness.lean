import TermStructure.Proofs.Market.Following
import TermStructure.Proofs.Market.Versions

/-!
# Freshness

Whatever is done to a market and in whatever order, a curve never answers from superseded inputs: what
a curve has committed is what a solve of its present inputs would commit, unless it is known that these
have not been solved for or a change is being put off.
-/

namespace TermStructure

namespace PiecewiseCurve

variable {α : Type} [Scalar α] {quotes quotes' : QuoteId → Option α} {c d : PiecewiseCurve α}

/-- What the curve takes for the verdict on its present inputs is one, unless a change is put off. -/
def Tracks (c : PiecewiseCurve α) (quotes : QuoteId → Option α) : Prop :=
  c.controller.pending = false → ∀ r, c.controller.verdict? = some r → c.solve quotes = r.map fun _ => c.committed

theorem Tracks.of_stirred (hs : c.controller.Stirred) : c.Tracks quotes := by
  intro hp r hr
  rcases hs with hs | hs
  · rw [hs] at hp
    cases hp
  · rw [hs] at hr
    cases hr

theorem Bumped.tracks (ho : c.controller.Orderly) (h : c.Bumped d) : d.Tracks quotes :=
  .of_stirred (.inr (h.verdict? ho))

theorem solve_congr (h : ∀ g ∈ c.helpers, quotes' g.quote = quotes g.quote) : c.solve quotes' = c.solve quotes := by
  have hp : c.helpers.map (·.priced quotes') = c.helpers.map (·.priced quotes) :=
    List.map_congr_left fun g hg => by rw [MarketHelper.priced, MarketHelper.priced, h g hg]
  simp only [solve, inputs, hp]

theorem Tracks.congr (h : c.Tracks quotes) (hq : ∀ g ∈ c.helpers, quotes' g.quote = quotes g.quote) :
    c.Tracks quotes' := by
  intro hp r hr
  rw [solve_congr hq, h hp r hr]

theorem Tracks.heard {n : Nat} (ho : c.controller.Orderly) (h : c.Tracks quotes) (hd : c.Heard n d) :
    d.Tracks quotes := by
  obtain ⟨k, hk, rfl⟩ := hd
  by_cases hn : n = 0
  · subst hn
    rw [hk]
    exact h
  · exact .of_stirred (ho.stirred hk hn)

/-- A curve that was told of a change tracks its inputs whatever they are. -/
theorem tracks_of_told {n : Nat} (ho : c.controller.Orderly) (hd : c.Heard n d) (hn : n ≠ 0) : d.Tracks quotes := by
  obtain ⟨k, hk, rfl⟩ := hd
  exact .of_stirred (ho.stirred hk hn)

theorem Tracks.release (ho : c.controller.Orderly) (h : c.Tracks quotes) : (c.control (·.release)).Tracks quotes := by
  rcases Controller.release_eq ho with ⟨-, hr⟩ | ⟨hp, hr⟩
  · refine .of_stirred (.inr ?_)
    rw [control, hr]
    exact ho.verdict?_of_lt (Nat.lt_succ_self _) rfl rfl
  · intro _ r hv
    rw [control, hr] at hv
    exact h hp r hv

theorem tracks_settle (hv : c.controller.verdict? = none) : (c.settle (c.solve quotes)).Tracks quotes := by
  cases hs : c.solve quotes with
  | error e =>
    intro _ r hr
    have hr : (c.controller.settle (.error e)).verdict? = some r := hr
    rw [Controller.verdict?_settle hv] at hr
    cases hr
    exact hs
  | ok committed =>
    intro _ r hr
    have hr : (c.controller.settle (.ok ())).verdict? = some r := hr
    rw [Controller.verdict?_settle hv] at hr
    cases hr
    exact hs

theorem Tracks.move (ho : c.controller.Orderly) (h : c.Tracks quotes) (hd : c.Move quotes d) : d.Tracks quotes := by
  cases hd with
  | hear hd => exact h.heard ho hd
  | advance => exact (bumped_advance c).tracks ho
  | freeze => exact h
  | release => exact h.release ho
  | refer reference => exact (bumped_moved c reference).tracks ho
  | extrapolate allow => exact h
  | effect e => exact h
  | ensure =>
    unfold PiecewiseCurve.ensure
    cases hv : c.controller.verdict? with
    | some r => exact h
    | none => exact tracks_settle hv

theorem Tracks.moves (ho : c.controller.Orderly) (h : c.Tracks quotes) (hd : c.Moves quotes d) : d.Tracks quotes :=
  hd.keeps Tracks.move ho h

/-! ### Reading without a memory -/

/-- The answer of a curve that is solved for every question. -/
def answerAnew (c : PiecewiseCurve α) (quotes : QuoteId → Option α) (p : Probe α) :
    Except (CurveError α) α × PiecewiseCurve α :=
  match c.solve quotes with
  | .error e => (.error e, c)
  | .ok committed =>
    match committed.answer c.extrapolates p with
    | .error e => (.error e, c)
    | .ok value => { c with committed }.adjust quotes p value

/-- The two curves differ only in what they remember of a solve. -/
def Alike (c d : PiecewiseCurve α) : Prop :=
  ∃ controller committed, d = { c with controller, committed }

theorem adjust_controller (c : PiecewiseCurve α) (k : Controller α) (p : Probe α) (value : α) :
    { c with controller := k }.adjust quotes p value
      = ((c.adjust quotes p value).1, { (c.adjust quotes p value).2 with controller := k }) := by
  obtain ⟨reference, config, scheme, solver, helpers, controller, committed, extrapolates, effect⟩ := c
  cases effect with
  | none => rfl
  | some e =>
    cases p with
    | value t => by_cases h : config.kind.isProbabilityLike = true <;> simp [adjust, adjusts, h]
    | discount t => rfl

theorem Alike.solve (h : c.Alike d) : d.solve quotes = c.solve quotes := by
  obtain ⟨k, committed, rfl⟩ := h
  rfl

theorem Alike.adjust (h : c.Alike d) (hc : d.committed = c.committed) (p : Probe α) (value : α) :
    (d.adjust quotes p value).1 = (c.adjust quotes p value).1 ∧
      (c.adjust quotes p value).2.Alike (d.adjust quotes p value).2 := by
  obtain ⟨k, committed, rfl⟩ := h
  cases hc
  rw [adjust_controller]
  exact ⟨rfl, k, _, rfl⟩

/-- What the curve says of its present inputs is what a solve of them says. -/
theorem Tracks.ensure_eq (h : c.Tracks quotes) (hp : c.controller.pending = false) :
    ∃ k, k.pending = false ∧ c.ensure quotes =
      match c.solve quotes with
      | .error e => (.error e, { c with controller := k })
      | .ok committed => (.ok (), { c with controller := k, committed }) := by
  unfold PiecewiseCurve.ensure
  cases hv : c.controller.verdict? with
  | some r =>
    refine ⟨c.controller, hp, ?_⟩
    rw [h hp r hv]
    cases r <;> rfl
  | none =>
    cases hs : c.solve quotes with
    | error e => exact ⟨c.controller.settle (.error e), hp, rfl⟩
    | ok committed => exact ⟨c.controller.settle (.ok ()), hp, rfl⟩

theorem Tracks.answer_eq (h : c.Tracks quotes) (hp : c.controller.pending = false) (ha : c.Alike d) (p : Probe α) :
    (c.answer quotes p).1 = (d.answerAnew quotes p).1 ∧ (c.answer quotes p).2.Alike (d.answerAnew quotes p).2 ∧
      (c.answer quotes p).2.controller.pending = false := by
  obtain ⟨k, hk, he⟩ := h.ensure_eq hp
  obtain ⟨k', committed', rfl⟩ := ha
  unfold answer answerAnew
  rw [he, Alike.solve ⟨k', committed', rfl⟩]
  cases hs : c.solve quotes with
  | error e => exact ⟨rfl, ⟨k', committed', rfl⟩, hk⟩
  | ok committed =>
    dsimp only
    cases committed.answer c.extrapolates p with
    | error e => exact ⟨rfl, ⟨k', committed', rfl⟩, hk⟩
    | ok value =>
      have ha : Alike { c with controller := k, committed } { c with controller := k', committed } := ⟨k', _, rfl⟩
      obtain ⟨hr, hs⟩ := ha.adjust rfl p value
      exact ⟨hr.symm, hs, by rw [adjust_keeps_controller]; exact hk⟩

/-- A computation on a curve is that on one which is solved for every question. -/
theorem Tracks.runOn_eq {β : Type} (r : Reading α β) (ho : c.controller.Orderly) (h : c.Tracks quotes)
    (hp : c.controller.pending = false) (ha : c.Alike d) :
    (r.runOn (fun c p => c.answer quotes p) c).1 = (r.runOn (fun d p => d.answerAnew quotes p) d).1 := by
  induction r generalizing c d with
  | done result => rfl
  | ask p next ih =>
    obtain ⟨hr, ha, hp'⟩ := h.answer_eq hp ha p
    simp only [Reading.runOn]
    rw [← hr]
    exact ih _ (Moves.orderly ho (moves_answer c p)) (h.moves ho (moves_answer c p)) hp' ha

end PiecewiseCurve

namespace Market

variable {α : Type} [Scalar α] {m : Market α}

/-- Every curve follows the quotes of its helpers and tracks their values. -/
structure Coherent (m : Market α) : Prop where
  orderly : m.Orderly
  follows : ∀ i c, m.curves.get? i = some c → ∀ h ∈ c.helpers, m.Follows (.controller (.curve i)) h.quote
  tracks : ∀ i c, m.curves.get? i = some c → c.Tracks m.values

theorem coherent_empty : Coherent ({} : Market α) :=
  ⟨Reachable.orderly .refl, fun i c hc => by simp [Slots.get?] at hc, fun i c hc => by simp [Slots.get?] at hc⟩

theorem Coherent.follows_act (hm : Coherent m) {op : Operation α} (ha : op.Admissible m) {i : Nat}
    {c' : PiecewiseCurve α} (hc' : (m.act op).curves.get? i = some c') :
    ∀ h ∈ c'.helpers, (m.act op).Follows (.controller (.curve i)) h.quote := by
  cases yields_act hc' with
  | moved hop hc h =>
    rw [h.helpers]
    exact fun g hg => (hm.follows i _ hc g hg).act hc hop
  | rehelped hop hc h =>
    subst hop
    obtain ⟨k, -, rfl⟩ := h
    exact follows_replaceHelpers hc fun g hg => ha _ (List.mem_map_of_mem hg)
  | @built spec hop hi h =>
    subst hop hi
    have hact : m.act (.build spec) = m.addCurve c' := by simp [act, buildCurve, h, Except.map, Except.toOption]
    rw [hact]
    refine follows_addCurve fun g hg => ha _ (List.mem_append_left _ (List.mem_map_of_mem ?_))
    rw [build_eq h] at hg
    exact List.mem_mergeSort.mp hg

/-- A quote that is set to another value has the curves that follow it told. -/
theorem Coherent.told_of_setQuote (hm : Coherent m) {i : Nat} {c c' : PiecewiseCurve α} {g : MarketHelper α}
    {value : Option α} {q : Quote α} (hc : m.curves.get? i = some c) (hg : g ∈ c.helpers)
    (hq : m.quotes.get? g.quote = some q) (hch : q.changes value = true)
    (hc' : (m.act (.setQuote g.quote value)).curves.get? i = some c') : ∃ n, n ≠ 0 ∧ c.Heard n c' := by
  rw [act, setQuote_of_some hq, if_pos hch] at hc'
  obtain ⟨n, hn, hh⟩ := hears_notify_of_follows (m := m.assign g.quote value) hc
    ((hm.follows i c hc g hg).assign _ _)
  have hc : (m.assign g.quote value).curves.get? i = some c := hc
  rw [Hears, hc, hc'] at hh
  cases hh with | some hh => exact ⟨n, hn, hh⟩

theorem Coherent.tracks_act [LawfulSame α] (hm : Coherent m) (op : Operation α) {i : Nat} {c' : PiecewiseCurve α}
    (hc' : (m.act op).curves.get? i = some c') : c'.Tracks (m.act op).values := by
  cases yields_act hc' with
  | @moved c hop hc h =>
    have ht := hm.tracks i c hc
    by_cases hv : ∀ g ∈ c.helpers, (m.act op).values g.quote = m.values g.quote
    · refine (ht.moves (hm.orderly i c hc) h).congr fun g hg => hv g ?_
      rwa [h.helpers] at hg
    · -- Some quote has changed, so it was set, and the curve has been told.
      push Not at hv
      obtain ⟨g, hg, hne⟩ := hv
      obtain ⟨q, hq, -⟩ := hm.follows i c hc g hg
      rcases act_values hq op with heq | ⟨value, rfl, hch⟩
      · exact absurd heq hne
      · obtain ⟨n, hn, hh⟩ := hm.told_of_setQuote hc hg hq hch hc'
        exact PiecewiseCurve.tracks_of_told (hm.orderly i c hc) hh hn
  | @rehelped c helpers n hop hc h =>
    have hb := PiecewiseCurve.bumped_rehelped c helpers
    exact (hb.tracks (hm.orderly i c hc)).heard (hm.orderly i c hc).advance h
  | built hop hi h =>
    refine .of_stirred (.inr ?_)
    rw [build_eq h]
    rfl

theorem Coherent.act [LawfulSame α] (hm : Coherent m) {op : Operation α} (ha : op.Admissible m) :
    Coherent (m.act op) :=
  ⟨hm.orderly.act op, fun _ _ hc => hm.follows_act ha hc, fun _ _ hc => hm.tracks_act op hc⟩

theorem Reachable.coherent [LawfulSame α] (h : Reachable m) : Coherent m := by
  induction h with
  | refl => exact coherent_empty
  | step op _ ha _ ih => exact ih.act ha

/-- A curve of a reachable market puts off changes only while it is frozen. Unless it does, what it has
    committed when it counts as valid is what a bootstrap of its present inputs returns, and whatever is
    read from it is read as if it were solved for every question. -/
theorem reachable_fresh [LawfulSame α] (hm : Reachable m) {i : Nat} {c : PiecewiseCurve α}
    (hc : m.curves.get? i = some c) :
    (c.controller.frozen = false → c.controller.pending = false) ∧
      (c.controller.pending = false →
        (c.isValid = true → ∃ o, bootstrap (c.inputs m.values) c.config.bootstrap c.solver = .ok o ∧
          c.committed = .ofOutcome c.reference o) ∧
        ∀ {β : Type} (r : Frame → Reading α β),
          (m.readCurve i r).map (·.1) = some ((r c.frame).runOn (fun d p => d.answerAnew m.values p) c).1) := by
  have ho := hm.orderly i c hc
  have ht := hm.coherent.tracks i c hc
  refine ⟨fun hf => Bool.eq_false_iff.mpr fun hp => ?_, fun hp => ⟨fun hv => ?_, fun r => ?_⟩⟩
  · rw [ho.pending hp] at hf
    cases hf
  · have hverdict : c.controller.verdict? = some (.ok ()) := if_pos hv
    have hs := ht hp _ hverdict
    unfold PiecewiseCurve.solve at hs
    cases hb : bootstrap (c.inputs m.values) c.config.bootstrap c.solver with
    | error e =>
      rw [hb] at hs
      cases hs
    | ok o =>
      rw [hb] at hs
      exact ⟨o, rfl, (Except.ok.inj hs).symm⟩
  · have hr := ht.runOn_eq (r c.frame) ho hp ⟨c.controller, c.committed, rfl⟩
    simp only [readCurve, onCurve, hc, Option.map_some, PiecewiseCurve.read, hr]

theorem reachable_fresh_spot :
    ∃ c, (acts {} spotOperations).curves.get? 0 = some c ∧ c.isValid = true ∧ c.controller.frozen = false ∧
      ∃ o, bootstrap (c.inputs (acts {} spotOperations).values) c.config.bootstrap c.solver = .ok o ∧
        c.committed = .ofOutcome c.reference o := by
  have hr : Reachable (acts {} spotOperations) := Leads.refl.acts (by decide +kernel)
  have hc : ((acts {} spotOperations).curves.get? 0).any (fun c => c.isValid && !c.controller.frozen) = true := by
    decide +kernel
  obtain ⟨c, hc, hp⟩ := (Option.any_eq_true _ _).mp hc
  obtain ⟨hv, hf⟩ := (Bool.and_eq_true _ _).mp hp
  have hf : c.controller.frozen = false := by simpa using hf
  obtain ⟨hpending, h⟩ := reachable_fresh hr hc
  exact ⟨c, hc, hv, hf, (h (hpending hf)).1 hv⟩

end Market

end TermStructure
