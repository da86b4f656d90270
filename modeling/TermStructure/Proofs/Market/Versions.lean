import TermStructure.Proofs.Market.Moves

/-!
# Versions

The versions a controller keeps are in order: nothing is known of a version before it is reached. So a
controller that comes to a new version knows nothing of it, and is told of what is solved only.
-/

namespace TermStructure

namespace Controller

variable {α : Type} {c d : Controller α} {n : Nat}

/-- No version is known before it is reached, and changes are put off only by who is frozen. -/
structure Orderly (c : Controller α) : Prop where
  clean : c.cleanVersion ≤ c.version
  failed : ∀ v e, c.failure = some (v, e) → v ≤ c.version
  pending : c.pending = true → c.frozen = true

/-- There is a change that no solve has seen. -/
def Stirred (c : Controller α) : Prop := c.pending = true ∨ c.verdict? = none

theorem verdict?_eq_none_iff : c.verdict? = none ↔ c.cleanVersion ≠ c.version ∧ ∀ e, c.failure ≠ some (c.version, e) := by
  unfold verdict? isUpToDate lastFailure?
  rcases c.failure with _ | ⟨v, e⟩
  · simp
  · by_cases hc : c.cleanVersion = c.version <;> by_cases hv : v = c.version <;> simp [hc, hv]

theorem Orderly.verdict?_of_lt (h : c.Orderly) (hv : c.version < d.version) (hc : d.cleanVersion = c.cleanVersion)
    (hf : d.failure = c.failure) : d.verdict? = none := by
  refine verdict?_eq_none_iff.mpr ⟨?_, fun e he => ?_⟩
  · have := h.clean
    omega
  · have := h.failed _ e (hf ▸ he)
    omega

theorem Orderly.of_le (h : c.Orderly) (hv : c.version ≤ d.version) (hc : d.cleanVersion = c.cleanVersion)
    (hf : d.failure = c.failure) (hp : d.pending = true → d.frozen = true) : d.Orderly where
  clean := by
    rw [hc]
    exact Nat.le_trans h.clean hv
  failed v e he := Nat.le_trans (h.failed v e (hf ▸ he)) hv
  pending := hp

theorem Orderly.advance (h : c.Orderly) : c.advance.Orderly := h.of_le (Nat.le_succ _) rfl rfl h.pending

theorem Orderly.verdict?_advance (h : c.Orderly) : c.advance.verdict? = none :=
  h.verdict?_of_lt (Nat.lt_succ_self _) rfl rfl

theorem Orderly.heard (ho : c.Orderly) (h : c.Heard n d) : d.Orderly := by
  rcases h.cases with ⟨-, h⟩ | ⟨-, hf, h⟩ | ⟨-, -, h⟩
  · rw [h]
    exact ho.of_le (Nat.le_refl _) rfl rfl ho.pending
  · rw [h]
    exact ho.of_le (Nat.le_refl _) rfl rfl fun _ => hf
  · rw [h]
    exact ho.of_le (Nat.le_add_right _ _) rfl rfl ho.pending

theorem Orderly.stirred (ho : c.Orderly) (h : c.Heard n d) (hn : n ≠ 0) : d.Stirred := by
  rcases h.cases with ⟨h0, -⟩ | ⟨-, -, h⟩ | ⟨-, -, h⟩
  · exact absurd h0 hn
  · rw [h]
    exact .inl rfl
  · rw [h]
    refine .inr (ho.verdict?_of_lt ?_ rfl rfl)
    exact Nat.lt_add_of_pos_right (Nat.pos_of_ne_zero hn)

theorem Orderly.settle (ho : c.Orderly) (r : Except (CurveError α) Unit) : (c.settle r).Orderly := by
  cases r with
  | ok _ => exact ⟨Nat.le_refl _, nofun, ho.pending⟩
  | error e => exact ⟨ho.clean, by rintro _ _ ⟨⟩; exact Nat.le_refl _, ho.pending⟩

theorem verdict?_settle (hv : c.verdict? = none) (r : Except (CurveError α) Unit) : (c.settle r).verdict? = some r := by
  cases r with
  | ok _ => simp [settle, verdict?, isUpToDate]
  | error e =>
    have hc := (verdict?_eq_none_iff.mp hv).1
    simp [settle, verdict?, isUpToDate, lastFailure?, hc]

/-- Thawing bears on nothing but what it ends. -/
theorem thaw_eq (c : Controller α) : c.thaw = { c with frozen := c.thaw.frozen, pending := c.thaw.pending } := by
  unfold thaw
  split <;> rfl

theorem release_eq (ho : c.Orderly) :
    (c.isDue = true ∧ c.release = { c with frozen := false, pending := false, version := c.version + 1 }) ∨
      (c.pending = false ∧ c.release = { c with frozen := false }) := by
  by_cases hf : c.frozen = true
  · by_cases hp : c.pending = true
    · exact .inl ⟨by simp [isDue, hf, hp], by simp [release, isDue, thaw, Controller.advance, hf, hp]⟩
    · exact .inr ⟨Bool.eq_false_iff.mpr hp, by simp [release, isDue, thaw, hf, hp]⟩
  · have hp : c.pending = false := Bool.eq_false_iff.mpr fun hp => hf (ho.pending hp)
    have hf := Bool.eq_false_iff.mpr hf
    have hr : c.release = c := by simp [release, isDue, thaw, hf]
    exact .inr ⟨hp, by rw [hr, ← hf]⟩

theorem Orderly.release (ho : c.Orderly) : c.release.Orderly := by
  rcases release_eq ho with ⟨-, hr⟩ | ⟨hp, hr⟩ <;> rw [hr]
  · exact ho.of_le (Nat.le_succ _) rfl rfl nofun
  · exact ho.of_le (Nat.le_refl _) rfl rfl fun h => absurd h (by simp [hp])

end Controller

namespace PiecewiseCurve

variable {α : Type} {c d e : PiecewiseCurve α}

/-- The curves hold the same verdict, for the same version, and the same nodes. -/
structure Same (c d : PiecewiseCurve α) : Prop where
  version : d.controller.version = c.controller.version
  clean : d.controller.cleanVersion = c.controller.cleanVersion
  failure : d.controller.failure = c.controller.failure
  solves : d.controller.solves = c.controller.solves
  committed : d.committed = c.committed

/-- The curve has come to another version, and nothing else has happened to its verdict. -/
structure Bumped (c d : PiecewiseCurve α) : Prop where
  version : c.controller.version < d.controller.version
  clean : d.controller.cleanVersion = c.controller.cleanVersion
  failure : d.controller.failure = c.controller.failure
  solves : d.controller.solves = c.controller.solves
  committed : d.committed = c.committed

theorem Same.refl (c : PiecewiseCurve α) : c.Same c := ⟨rfl, rfl, rfl, rfl, rfl⟩

theorem Heard.same_or_bumped {n : Nat} (h : c.Heard n d) : c.Same d ∨ c.Bumped d := by
  obtain ⟨k, hk, rfl⟩ := h
  rcases hk.cases with ⟨-, h⟩ | ⟨-, -, h⟩ | ⟨hn, -, h⟩
  · rw [h]
    exact .inl ⟨rfl, rfl, rfl, rfl, rfl⟩
  · rw [h]
    exact .inl ⟨rfl, rfl, rfl, rfl, rfl⟩
  · rw [h]
    exact .inr ⟨Nat.lt_add_of_pos_right (Nat.pos_of_ne_zero hn), rfl, rfl, rfl, rfl⟩

theorem bumped_advance (c : PiecewiseCurve α) : c.Bumped (c.control (·.advance)) :=
  ⟨Nat.lt_succ_self _, rfl, rfl, rfl, rfl⟩

theorem bumped_moved (c : PiecewiseCurve α) (reference : Date) : c.Bumped (c.moved reference) :=
  ⟨Nat.lt_succ_self _, rfl, rfl, rfl, rfl⟩

theorem bumped_rehelped [Scalar α] (c : PiecewiseCurve α) (helpers : List (MarketHelper α)) :
    c.Bumped (c.rehelped helpers) :=
  ⟨Nat.lt_succ_self _, rfl, rfl, rfl, rfl⟩

theorem Same.verdict? (h : c.Same d) : d.controller.verdict? = c.controller.verdict? := by
  unfold Controller.verdict? Controller.isUpToDate Controller.lastFailure?
  rw [h.version, h.clean, h.failure]

theorem Same.trans (h : c.Same d) (h' : d.Same e) : c.Same e :=
  ⟨h'.version.trans h.version, h'.clean.trans h.clean, h'.failure.trans h.failure, h'.solves.trans h.solves,
    h'.committed.trans h.committed⟩

theorem Bumped.verdict? (ho : c.controller.Orderly) (h : c.Bumped d) : d.controller.verdict? = none :=
  ho.verdict?_of_lt h.version h.clean h.failure

theorem release_same_or_bumped (c : PiecewiseCurve α) :
    c.Same (c.control (·.release)) ∨ c.Bumped (c.control (·.release)) := by
  have ht := Controller.thaw_eq c.controller
  by_cases hd : c.controller.isDue = true
  · right
    have hr : c.controller.release = c.controller.thaw.advance := if_pos hd
    refine ⟨?_, ?_, ?_, ?_, rfl⟩ <;> rw [control, hr, ht]
    · exact Nat.lt_succ_self _
    all_goals rfl
  · left
    have hr : c.controller.release = c.controller.thaw := if_neg hd
    refine ⟨?_, ?_, ?_, ?_, rfl⟩ <;> rw [control, hr, ht]

section
variable [Scalar α] {quotes : QuoteId → Option α}

/-- A move leaves the verdict alone, or brings the curve to another version, or solves it. -/
theorem Move.trichotomy (h : c.Move quotes d) :
    c.Same d ∨ c.Bumped d ∨ (c.controller.verdict? = none ∧ d = c.settle (c.solve quotes)) := by
  cases h with
  | hear h => exact h.same_or_bumped.imp_right .inl
  | advance => exact .inr (.inl (bumped_advance c))
  | freeze => exact .inl ⟨rfl, rfl, rfl, rfl, rfl⟩
  | release => exact (release_same_or_bumped c).imp_right .inl
  | refer reference => exact .inr (.inl (bumped_moved c reference))
  | extrapolate allow => exact .inl ⟨rfl, rfl, rfl, rfl, rfl⟩
  | effect e => exact .inl ⟨rfl, rfl, rfl, rfl, rfl⟩
  | ensure =>
    unfold PiecewiseCurve.ensure
    cases hv : c.controller.verdict? with
    | some r => exact .inl (.refl c)
    | none => exact .inr (.inr ⟨rfl, rfl⟩)

theorem Move.orderly (ho : c.controller.Orderly) (h : c.Move quotes d) : d.controller.Orderly := by
  cases h with
  | hear h =>
    obtain ⟨k, hk, rfl⟩ := h
    exact ho.heard hk
  | advance => exact ho.advance
  | freeze => exact ho.of_le (Nat.le_refl _) rfl rfl fun _ => rfl
  | release => exact ho.release
  | refer reference => exact ho.advance
  | extrapolate allow => exact ho
  | effect e => exact ho
  | ensure =>
    unfold PiecewiseCurve.ensure
    cases c.controller.verdict? with
    | some r => exact ho
    | none =>
      cases c.solve quotes with
      | error e => exact ho.settle (.error e)
      | ok committed => exact ho.settle (.ok ())

theorem Moves.orderly (ho : c.controller.Orderly) (h : c.Moves quotes d) : d.controller.Orderly := by
  induction h with
  | refl => exact ho
  | tail _ h ih => exact h.orderly ih

/-- What every move of an orderly curve keeps is kept by any number of them. -/
theorem Moves.keeps {P : PiecewiseCurve α → Prop}
    (hmove : ∀ {c d : PiecewiseCurve α}, c.controller.Orderly → P c → c.Move quotes d → P d)
    (ho : c.controller.Orderly) (hc : P c) (h : c.Moves quotes d) : P d := by
  induction h with
  | refl => exact hc
  | tail hmoves h ih => exact hmove (Moves.orderly ho hmoves) ih h

end

end PiecewiseCurve

namespace Market

variable {α : Type} [Scalar α] {m : Market α}

/-- The controllers of curves are orderly. -/
def Orderly (m : Market α) : Prop := ∀ i c, m.curves.get? i = some c → c.controller.Orderly

theorem Orderly.act (ho : m.Orderly) (op : Operation α) : (m.act op).Orderly := by
  intro i c' hc'
  cases yields_act hc' with
  | moved hop hc h => exact h.orderly (ho i _ hc)
  | rehelped hop hc h =>
    obtain ⟨k, hk, rfl⟩ := h
    exact (ho i _ hc).advance.heard hk
  | built hop hi h =>
    rw [build_eq h]
    exact ⟨Nat.zero_le _, nofun, nofun⟩

theorem Orderly.leads {n : Market α} (ho : m.Orderly) (h : Leads m n) : n.Orderly := by
  induction h with
  | refl => exact ho
  | step op _ _ _ ih => exact ih.act op

theorem Reachable.orderly (h : Reachable m) : m.Orderly :=
  Orderly.leads (fun i c hc => by simp [Slots.get?] at hc) h

/-- What is true of a new curve, and stays so with every move and with other helpers, is true of the curves of a reachable
    market. -/
theorem Reachable.holds {P : PiecewiseCurve α → Prop}
    (hmove : ∀ {quotes : QuoteId → Option α} {c d : PiecewiseCurve α},
      c.controller.Orderly → P c → c.Move quotes d → P d)
    (hrehelped : ∀ {c : PiecewiseCurve α} (helpers : List (MarketHelper α)),
      c.controller.Orderly → P c → P (c.rehelped helpers))
    (hbuilt : ∀ {spec : CurveSpec α} {c : PiecewiseCurve α}, spec.build = .ok c → P c) (h : Reachable m) :
    ∀ i c, m.curves.get? i = some c → P c := by
  induction h with
  | refl => exact fun i c hc => by simp [Slots.get?] at hc
  | @step n op hl _ _ ih =>
    have horderly := Reachable.orderly hl
    intro i c' hc'
    cases yields_act hc' with
    | moved hop hc h => exact h.keeps hmove (horderly i _ hc) (ih i _ hc)
    | @rehelped c helpers _ hop hc h =>
      have ho := horderly i c hc
      have hnew := hrehelped helpers ho (ih i c hc)
      -- The news of other helpers is heard like any other.
      have hheard : (c.rehelped helpers).Move n.values c' := .hear h
      exact hmove ho.advance hnew hheard
    | built hop hi h => exact hbuilt h

end Market

end TermStructure
