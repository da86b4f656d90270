import TermStructure.Proofs.Bootstrap.Classification
import TermStructure.Proofs.Market.Versions

/-!
# Diagnosis

The error that a curve answers with, be it of a solve just made or of one made long ago, is one that a bootstrap of
its present helpers has ended with. A curve is built only with settings that a bootstrap accepts, and keeps
them, so that the error is one that a bootstrap can fail with.
-/

namespace TermStructure

namespace Controller

variable {α : Type} {c d : Controller α} {e : CurveError α}

theorem lastFailure?_eq_some_iff : c.lastFailure? = some e ↔ c.failure = some (c.version, e) := by
  unfold lastFailure?
  rcases c.failure with _ | ⟨v, e'⟩
  · simp
  · by_cases hv : v = c.version <;> simp [hv]

/-- What is known of the present version was known of it before, and not of an earlier one. -/
theorem Orderly.lastFailure?_of_le (ho : c.Orderly) (hv : c.version ≤ d.version) (hf : d.failure = c.failure)
    (h : d.lastFailure? = some e) : d.version = c.version ∧ c.lastFailure? = some e := by
  have hd := lastFailure?_eq_some_iff.mp h
  rw [hf] at hd
  have hversion : d.version = c.version := Nat.le_antisymm (ho.failed _ e hd) hv
  rw [hversion] at hd
  exact ⟨hversion, lastFailure?_eq_some_iff.mpr hd⟩

end Controller

/-- A curve is built within the settings that a bootstrap accepts. -/
theorem CurveSpec.build_accepts {α : Type} [Scalar α] {spec : CurveSpec α} {c : PiecewiseCurve α}
    (h : spec.build = .ok c) :
    c.config.bootstrap.validate = .ok () ∧ c.scheme.minPoints ≤ BootstrapPlan.firstTrialNodes := by
  have hc := Market.build_eq h
  obtain ⟨_, hvalid, h⟩ := ok_of_bind h
  constructor
  · rw [hc]
    unfold validate at hvalid
    split at hvalid
    · exact hvalid
    · obtain ⟨_, hbootstrap, -⟩ := ok_of_bind hvalid
      exact hbootstrap
  · rw [hc]
    dsimp only at h
    split at h
    · cases h
    · rename_i hmin
      exact Nat.not_lt.mp hmin

namespace PiecewiseCurve

variable {α : Type} [Scalar α] {c d : PiecewiseCurve α} {quotes : QuoteId → Option α} {e : CurveError α}

/-- A bootstrap of the helpers of the curve ends with the error, at some values of their quotes. -/
def FailsWith (c : PiecewiseCurve α) (e : CurveError α) : Prop :=
  ∃ quotes, bootstrap (c.inputs quotes) c.config.bootstrap c.solver = .error e

/-- The settings are those a bootstrap accepts, and the error that is remembered is that of a bootstrap. -/
structure Diagnosed (c : PiecewiseCurve α) : Prop where
  config : c.config.bootstrap.validate = .ok ()
  scheme : c.scheme.minPoints ≤ BootstrapPlan.firstTrialNodes
  failure : ∀ e, c.controller.lastFailure? = some e → c.FailsWith e

theorem Diagnosed.withController (ho : c.controller.Orderly) (h : c.Diagnosed) {k : Controller α}
    (hk : c.Same { c with controller := k } ∨ c.Bumped { c with controller := k }) :
    Diagnosed { c with controller := k } := by
  refine ⟨h.config, h.scheme, fun e he => h.failure e ?_⟩
  rcases hk with hk | hk
  · exact (ho.lastFailure?_of_le hk.version.ge hk.failure he).2
  · exact (ho.lastFailure?_of_le hk.version.le hk.failure he).2

theorem Diagnosed.heard {n : Nat} (ho : c.controller.Orderly) (h : c.Diagnosed) (hd : c.Heard n d) : d.Diagnosed := by
  have hsame := hd.same_or_bumped
  obtain ⟨k, -, rfl⟩ := hd
  exact h.withController ho hsame

/-- Of other inputs no error is known. -/
theorem Diagnosed.of_bumped (ho : c.controller.Orderly) (h : c.Diagnosed) {reference : Date}
    {helpers : List (MarketHelper α)} {k : Controller α} (hk : c.Bumped { c with reference, helpers, controller := k }) :
    Diagnosed { c with reference, helpers, controller := k } := by
  refine ⟨h.config, h.scheme, fun e he => ?_⟩
  have hversion := (ho.lastFailure?_of_le hk.version.le hk.failure he).1
  exact absurd hversion hk.version.ne'

theorem failsWith_of_solve (h : c.solve quotes = .error e) : c.FailsWith e := ⟨quotes, error_of_map h⟩

theorem Diagnosed.settle (h : c.Diagnosed) (quotes : QuoteId → Option α) :
    (c.settle (c.solve quotes)).Diagnosed := by
  cases hs : c.solve quotes with
  | error e =>
    refine ⟨h.config, h.scheme, fun e' he' => ?_⟩
    have hfailure : some (c.controller.version, e) = some (c.controller.version, e') :=
      Controller.lastFailure?_eq_some_iff.mp he'
    cases hfailure
    exact failsWith_of_solve hs
  | ok committed => exact ⟨h.config, h.scheme, nofun⟩

theorem Diagnosed.move (ho : c.controller.Orderly) (h : c.Diagnosed) (hd : c.Move quotes d) : d.Diagnosed := by
  cases hd with
  | hear hd => exact h.heard ho hd
  | advance => exact h.withController ho (.inr (bumped_advance c))
  | freeze => exact h.withController ho (.inl ⟨rfl, rfl, rfl, rfl, rfl⟩)
  | release => exact h.withController ho (release_same_or_bumped c)
  | refer reference => exact h.of_bumped ho (bumped_moved c reference)
  | extrapolate allow => exact ⟨h.config, h.scheme, h.failure⟩
  | effect e => exact ⟨h.config, h.scheme, h.failure⟩
  | ensure =>
    unfold PiecewiseCurve.ensure
    cases c.controller.verdict? with
    | some r => exact h
    | none => exact h.settle quotes

/-- An error that the curve answers with is that of a bootstrap, whenever that was. -/
theorem Diagnosed.ensure_error (h : c.Diagnosed) (he : (c.ensure quotes).1 = .error e) : c.FailsWith e := by
  unfold PiecewiseCurve.ensure at he
  cases hv : c.controller.verdict? with
  | some r =>
    rw [hv] at he
    dsimp only at he
    subst he
    unfold Controller.verdict? at hv
    split at hv
    · cases hv
    · obtain ⟨e', he', heq⟩ := Option.map_eq_some_iff.mp hv
      cases heq
      exact h.failure _ he'
  | none =>
    rw [hv] at he
    exact failsWith_of_solve (error_of_map he)

/-- The error of a bootstrap of the helpers of the curve is one that a bootstrap can fail with. If the helpers are those
    of the library, it tells of no pillar but theirs. -/
structure Classified (c : PiecewiseCurve α) (e : CurveError α) : Prop where
  failed : c.FailsWith e
  isBootstrapFailure : e.isBootstrapFailure = true
  indices : (∀ h ∈ c.helpers, h.product.IsStandard) → ∀ k ∈ e.indices, 1 ≤ k ∧ k ≤ c.helpers.length

theorem Diagnosed.classified [LawfulOrder α] [LawfulDifference α] (h : c.Diagnosed) (he : c.FailsWith e) :
    c.Classified e := by
  have hfails := he
  obtain ⟨quotes, he⟩ := he
  refine ⟨hfails, isBootstrapFailure_of_bootstrap h.config h.scheme he, fun hstandard => ?_⟩
  have hlength : (c.inputs quotes).helpers.length = c.helpers.length := List.length_map _
  rw [← hlength]
  refine indices_of_bootstrap (fun helper hhelper => ?_) he
  obtain ⟨g, hg, rfl⟩ := List.mem_map.mp hhelper
  exact ⟨g.product, hstandard g hg, rfl⟩

end PiecewiseCurve

namespace Market

variable {α : Type} [Scalar α] {m : Market α} {i : Nat} {c : PiecewiseCurve α}

theorem diagnosed_of_build {spec : CurveSpec α} (h : spec.build = .ok c) : c.Diagnosed := by
  obtain ⟨hvalid, hmin⟩ := CurveSpec.build_accepts h
  refine ⟨hvalid, hmin, ?_⟩
  rw [build_eq h]
  intro e he
  cases he

theorem Reachable.diagnosed (h : Reachable m) : ∀ i c, m.curves.get? i = some c → c.Diagnosed :=
  h.holds PiecewiseCurve.Diagnosed.move
    (fun helpers ho hc => hc.of_bumped ho (PiecewiseCurve.bumped_rehelped _ helpers)) diagnosed_of_build

/-- Every error with which a curve of a reachable market cannot be brought up to date, or solved anew, is classified, and
    so is the one that is remembered of the last solve. Helpers, scheme and root finder may be any at all. -/
theorem solve_failures_classified [LawfulOrder α] [LawfulDifference α] (hm : Reachable m)
    (hc : m.curves.get? i = some c) :
    (∀ e n, m.ensureCurve i = some (.error e, n) → c.Classified e) ∧
    (∀ e n, m.recalculateCurve i = some (.error e, n) → c.Classified e) ∧
    ∀ e, c.controller.lastFailure? = some e → c.Classified e := by
  have hdiagnosed := hm.diagnosed i c hc
  have hadvanced := hdiagnosed.withController (hm.orderly i c hc) (.inr (PiecewiseCurve.bumped_advance c))
  refine ⟨fun e n h => ?_, fun e n h => ?_, fun e he => hdiagnosed.classified (hdiagnosed.failure e he)⟩
  · simp only [ensureCurve, onCurve, hc, Option.map_some] at h
    have he : (c.ensure m.values).1 = .error e := congrArg Prod.fst (Option.some.inj h)
    exact hdiagnosed.classified (hdiagnosed.ensure_error he)
  · simp only [recalculateCurve, onCurve, hc, Option.map_some] at h
    have he : (c.recalculate m.values).1 = .error e := congrArg Prod.fst (Option.some.inj h)
    have hfails := hadvanced.ensure_error he
    exact hdiagnosed.classified hfails

/-- Makes a curve of one zero rate that is not quoted, and asks for a solve. -/
def unquotedOperations : List (Operation ℚ) :=
  [.newQuote none,
   .build { reference := .newYear 2025, helpers := [⟨.zeroRate ⟨.newYear 2026⟩, 0⟩], config := default },
   .ensure 0]

/-- Of the curve of an unquoted zero rate, an error is remembered that tells of its only pillar. -/
theorem solve_failures_classified_unquoted :
    ∃ c e, (acts {} unquotedOperations).curves.get? 0 = some c ∧ c.controller.lastFailure? = some e ∧
      e.isBootstrapFailure = true ∧ e.indices = [1] ∧ c.helpers.length = 1 ∧
      ∀ k ∈ e.indices, 1 ≤ k ∧ k ≤ c.helpers.length := by
  have hr : Reachable (acts {} unquotedOperations) := Leads.refl.acts (by decide +kernel)
  have hc : ((acts {} unquotedOperations).curves.get? 0).any (fun c =>
      (c.controller.lastFailure?.any fun e => e.indices == [1]) && c.helpers.length == 1 &&
        c.helpers.all fun h => match h.product with
          | .zeroRate _ => true
          | _ => false) = true := by
    decide +kernel
  obtain ⟨c, hc, hp⟩ := (Option.any_eq_true _ _).mp hc
  obtain ⟨hp, hproducts⟩ := (Bool.and_eq_true _ _).mp hp
  obtain ⟨hp, hcount⟩ := (Bool.and_eq_true _ _).mp hp
  obtain ⟨e, he, hindices⟩ := (Option.any_eq_true _ _).mp hp
  have hclassified := (solve_failures_classified hr hc).2.2 e he
  refine ⟨c, e, hc, he, hclassified.isBootstrapFailure, beq_iff_eq.mp hindices, beq_iff_eq.mp hcount,
    hclassified.indices fun h hh => ?_⟩
  have hproduct := List.all_eq_true.mp hproducts h hh
  split at hproduct
  · rename_i z hz
    rw [hz]
    exact .zeroRate z
  · cases hproduct

end Market

end TermStructure
