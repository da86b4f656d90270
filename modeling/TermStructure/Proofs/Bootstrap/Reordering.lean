import Mathlib.Data.List.Nodup
import TermStructure.Instrument.ZeroRate
import TermStructure.Proofs.Bootstrap.Stages
import TermStructure.Proofs.Calendar.Order
import TermStructure.Proofs.Scalar.Exact
import TermStructure.RootFinding.Brent

/-!
# The order of helpers

Helpers are put in the order of their pillars before anything else is looked at. Their check depends on the
times alone, which are the same for every order the helpers come in; and it refuses pillars of one time, so
that where it passes there is one order only.
-/

namespace TermStructure

variable {α : Type} [Scalar α]

namespace Pillar

/-- The check looks at nothing but the times. -/
theorem check_congr {pillars others : List (Pillar α)} (h : pillars.map (·.time) = others.map (·.time)) (index : Nat)
    (previous : α) : check index previous pillars = check index previous others := by
  induction pillars generalizing others index previous with
  | nil =>
    cases others with
    | nil => rfl
    | cons q rest => cases h
  | cons p rest ih =>
    cases others with
    | nil => cases h
    | cons q others =>
      obtain ⟨htime, hrest⟩ := List.cons.inj h
      unfold check
      dsimp only at htime
      rw [htime, ih hrest]

variable [LawfulOrder α]

theorem inOrder_pairwise (pillars : List (Pillar α)) :
    (inOrder pillars).Pairwise fun a b => Scalar.totalLe a.time b.time = true :=
  List.pairwise_mergeSort (fun a b c => @LawfulOrder.totalLe_trans α _ _ a.time b.time c.time)
    (fun a b => LawfulOrder.totalLe_total a.time b.time) pillars

/-- Pillars in order have the same times, whatever order they came in. -/
theorem times_inOrder {pillars others : List (Pillar α)} (h : pillars.Perm others) :
    (inOrder pillars).map (·.time) = (inOrder others).map (·.time) := by
  have hperm : (inOrder pillars).Perm (inOrder others) :=
    ((List.mergeSort_perm _ _).trans h).trans (List.mergeSort_perm _ _).symm
  refine List.Perm.eq_of_pairwise (fun _ _ _ _ => LawfulOrder.totalLe_antisymm) ?_ ?_ (hperm.map _)
  · exact List.pairwise_map.mpr (inOrder_pairwise pillars)
  · exact List.pairwise_map.mpr (inOrder_pairwise others)

/-- A pillar that passed its check is not at the time of the node before it. -/
theorem ne_of_check {index : Nat} {previous : α} {p : Pillar α} {rest : List (Pillar α)}
    (h : check index previous (p :: rest) = .ok ()) : p.time ≠ previous ∧ check (index + 1) p.time rest = .ok () := by
  obtain ⟨hfinite, hspacing, hrest⟩ := check_cons h
  refine ⟨?_, hrest⟩
  rintro rfl
  rw [LawfulOrder.sub_self hfinite] at hspacing
  exact hspacing LawfulOrder.decimal_nonneg

/-- No two of the pillars in order that passed their check share a time. -/
theorem nodup_of_check {index : Nat} {previous : α} {pillars : List (Pillar α)}
    (hsorted : pillars.Pairwise fun a b => Scalar.totalLe a.time b.time = true)
    (h : check index previous pillars = .ok ()) : (pillars.map (·.time)).Nodup := by
  induction pillars generalizing index previous with
  | nil => exact List.nodup_nil
  | cons p rest ih =>
    obtain ⟨hp, hrest⟩ := List.pairwise_cons.mp hsorted
    obtain ⟨-, h⟩ := ne_of_check h
    refine List.nodup_cons.mpr ⟨fun hmem => ?_, ih hrest h⟩
    obtain ⟨q, hq, htime⟩ : ∃ q ∈ rest, q.time = p.time := List.mem_map.mp hmem
    cases rest with
    | nil => cases hq
    | cons r rest =>
      -- A later pillar of the same time has the next one between the two, which then has that time too.
      have hle : Scalar.totalLe r.time p.time = true := by
        rcases List.mem_cons.mp hq with rfl | hq
        · have hle := hp q List.mem_cons_self
          rw [htime] at hle ⊢
          exact hle
        · rw [← htime]
          exact (List.pairwise_cons.mp hrest).1 q hq
      exact (ne_of_check h).1 (LawfulOrder.totalLe_antisymm hle (hp r List.mem_cons_self))

/-- Where the check passes, pillars have one order, whatever order they came in. -/
theorem inOrder_eq_of_perm {pillars others : List (Pillar α)} (h : pillars.Perm others) {index : Nat} {previous : α}
    (hcheck : check index previous (inOrder pillars) = .ok ()) : inOrder pillars = inOrder others := by
  have hperm : (inOrder pillars).Perm (inOrder others) :=
    ((List.mergeSort_perm _ _).trans h).trans (List.mergeSort_perm _ _).symm
  have hnodup := nodup_of_check (inOrder_pairwise pillars) hcheck
  refine List.Perm.eq_of_pairwise (fun a b ha hb hab hba => ?_) (inOrder_pairwise _) (inOrder_pairwise _) hperm
  exact List.inj_on_of_nodup_map hnodup ha (hperm.mem_iff.mpr hb) (LawfulOrder.totalLe_antisymm hab hba)

end Pillar

variable [LawfulOrder α] {inputs : BootstrapInputs α} {helpers : List (Helper α)}

/-- Plans do not depend on the order of the helpers, and neither does the error where there is none. -/
theorem BootstrapPlan.make_perm (h : inputs.helpers.Perm helpers) (config : BootstrapConfig α) (solver : RootFinder α) :
    make { inputs with helpers := helpers } config solver = make inputs config solver := by
  have hpillars := h.map (Pillar.make inputs.frame)
  have hcheck := Pillar.check_congr (Pillar.times_inOrder hpillars) 1 0
  unfold make
  dsimp only
  rw [← h.isEmpty_eq, ← hcheck]
  cases hresult : Pillar.check 1 0 (Pillar.inOrder (inputs.helpers.map (Pillar.make inputs.frame))) with
  | error e => rfl
  | ok _ => rw [Pillar.inOrder_eq_of_perm hpillars hresult]

/-- A bootstrap gives the same outcome for every order of the helpers: the same nodes, pillar dates, curve,
    report, passes and evaluations, or the same error. -/
theorem bootstrap_perm (h : inputs.helpers.Perm helpers) (config : BootstrapConfig α) (solver : RootFinder α) :
    bootstrap { inputs with helpers := helpers } config solver = bootstrap inputs config solver := by
  unfold bootstrap
  rw [BootstrapPlan.make_perm h]

/-- A zero rate quoted for the start of a year. -/
def yearRate (year : Int) (quote : Float) : Helper Float :=
  ⟨(ZeroRate.mk (.newYear year)).instrument, some quote⟩

/-- Zero rates in the order of their dates, two of them for one date. -/
def tiedRates : BootstrapInputs Float where
  frame := ⟨.newYear 2025, .act365Fixed, .discount⟩
  scheme := Method.logLinear.scheme
  helpers := [yearRate 2026 0.03, yearRate 2027 0.04, yearRate 2027 0.05]

theorem bootstrap_perm_tied :
    bootstrap { tiedRates with helpers := tiedRates.helpers.reverse } default (Brent.finder default)
      = .error (.duplicatePillar 2.0) := by
  have hsorted : Pillar.inOrder (tiedRates.helpers.map (Pillar.make tiedRates.frame)) =
      tiedRates.helpers.map (Pillar.make tiedRates.frame) :=
    List.mergeSort_of_pairwise (by decide +kernel)
  rw [bootstrap_perm (List.reverse_perm _).symm]
  unfold bootstrap BootstrapPlan.make
  dsimp only
  rw [hsorted]
  rfl

end TermStructure
