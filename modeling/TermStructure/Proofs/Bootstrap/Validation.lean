import Mathlib.Data.List.Duplicate
import Mathlib.Data.List.Sort
import Mathlib.Order.Bounds.Image
import TermStructure.Proofs.Bootstrap.Alignment
import TermStructure.Proofs.Market.Versions

/-!
# Which pillars are accepted

Pillars are put in the order of their times, and each is then held against the node before it, with some
tolerance. In exact arithmetic this decides on the dates alone, and on all of them at once: times are
ordered as dates are, and dates that differ are further apart than the tolerance. So a set of helpers is
refused for its earliest pillar that is out of place, and where it is accepted its pillars have the order
in which a curve, which sorts by dates, keeps its helpers.
-/

namespace TermStructure

section
variable {β : Type} [DecidableEq β] {x : β} {xs ys : List β}

theorem duplicate_iff_of_perm (h : xs.Perm ys) : List.Duplicate x xs ↔ List.Duplicate x ys := by
  rw [List.duplicate_iff_two_le_count, List.duplicate_iff_two_le_count, h.count_eq]

end

namespace BootstrapInputs

variable {α : Type}

/-- The dates of the pillars, in the order of the helpers. -/
def dates (inputs : BootstrapInputs α) : List Date := inputs.helpers.map (·.instrument.pillar)

/-- The dates of pillars that another node is at: on the reference date, or shared by two helpers. -/
def crowded (inputs : BootstrapInputs α) : Set Date :=
  {d | d = inputs.frame.reference ∧ d ∈ inputs.dates ∨ List.Duplicate d inputs.dates}

variable {inputs : BootstrapInputs α}

theorem mem_crowded_iff {d : Date} :
    d ∈ inputs.crowded ↔ List.Duplicate d (inputs.frame.reference :: inputs.dates) := by
  rw [List.duplicate_cons_iff, @eq_comm Date inputs.frame.reference d]
  rfl

/-- No date is crowded and none is before the reference date, if all are after it and differ. -/
theorem apart_iff : ((∀ d ∈ inputs.dates, inputs.frame.reference ≤ d) ∧ inputs.crowded = ∅) ↔
    (∀ d ∈ inputs.dates, inputs.frame.reference < d) ∧ inputs.dates.Nodup := by
  rw [Set.eq_empty_iff_forall_notMem, List.nodup_iff_forall_not_duplicate]
  constructor
  · rintro ⟨hfrom, hnone⟩
    refine ⟨fun d hd => lt_of_le_of_ne (hfrom d hd) fun heq => hnone d (.inl ⟨heq.symm, hd⟩), fun d hd => hnone d (.inr hd)⟩
  · rintro ⟨hafter, hnodup⟩
    refine ⟨fun d hd => (hafter d hd).le, ?_⟩
    rintro d (⟨rfl, hd⟩ | hd)
    · exact lt_irrefl _ (hafter _ hd)
    · exact hnodup d hd

variable [Scalar α]

/-- The pillars in the order in which they are checked. -/
def pillars (inputs : BootstrapInputs α) : List (Pillar α) :=
  Pillar.inOrder (inputs.helpers.map (Pillar.make inputs.frame))

theorem pillars_perm (inputs : BootstrapInputs α) :
    inputs.pillars.Perm (inputs.helpers.map (Pillar.make inputs.frame)) :=
  List.mergeSort_perm _ _

theorem placed (inputs : BootstrapInputs α) : ∀ p ∈ inputs.pillars, p.time = inputs.frame.time p.date := by
  intro p hp
  obtain ⟨h, -, rfl⟩ := List.mem_map.mp (inputs.pillars_perm.mem_iff.mp hp)
  rfl

theorem pillars_dates_perm (inputs : BootstrapInputs α) : (inputs.pillars.map (·.date)).Perm inputs.dates := by
  have hperm := inputs.pillars_perm.map (·.date)
  rw [List.map_map] at hperm
  exact hperm

end BootstrapInputs

/-- With settings in range and a helper at least, all depends on the check of the pillars. -/
theorem BootstrapPlan.make_eq_check {α : Type} [Scalar α] {inputs : BootstrapInputs α} {config : BootstrapConfig α}
    {solver : RootFinder α} (hconfig : config.validate = .ok ()) (hscheme : inputs.scheme.minPoints ≤ firstTrialNodes)
    (hne : inputs.helpers ≠ []) :
    BootstrapPlan.make inputs config solver = (Pillar.check 1 0 inputs.pillars).map fun _ =>
      ⟨inputs.frame, inputs.scheme, config, solver, inputs.pillars⟩ := by
  have hempty : ¬inputs.helpers.isEmpty = true := fun h => hne (List.isEmpty_iff.mp h)
  unfold make
  rw [hconfig]
  change (if inputs.scheme.minPoints > firstTrialNodes then _ else _) = _
  rw [if_neg (Nat.not_lt.mpr hscheme), if_neg hempty]
  rfl

section
variable {α : Type} [ScalarField α] [ExactScalar α]

namespace Pillar

variable {f : Frame} {d : Date}

/-- A pillar is too close to the node before it only if they have one date. -/
theorem close_iff {e : Date} (h : d ≤ e) : (f.time e : α) - f.time d ≤ minSpacing ↔ d = e := by
  constructor
  · intro hclose
    by_contra hne
    exact absurd hclose (not_le.mpr (f.minSpacing_lt_of_lt (lt_of_le_of_ne h hne)))
  · rintro rfl
    rw [sub_self]
    exact LawfulOrder.decimal_nonneg

/-- The check of pillars in order, of which none is before the node that they follow: it passes if all these nodes have
    dates of their own, and otherwise names the first date that they share. -/
theorem check_decides {pillars : List (Pillar α)} (hplaced : ∀ p ∈ pillars, p.time = f.time p.date)
    (hstart : f.reference ≤ d) (hsorted : (d :: pillars.map (·.date)).Pairwise (· ≤ ·)) (index : Nat) :
    (check index (f.time d) pillars = .ok () ∧ (d :: pillars.map (·.date)).Nodup) ∨
    ∃ e, IsLeast {e | List.Duplicate e (d :: pillars.map (·.date))} e ∧
      check index (f.time d) pillars = .error (.duplicatePillar (f.time e)) := by
  induction pillars generalizing d index with
  | nil => exact .inl ⟨rfl, List.nodup_singleton d⟩
  | cons p rest ih =>
    obtain ⟨hbefore, hrest⟩ := List.pairwise_cons.mp hsorted
    have hle : d ≤ p.date := hbefore p.date List.mem_cons_self
    have htime : p.time = f.time p.date := hplaced p List.mem_cons_self
    have hvalid : ¬(!Scalar.isFinite p.time || decide (p.time < 0)) = true := by
      rw [ExactScalar.isFinite_eq, htime]
      simpa using f.time_nonneg (hstart.trans hle)
    by_cases heq : d = p.date
    · -- The node before is at this date, and nothing comes before it.
      refine .inr ⟨d, ⟨?_, ?_⟩, ?_⟩
      · exact List.duplicate_cons_iff.mpr (.inl ⟨rfl, heq ▸ List.mem_cons_self⟩)
      · intro e he
        rcases List.mem_cons.mp (List.Duplicate.mem he) with rfl | he
        · exact le_refl _
        · exact hbefore e he
      · unfold check
        rw [if_neg hvalid, if_pos (by rw [htime]; exact (close_iff hle).mpr heq), htime, heq]
    · -- The node before is not met again, so that all is decided among the rest.
      have hlt : d < p.date := lt_of_le_of_ne hle heq
      have hfresh : d ∉ (p :: rest).map (·.date) := by
        intro hmem
        rcases List.mem_cons.mp hmem with h | h
        · exact heq h
        · exact absurd (hlt.trans_le ((List.pairwise_cons.mp hrest).1 d h)) (lt_irrefl d)
      have hstep : check index (f.time d) (p :: rest) = check (index + 1) (f.time p.date) rest := by
        rw [check, if_neg hvalid, if_neg (by rw [htime]; exact fun h => heq ((close_iff hle).mp h)), htime]
      rw [hstep]
      rcases ih (fun q hq => hplaced q (List.mem_cons_of_mem _ hq)) (hstart.trans hle) hrest (index + 1) with
        ⟨hok, hnodup⟩ | ⟨e, hleast, herror⟩
      · exact .inl ⟨hok, List.nodup_cons.mpr ⟨hfresh, hnodup⟩⟩
      · refine .inr ⟨e, ?_, herror⟩
        have hsame : {e | List.Duplicate e (d :: (p :: rest).map (·.date))} =
            {e | List.Duplicate e ((p :: rest).map (·.date))} := by
          ext e
          refine ⟨fun he => ?_, fun he => he.duplicate_cons d⟩
          rcases List.duplicate_cons_iff.mp he with ⟨rfl, hmem⟩ | he
          · exact absurd hmem hfresh
          · exact he
        rw [hsame]
        exact hleast

/-- The check of pillars in order, of which one is before the reference date: it refuses the first of them. -/
theorem check_before {pillars : List (Pillar α)} (hplaced : ∀ p ∈ pillars, p.time = f.time p.date)
    (hsorted : (pillars.map (·.date)).Pairwise (· ≤ ·)) (hbefore : ∃ e ∈ pillars.map (·.date), e < f.reference)
    (index : Nat) (previous : α) :
    ∃ e, IsLeast {e | e ∈ pillars.map (·.date)} e ∧
      check index previous pillars = .error (.invalidPillar index (f.time e)) := by
  obtain ⟨e, he, hlt⟩ := hbefore
  cases pillars with
  | nil => cases he
  | cons p rest =>
    have hleast : IsLeast {e | e ∈ (p :: rest).map (·.date)} p.date := by
      refine ⟨List.mem_cons_self, fun g hg => ?_⟩
      rcases List.mem_cons.mp hg with rfl | hg
      · exact le_refl _
      · exact (List.pairwise_cons.mp hsorted).1 g hg
    have htime : p.time = f.time p.date := hplaced p List.mem_cons_self
    have hneg : p.time < 0 := by
      rw [htime, ← f.time_reference]
      exact f.time_lt ((hleast.2 he).trans_lt hlt)
    refine ⟨p.date, hleast, ?_⟩
    rw [check, if_pos (by rw [decide_eq_true hneg, Bool.or_true]), htime]

end Pillar

namespace BootstrapInputs

variable {inputs : BootstrapInputs α}

/-- The order of the times is that of the dates. -/
theorem pillars_dates_sorted (inputs : BootstrapInputs α) : (inputs.pillars.map (·.date)).Pairwise (· ≤ ·) := by
  refine List.pairwise_map.mpr ((Pillar.inOrder_pairwise _).imp_of_mem fun {p q} hp hq h => ?_)
  rw [ExactScalar.totalLe_eq, inputs.placed p hp, inputs.placed q hq] at h
  exact (inputs.frame.time_strictMono (α := α)).le_iff_le.mp (of_decide_eq_true h)

end BootstrapInputs

namespace BootstrapPlan

variable {inputs : BootstrapInputs α} {config : BootstrapConfig α} {solver : RootFinder α} {plan : BootstrapPlan α}

/-- Where no pillar is before the reference date, those at the date of another node are refused, for the earliest
    such date. -/
theorem make_of_not_before (hconfig : config.validate = .ok ())
    (hscheme : inputs.scheme.minPoints ≤ firstTrialNodes) (hne : inputs.helpers ≠ [])
    (hfrom : ∀ d ∈ inputs.dates, inputs.frame.reference ≤ d) :
    (make inputs config solver = .ok ⟨inputs.frame, inputs.scheme, config, solver, inputs.pillars⟩ ∧
        inputs.crowded = ∅) ∨
      ∃ d, IsLeast inputs.crowded d ∧
        make inputs config solver = .error (.duplicatePillar (inputs.frame.time d)) := by
  have hperm : (inputs.frame.reference :: inputs.pillars.map (·.date)).Perm (inputs.frame.reference :: inputs.dates) :=
    inputs.pillars_dates_perm.cons _
  have hcrowded : {d | List.Duplicate d (inputs.frame.reference :: inputs.pillars.map (·.date))} = inputs.crowded := by
    ext d
    exact (duplicate_iff_of_perm hperm).trans BootstrapInputs.mem_crowded_iff.symm
  have hsorted : (inputs.frame.reference :: inputs.pillars.map (·.date)).Pairwise (· ≤ ·) :=
    List.pairwise_cons.mpr ⟨fun d hd => hfrom d (inputs.pillars_dates_perm.mem_iff.mp hd), inputs.pillars_dates_sorted⟩
  rw [make_eq_check hconfig hscheme hne, ← hcrowded, ← inputs.frame.time_reference]
  rcases Pillar.check_decides inputs.placed (le_refl _) hsorted 1 with ⟨hok, hnodup⟩ | ⟨d, hleast, herror⟩
  · rw [hok]
    refine .inl ⟨rfl, ?_⟩
    ext d
    exact iff_of_false (List.nodup_iff_forall_not_duplicate.mp hnodup d) id
  · rw [herror]
    exact .inr ⟨d, hleast, rfl⟩

theorem make_of_before (hconfig : config.validate = .ok ()) (hscheme : inputs.scheme.minPoints ≤ firstTrialNodes)
    (hbefore : ∃ d ∈ inputs.dates, d < inputs.frame.reference) :
    ∃ d, IsLeast {d | d ∈ inputs.dates} d ∧
      make inputs config solver = .error (.invalidPillar 1 (inputs.frame.time d)) := by
  have hne : inputs.helpers ≠ [] := by
    rintro hnil
    obtain ⟨d, hd, -⟩ := hbefore
    rw [BootstrapInputs.dates, hnil] at hd
    cases hd
  have hmem : ∀ d, d ∈ inputs.pillars.map (·.date) ↔ d ∈ inputs.dates := fun d => inputs.pillars_dates_perm.mem_iff
  have hpillars : ∃ d ∈ inputs.pillars.map (·.date), d < inputs.frame.reference := by
    obtain ⟨d, hd, hlt⟩ := hbefore
    exact ⟨d, (hmem d).mpr hd, hlt⟩
  obtain ⟨d, hleast, herror⟩ := Pillar.check_before inputs.placed inputs.pillars_dates_sorted hpillars 1 0
  simp only [hmem] at hleast
  rw [make_eq_check hconfig hscheme hne, herror]
  exact ⟨d, hleast, rfl⟩

end BootstrapPlan

end

/-! ### The helpers of a curve -/

/-- The helpers are in the order of their dates. -/
def PiecewiseCurve.InOrder {α : Type} [Scalar α] (c : PiecewiseCurve α) : Prop :=
  c.helpers.Pairwise fun g h => g.instrument.pillar ≤ h.instrument.pillar

theorem MarketHelper.inOrder_pairwise {α : Type} [Scalar α] (helpers : List (MarketHelper α)) :
    (inOrder helpers).Pairwise fun g h => g.instrument.pillar ≤ h.instrument.pillar := by
  have hsorted : (inOrder helpers).Pairwise fun g h => decide (g.instrument.pillar ≤ h.instrument.pillar) = true := by
    refine List.pairwise_mergeSort (fun _ _ _ hab hbc => ?_) (fun g h => ?_) helpers
    · exact decide_eq_true ((of_decide_eq_true hab).trans (of_decide_eq_true hbc))
    · rw [Bool.or_eq_true]
      exact (le_total g.instrument.pillar h.instrument.pillar).imp decide_eq_true decide_eq_true
  exact hsorted.imp of_decide_eq_true

theorem Market.Reachable.inOrder {α : Type} [Scalar α] {m : Market α} (h : Reachable m) :
    ∀ i c, m.curves.get? i = some c → c.InOrder := by
  refine h.holds (fun _ hc hd => ?_) (fun helpers _ _ => ?_) fun h => ?_
  · unfold PiecewiseCurve.InOrder
    rw [hd.helpers]
    exact hc
  · exact MarketHelper.inOrder_pairwise helpers
  · rw [build_eq h]
    exact MarketHelper.inOrder_pairwise _

section
variable {α : Type} [ScalarField α] [ExactScalar α]

namespace BootstrapPlan

variable {inputs : BootstrapInputs α} {config : BootstrapConfig α} {solver : RootFinder α} {plan : BootstrapPlan α}

/-- The pillars of a plan are those of the helpers one by one, in the order of the dates. -/
structure Follows (plan : BootstrapPlan α) (inputs : BootstrapInputs α) : Prop where
  increasing : plan.pillarDates.Pairwise (· < ·)
  dates : plan.pillarDates = inputs.dates.mergeSort (· ≤ ·)
  /-- A curve of these helpers keeps them in that order too. -/
  helpers : ∀ (m : Market α) i c quotes, Market.Reachable m → m.curves.get? i = some c →
    inputs.helpers.Perm (c.helpers.map (·.priced quotes)) →
      plan.pillars = c.helpers.map fun h => Pillar.make inputs.frame (h.priced quotes)

theorem follows_of_make (h : make inputs config solver = .ok plan)
    (hnodup : inputs.dates.Nodup) : plan.Follows inputs := by
  have hpillars : plan.pillars = inputs.pillars := by
    obtain ⟨rfl, -⟩ := make_ok h
    rfl
  have hperm : plan.pillarDates.Perm inputs.dates := pillarDates_perm h
  have hsorted : plan.pillarDates.Pairwise (· ≤ ·) := by
    rw [pillarDates, hpillars]
    exact inputs.pillars_dates_sorted
  have hdistinct : plan.pillarDates.Nodup := hperm.nodup_iff.mpr hnodup
  refine ⟨?_, ?_, fun m i c quotes hm hc hhelpers => ?_⟩
  · exact (hsorted.and hdistinct).imp fun h => lt_of_le_of_ne h.1 h.2
  · exact (hperm.trans (List.mergeSort_perm _ _).symm).eq_of_pairwise' hsorted (List.pairwise_mergeSort' _ _)
  · have hsame : plan.pillars.Perm (c.helpers.map fun h => Pillar.make inputs.frame (h.priced quotes)) := by
      have hmap := hhelpers.map (Pillar.make inputs.frame)
      rw [List.map_map] at hmap
      exact (pillars_perm h).trans hmap
    -- Both are in the order of the dates, which tell the pillars apart.
    refine List.Perm.eq_of_pairwise (fun p q hp hq hpq hqp => ?_) (List.pairwise_map.mp hsorted)
      (List.pairwise_map.mpr (hm.inOrder i c hc)) hsame
    exact List.inj_on_of_nodup_map hdistinct hp (hsame.mem_iff.mpr hq) (le_antisymm hpq hqp)

theorem exists_make_iff (hconfig : config.validate = .ok ()) (hscheme : inputs.scheme.minPoints ≤ firstTrialNodes)
    (hne : inputs.helpers ≠ []) :
    (∃ plan, make inputs config solver = .ok plan) ↔
      (∀ d ∈ inputs.dates, inputs.frame.reference < d) ∧ inputs.dates.Nodup := by
  rw [← BootstrapInputs.apart_iff]
  constructor
  · rintro ⟨plan, hplan⟩
    have hnone : ∀ d ∈ inputs.dates, inputs.frame.reference ≤ d := by
      intro d hd
      by_contra hlt
      obtain ⟨e, -, herror⟩ := make_of_before hconfig hscheme ⟨d, hd, not_le.mp hlt⟩
      rw [hplan] at herror
      cases herror
    rcases make_of_not_before hconfig hscheme hne hnone with ⟨-, hempty⟩ | ⟨e, -, herror⟩
    · exact ⟨hnone, hempty⟩
    · rw [hplan] at herror
      cases herror
  · rintro ⟨hnone, hempty⟩
    rcases make_of_not_before hconfig hscheme hne hnone with ⟨hok, -⟩ | ⟨e, hleast, -⟩
    · exact ⟨_, hok⟩
    · exact absurd hleast.1 (hempty ▸ Set.notMem_empty e)

/-- Helpers make a plan if and only if their pillars are after the reference date and no two of them share a date. Of those
    that do not, the error names the earliest pillar, if it is before the reference date, and otherwise the earliest one
    that is on it or shared. The pillars of a plan are in the order of the dates, in which a curve keeps its helpers. -/
theorem make_decides (hconfig : config.validate = .ok ()) (hscheme : inputs.scheme.minPoints ≤ firstTrialNodes)
    (hne : inputs.helpers ≠ []) :
    ((∃ plan, make inputs config solver = .ok plan) ↔
      (∀ d ∈ inputs.dates, inputs.frame.reference < d) ∧ inputs.dates.Nodup) ∧
    ((∃ d ∈ inputs.dates, d < inputs.frame.reference) →
      ∃ t, IsLeast (inputs.frame.time '' {d | d ∈ inputs.dates}) t ∧
        make inputs config solver = .error (.invalidPillar 1 t)) ∧
    ((∀ d ∈ inputs.dates, inputs.frame.reference ≤ d) → inputs.crowded.Nonempty →
      ∃ t, IsLeast (inputs.frame.time '' inputs.crowded) t ∧
        make inputs config solver = .error (.duplicatePillar t)) ∧
    ∀ plan, make inputs config solver = .ok plan → plan.Follows inputs := by
  have htime := (inputs.frame.time_strictMono (α := α)).monotone
  refine ⟨exists_make_iff hconfig hscheme hne, fun h => ?_, fun hnone hcrowded => ?_, fun plan hplan => ?_⟩
  · obtain ⟨d, hleast, herror⟩ := make_of_before hconfig hscheme h
    exact ⟨_, htime.map_isLeast hleast, herror⟩
  · rcases make_of_not_before hconfig hscheme hne hnone with ⟨-, hempty⟩ | ⟨d, hleast, herror⟩
    · exact absurd hcrowded (Set.not_nonempty_iff_eq_empty.mpr hempty)
    · exact ⟨_, htime.map_isLeast hleast, herror⟩
  · exact follows_of_make hplan ((exists_make_iff hconfig hscheme hne).mp ⟨plan, hplan⟩).2

end BootstrapPlan

end

/-- Two zero rates of one quote, the later one first. -/
def lateFirst : List (MarketHelper ℚ) := [⟨.zeroRate ⟨.newYear 2028⟩, 0⟩, ⟨.zeroRate ⟨.newYear 2026⟩, 0⟩]

def lateFirstSpec : CurveSpec ℚ where
  reference := .newYear 2025
  helpers := lateFirst
  config := default

def lateFirstQuotes : QuoteId → Option ℚ := fun _ => some (3 / 100)

/-- What a bootstrap of them starts from, in the order they are given. -/
def lateFirstInputs : BootstrapInputs ℚ :=
  ⟨⟨.newYear 2025, .act365Fixed, .discount⟩, Method.logLinear.scheme, lateFirst.map (·.priced lateFirstQuotes)⟩

theorem BootstrapPlan.make_decides_lateFirst :
    ∃ (m : Market ℚ) (c : PiecewiseCurve ℚ) (plan : BootstrapPlan ℚ), m.Reachable ∧ m.curves.get? 0 = some c ∧
      make lateFirstInputs default (Brent.finder default) = .ok plan ∧
      plan.pillarDates = [.newYear 2026, .newYear 2028] ∧
      plan.pillars = c.helpers.map fun h => Pillar.make lateFirstInputs.frame (h.priced lateFirstQuotes) := by
  obtain ⟨c, hbuild⟩ : ∃ c, lateFirstSpec.build = .ok c := ok_of_isSome (by decide +kernel)
  have hquoted : Market.Reachable (Market.acts {} [.newQuote (some (3 / 100 : ℚ))]) := Market.Leads.refl.acts (by decide)
  have hreach := hquoted.step (.build lateFirstSpec) (by decide) rfl
  have hcurve : ((Market.acts {} [.newQuote (some (3 / 100 : ℚ))]).act (.build lateFirstSpec)).curves.get? 0 = some c := by
    simp only [Market.act, Market.buildCurve, hbuild, Except.map, Except.toOption, Option.getD_some,
      Market.curves_addCurve, Slots.get?_add]
    rfl
  have hsame : lateFirstInputs.helpers.Perm (c.helpers.map (·.priced lateFirstQuotes)) := by
    rw [Market.build_eq hbuild]
    exact (List.mergeSort_perm _ _).symm.map _
  obtain ⟨haccepted, -, -, hfollows⟩ := @make_decides ℚ _ _ lateFirstInputs default (Brent.finder default)
    (by decide +kernel) (Nat.le_refl 2) (List.cons_ne_nil _ _)
  obtain ⟨plan, hplan⟩ := haccepted.mpr ⟨by decide, by decide⟩
  obtain ⟨-, hdates, hhelpers⟩ := hfollows plan hplan
  refine ⟨_, c, plan, hreach, hcurve, hplan, ?_, hhelpers _ 0 c _ hreach hcurve hsame⟩
  rw [hdates]
  cbv

end TermStructure
