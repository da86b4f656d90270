import TermStructure.Proofs.Scalar.Differences
import TermStructure.Proofs.Interpolation.Building
import TermStructure.Proofs.Bootstrap.Passes
import TermStructure.Proofs.Bootstrap.Reordering
import TermStructure.Market.PiecewiseCurve

/-!
# Alignment

Times, values, dates and the curve of a solved curve are kept apart and come from different stages of a run.
Whichever passes a run makes, what it publishes fits together, and its nodes are never refused.
-/

namespace TermStructure

/-- The interpolants of a scheme keep the nodes they are built over. -/
def Scheme.KeepsNodes {α : Type} (s : Scheme α) : Prop :=
  ∀ xs ys f, s.build xs ys = .ok f → f.xs = xs ∧ f.ys = ys

theorem Method.scheme_keepsNodes {α : Type} [Scalar α] (m : Method) : (m.scheme : Scheme α).KeepsNodes :=
  fun _ _ _ h => Method.build_ok h

/-- The parts of a solved curve belong to one frame, one scheme and one set of helpers. -/
structure CommittedCurve.Aligned {α : Type} [Scalar α] (c : CommittedCurve α) (frame : Frame) (scheme : Scheme α)
    (helpers : List (Helper α)) (retried : Bool) : Prop where
  reference : c.reference = frame.reference
  size : c.nodes.size = helpers.length + 1
  valueCount : c.nodes.values.length = c.nodes.size
  dateCount : c.dates.length = c.nodes.size
  firstTime : c.nodes.times.head? = some 0
  firstValue : c.nodes.values.head? = some frame.kind.anchorValue
  spaced : c.nodes.times.IsChain fun s t => Pillar.minSpacing < t - s
  times : c.nodes.times = c.dates.map frame.time
  pillars : c.pillarDates.Perm (helpers.map (·.instrument.pillar))
  /-- The last node is that of a helper no other one comes after. -/
  last : ∃ h ∈ helpers, c.maxDate = h.instrument.pillar ∧ c.nodes.maxTime = frame.time h.instrument.pillar ∧
    ∀ g ∈ helpers, Scalar.totalLe (frame.time g.instrument.pillar) c.nodes.maxTime = true
  curve : ∃ curve, c.curve = some curve ∧ curve.frame = frame ∧
    scheme.build c.nodes.times c.nodes.values = .ok curve.interpolant ∧
    (scheme.KeepsNodes → curve.interpolant.xs = c.nodes.times ∧ curve.interpolant.ys = c.nodes.values)
  passes : c.passes = 1 + (if scheme.isGlobal then 1 else 0) + if retried then 1 else 0

section
variable {α : Type} [Scalar α] [LawfulDifference α]

/-! ### Times -/

omit [LawfulDifference α] in
theorem Date.daysUntil_self (d : Date) : d.daysUntil d = 0 := Int.sub_self _

theorem Frame.time_reference (f : Frame) : (f.time f.reference : α) = 0 := by
  unfold time DayCount.yearFraction
  rw [Date.daysUntil_self, LawfulDifference.yearFraction_zero]

theorem Pillar.spaced_of_check {index : Nat} {previous : α} {pillars : List (Pillar α)}
    (hprevious : Scalar.isFinite previous = true) (h : check index previous pillars = .ok ()) :
    (previous :: pillars.map (·.time)).IsChain fun s t => minSpacing < t - s := by
  induction pillars generalizing index previous with
  | nil => exact .singleton _
  | cons p rest ih =>
    obtain ⟨hfinite, hspacing, hrest⟩ := check_cons h
    exact .cons_cons (LawfulDifference.lt_sub_of_not_le hprevious hfinite hspacing) (ih hfinite hrest)

theorem Pillar.firstRepeat?_of_check {index : Nat} {previous : α} {pillars : List (Pillar α)}
    (hprevious : Scalar.isFinite previous = true) (h : check index previous pillars = .ok ()) :
    NodeStore.firstRepeat? (previous :: pillars.map (·.time)) = none := by
  induction pillars generalizing index previous with
  | nil => rfl
  | cons p rest ih =>
    obtain ⟨hfinite, hspacing, hrest⟩ := check_cons h
    have hlater : ¬p.time ≤ previous := fun hle => hspacing (LawfulDifference.sub_le_of_le hprevious hfinite hle)
    rw [List.map_cons]
    unfold NodeStore.firstRepeat?
    rw [if_neg hlater]
    exact ih hfinite hrest

omit [LawfulDifference α] in
/-- No pillar of a list in order comes after its last one. -/
theorem Pillar.totalLe_getLast [LawfulOrder α] {pillars : List (Pillar α)}
    (horder : pillars.Pairwise fun p q => Scalar.totalLe p.time q.time = true) (hne : pillars ≠ []) {p : Pillar α}
    (hp : p ∈ pillars) : Scalar.totalLe p.time (pillars.getLast hne).time = true :=
  horder.rel_getLast_of_rel_getLast_getLast hp (LawfulOrder.totalLe_self _)

namespace BootstrapPlan

variable {inputs : BootstrapInputs α} {config : BootstrapConfig α} {solver : RootFinder α} {plan : BootstrapPlan α}

/-- What a pass finds is stored, whatever it was seeded with. -/
theorem ofSolution_of_pass (hmake : make inputs config solver = .ok plan) {seeds : List α} {pass : Pass α}
    (hpass : plan.pass seeds = .ok pass) :
    NodeStore.ofSolution plan.times pass.values = .ok ⟨plan.times, pass.values⟩ := by
  obtain ⟨-, hcheck, -, -⟩ := make_ok hmake
  obtain ⟨roots, hvalues, hlength⟩ := pass_values hpass
  have hcounts : ¬(plan.times.length ≠ pass.values.length ∨ plan.times = []) := by
    rintro (hne | hnil)
    · exact hne (by simp [times, hvalues, hlength])
    · cases hnil
  have hfirst : ((0 : α) != 0) = false := by
    rw [bne, LawfulDifference.zero_beq]
    rfl
  have hrepeat : NodeStore.firstRepeat? plan.times = none :=
    Pillar.firstRepeat?_of_check LawfulDifference.isFinite_zero hcheck
  unfold NodeStore.ofSolution
  rw [if_neg hcounts, hrepeat]
  change (if ((0 : α) != 0) = true then _ else _) = _
  rw [hfirst]
  rfl

/-- The nodes are at the times of their dates. -/
theorem times_eq_dates (hmake : make inputs config solver = .ok plan) :
    plan.times = (inputs.frame.reference :: plan.pillarDates).map inputs.frame.time := by
  rw [List.map_cons, Frame.time_reference]
  unfold times pillarDates
  rw [List.map_map]
  congr 1
  refine List.map_congr_left fun p hp => ?_
  have hhelper := make_helper hmake hp
  calc p.time
    _ = (Pillar.make inputs.frame p.helper).time := by rw [hhelper]
    _ = inputs.frame.time (Pillar.make inputs.frame p.helper).date := rfl
    _ = inputs.frame.time p.date := by rw [hhelper]

omit [LawfulDifference α] in
theorem pillarDates_perm (hmake : make inputs config solver = .ok plan) :
    plan.pillarDates.Perm (inputs.helpers.map (·.instrument.pillar)) := by
  have hperm := (pillars_perm hmake).map (·.date)
  rw [List.map_map] at hperm
  exact hperm

omit [LawfulDifference α] in
theorem make_pairwise [LawfulOrder α] (hmake : make inputs config solver = .ok plan) :
    plan.pillars.Pairwise fun p q => Scalar.totalLe p.time q.time = true := by
  obtain ⟨rfl, -⟩ := make_ok hmake
  exact Pillar.inOrder_pairwise _

omit [LawfulDifference α] in
/-- The last node is at the last date, which is that of a helper no other one comes after. -/
theorem last_pillar [LawfulOrder α] (hmake : make inputs config solver = .ok plan) :
    ∃ h ∈ inputs.helpers, plan.pillarDates.getLastD inputs.frame.reference = h.instrument.pillar ∧
      plan.times.getLastD 0 = inputs.frame.time h.instrument.pillar ∧
      ∀ g ∈ inputs.helpers,
        Scalar.totalLe (inputs.frame.time g.instrument.pillar) (plan.times.getLastD 0) = true := by
  have hne := pillars_ne_nil hmake
  obtain ⟨h, hh, hlast⟩ := exists_helper hmake (List.getLast_mem hne)
  have htime : plan.times.getLastD 0 = (plan.pillars.getLast hne).time := by
    unfold times
    rw [List.getLastD_cons, List.getLastD_eq_getLast?, List.getLast?_map, List.getLast?_eq_some_getLast hne]
    rfl
  have hdate : plan.pillarDates.getLastD inputs.frame.reference = (plan.pillars.getLast hne).date := by
    unfold pillarDates
    rw [List.getLastD_eq_getLast?, List.getLast?_map, List.getLast?_eq_some_getLast hne]
    rfl
  refine ⟨h, hh, ?_, ?_, fun g hg => ?_⟩
  · rw [hdate, ← hlast]
    rfl
  · rw [htime, ← hlast]
    rfl
  · have hg' : Pillar.make inputs.frame g ∈ plan.pillars := (pillars_perm hmake).mem_iff.mpr (List.mem_map_of_mem hg)
    rw [htime]
    exact Pillar.totalLe_getLast (make_pairwise hmake) hne hg'

/-- What a run publishes is aligned. -/
theorem aligned_of_run [LawfulOrder α] (hmake : make inputs config solver = .ok plan) {o : BootstrapOutcome α}
    (h : plan.run = .ok o) :
    (CommittedCurve.ofOutcome inputs.frame.reference o).Aligned inputs.frame inputs.scheme inputs.helpers
      plan.retries := by
  obtain ⟨d, curve, report, ⟨seeds, -, hpass⟩, hpasses, hcurve, hpublish⟩ := run_published h
  obtain rfl := publish_ok hpublish
  obtain ⟨f, hf, rfl⟩ := curveOver_ok hcurve
  obtain ⟨roots, hvalues, hlength⟩ := pass_values hpass
  obtain ⟨hplan, hcheck, -, -⟩ := make_ok hmake
  have hframe : plan.frame = inputs.frame := by rw [hplan]
  have hscheme : plan.scheme = inputs.scheme := by rw [hplan]
  have hcount := pillars_length hmake
  have htimes : plan.times.length = inputs.helpers.length + 1 := by
    rw [times, List.length_cons, List.length_map, hcount]
  rw [hframe] at hvalues
  rw [hscheme] at hf hpasses
  refine
    { reference := rfl
      size := htimes
      valueCount := ?_
      dateCount := ?_
      firstTime := rfl
      firstValue := ?_
      spaced := Pillar.spaced_of_check LawfulDifference.isFinite_zero hcheck
      times := times_eq_dates hmake
      pillars := pillarDates_perm hmake
      last := last_pillar hmake
      curve := ⟨_, rfl, hframe, hf, fun hkeeps => hkeeps _ _ _ hf⟩
      passes := hpasses }
  · change d.last.values.length = plan.times.length
    rw [hvalues, htimes, List.length_cons, hlength, hcount]
  · change (inputs.frame.reference :: plan.pillarDates).length = plan.times.length
    rw [htimes, List.length_cons, pillarDates, List.length_map, hcount]
  · change d.last.values.head? = _
    rw [hvalues, List.head?_cons]

end BootstrapPlan

end

end TermStructure
