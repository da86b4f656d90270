import TermStructure.Proofs.Interpolation.Area
import TermStructure.Proofs.Curve.Range

/-!
# The shape of survival

A curve over discount factors or survival probabilities stays between the values at neighbouring nodes, and a curve over
hazard rates that are not negative takes ever more from one. So either of them declines, and stays positive, on all of
its range: the former if its values do not rise from node to node.
-/

namespace TermStructure

variable {α : Type} [ScalarField α]

/-- Times that increase from zero on, with a value for each. -/
structure AreNodes (times values : List α) : Prop where
  two_le : 2 ≤ times.length
  length_eq : times.length = values.length
  increasing : times.Pairwise (· < ·)
  first : times.headD 0 = 0

namespace NodeCurve

/-- From a node to the next one value and discount factor are the same, and between the values at the two. -/
def StaysBetween (c : NodeCurve α) (times values : List α) : Prop :=
  ∀ i t, i + 1 < times.length → times.getD i 0 ≤ t → t ≤ times.getD (i + 1) 0 →
    ∃ v ∈ Set.uIcc (values.getD i 0) (values.getD (i + 1) 0), ∀ allow,
      c.answerWith allow (.value t) = .ok v ∧ c.answerWith allow (.discount t) = .ok v

/-- From time zero to `high` the curve answers with discount factors that are positive and do not rise. -/
structure Declines (c : NodeCurve α) (high : α) : Prop where
  answers : ∀ allow t, 0 ≤ t → t ≤ high → c.answerWith allow (.discount t) = .ok (c.saying (.discount t))
  positive : ∀ t, 0 ≤ t → t ≤ high → 0 < c.saying (.discount t)
  antitone : AntitoneOn (fun t => c.saying (.discount t)) (Set.Icc 0 high)

end NodeCurve

variable {times values : List α} {k : Knots α} {m : Method} {c : NodeCurve α}

theorem Knots.x_zero (k : Knots α) : k.x 0 = k.xs.headD 0 := by
  rw [x, List.getD_eq_getElem?_getD, ← List.head?_eq_getElem?, List.headD_eq_head?_getD]

theorem Method.interpolant_range (m : Method) (k : Knots α) :
    (m.interpolant k).low = k.x 0 ∧ (m.interpolant k).high = k.x k.last := by
  rw [k.x_zero, k.x_last]
  cases m <;> exact ⟨rfl, rfl⟩

variable [ExactScalar α]

namespace AreNodes

/-- The interpolant of a method that can be built over the nodes. -/
theorem exists_build (h : AreNodes times values) (m : Method) (hpos : m = .logLinear → ∀ y ∈ values, 0 < y) :
    ∃ k : Knots α, m.build times values = .ok (m.interpolant k) ∧ k.xs = times ∧ k.ys = values ∧ k.x 0 = 0 ∧
      k.x k.last = times.getLastD 0 := by
  obtain ⟨f, hf⟩ := Method.build_of_finite (m := m) h.two_le h.length_eq h.increasing
    (fun x _ => ExactScalar.isFinite_eq x) hpos
  obtain ⟨k, rfl, rfl, rfl, -⟩ := Method.exists_knots hf
  exact ⟨k, hf, rfl, rfl, k.x_zero.trans h.first, k.x_last⟩

end AreNodes

namespace NodeCurve

/-- Within its nodes a curve says what it has to say. -/
theorem answerWith_of_mem (hc : c.interpolant = m.interpolant k) (hstart : k.x 0 = 0) {p : Probe α} (hp : 0 ≤ p.time)
    (hp' : p.time ≤ k.x k.last) (allow : Bool) : c.answerWith allow p = .ok (c.saying p) := by
  obtain ⟨hlow, hhigh⟩ := m.interpolant_range k
  rw [← hc] at hlow hhigh
  have hend : 0 ≤ c.interpolant.high := hp.trans (hp'.trans hhigh.ge)
  have hstrict := strict_of_anchored (c := c.extrapolating false) rfl (hlow.trans hstart) hend
  have hrange : rangeRule allow c.interpolant.high p.time = .ok () :=
    rangeRule_eq_ok_iff.mpr ⟨ExactScalar.isNaN_eq _, .inr ⟨hp, hp'.trans hhigh.ge⟩⟩
  have hanswer := hstrict.answers allow p
  change c.answerWith allow p = (rangeRule allow c.interpolant.high p.time).map fun _ => c.saying p at hanswer
  rw [hanswer, hrange]
  rfl

section
variable (hc : c.interpolant = m.interpolant k) (hstart : k.x 0 = 0) (hf : k.Connects (m.interpolant k).value)
  (hkind : c.frame.kind.isProbabilityLike = true)
include hc hstart hf hkind

theorem staysBetween_of_connects : c.StaysBetween k.xs k.ys := by
  intro i t hi ht ht'
  have hfirst : 0 ≤ t := hstart.ge.trans ((k.x_le (Nat.zero_le i) (by omega)).trans ht)
  have hlast : t ≤ k.x k.last := ht'.trans (k.x_le (Nat.le_sub_one_of_lt hi) k.last_lt)
  refine ⟨(m.interpolant k).value t, hf.between hi ⟨ht, ht'⟩, fun allow => ⟨?_, ?_⟩⟩
  · rw [answerWith_of_mem (p := .value t) hc hstart hfirst hlast, saying, hc]
  · rw [answerWith_of_mem (p := .discount t) hc hstart hfirst hlast, saying_discount hkind, hc]

theorem declines_of_connects (hpos : ∀ i < k.xs.length, 0 < k.y i)
    (hy : ∀ i j, i ≤ j → j < k.xs.length → k.y j ≤ k.y i) : c.Declines (k.x k.last) where
  answers allow t ht ht' := answerWith_of_mem (p := .discount t) hc hstart ht ht' allow
  positive t ht ht' := by
    rw [saying_discount hkind, hc]
    exact hf.pos hpos (hstart.le.trans ht) ht'
  antitone := by
    have hantitone := hf.antitoneOn hy
    rw [hstart] at hantitone
    intro s hs t ht hst
    dsimp only
    rw [saying_discount hkind, saying_discount hkind, hc]
    exact hantitone hs ht hst

end

theorem declines_of_integral [PositiveExp α] (hc : c.interpolant = m.interpolant k) (hstart : k.x 0 = 0)
    (hkind : c.frame.kind = .hazardRate)
    (hintegral : MonotoneOn ((m.interpolant k).integral 0) (Set.Icc 0 (k.x k.last))) : c.Declines (k.x k.last) := by
  have hsaying (t : α) : c.saying (.discount t) = Scalar.exp (-(m.interpolant k).integral 0 t) := by
    unfold saying
    rw [hkind, hc]
  refine ⟨fun allow t ht ht' => answerWith_of_mem (p := .discount t) hc hstart ht ht' allow, fun t _ _ => ?_, ?_⟩
  · rw [hsaying]
    exact PositiveExp.exp_positive _
  · intro s hs t ht hst
    dsimp only
    rw [hsaying, hsaying]
    exact LawfulExp.exp_strictMono.monotone (neg_le_neg (hintegral hs ht hst))

end NodeCurve

namespace AreNodes

variable [PositiveExp α]

/-- Over positive values a curve of a local method stays between them, and declines if they do not rise. -/
theorem shape_of_values (h : AreNodes times values) (hm : m.isLocal = true) (hpos : ∀ y ∈ values, 0 < y) {frame : Frame}
    (hkind : frame.kind.isProbabilityLike = true) (extrapolates : Bool) :
    ∃ f, m.build times values = .ok f ∧ (NodeCurve.mk frame f extrapolates).StaysBetween times values ∧
      (values.Pairwise (· ≥ ·) → (NodeCurve.mk frame f extrapolates).Declines (times.getLastD 0)) := by
  obtain ⟨k, hbuild, rfl, rfl, hstart, hend⟩ := h.exists_build m fun _ => hpos
  have hpositive : ∀ i < k.xs.length, 0 < k.y i := fun i hi => Knots.y_pos hpos hi
  have hconnects := Method.connects hm fun _ => hpositive
  refine ⟨_, hbuild, NodeCurve.staysBetween_of_connects rfl hstart hconnects hkind, fun hfalls => ?_⟩
  rw [← hend]
  refine NodeCurve.declines_of_connects rfl hstart hconnects hkind hpositive fun i j hij hj => ?_
  rcases Nat.eq_or_lt_of_le hij with rfl | hij
  · exact le_rfl
  · have hj' : j < k.ys.length := k.length_eq ▸ hj
    rw [Knots.y, Knots.y, List.getD_eq_getElem _ _ hj', List.getD_eq_getElem _ _ (hij.trans hj')]
    exact List.pairwise_iff_getElem.mp hfalls i j _ _ hij

/-- Over hazard rates that are not negative a linear or backward-flat curve starts at one and declines. -/
theorem shape_of_rates (h : AreNodes times values) (hm : m = .linear ∨ m = .backwardFlat) (hy : ∀ y ∈ values, 0 ≤ y)
    {frame : Frame} (hkind : frame.kind = .hazardRate) (extrapolates : Bool) :
    ∃ f, m.build times values = .ok f ∧
      (∀ allow, (NodeCurve.mk frame f extrapolates).answerWith allow (.discount 0) = .ok 1) ∧
      (NodeCurve.mk frame f extrapolates).Declines (times.getLastD 0) := by
  obtain ⟨k, hbuild, rfl, rfl, hstart, hend⟩ := h.exists_build m fun hlog => by rcases hm with rfl | rfl <;> cases hlog
  have hrates : ∀ i < k.xs.length, 0 ≤ k.y i := fun i hi => by
    rw [Knots.y, List.getD_eq_getElem _ _ (k.length_eq ▸ hi)]
    exact hy _ (List.getElem_mem _)
  have hnonneg : 0 ≤ k.x k.last := hstart.ge.trans (k.x_le (Nat.zero_le _) k.last_lt)
  have hintegral : MonotoneOn ((m.interpolant k).integral 0) (Set.Icc 0 (k.x k.last)) ∧
      (m.interpolant k).integral 0 0 = 0 := by
    rcases hm with rfl | rfl
    · exact ⟨Linear.integral_monotoneOn hrates hstart, Linear.integral_self k 0⟩
    · exact ⟨(BackwardFlat.integral_monotoneOn hrates).mono Set.Icc_subset_Ici_self, BackwardFlat.integral_self k 0⟩
  refine ⟨_, hbuild, fun allow => ?_, ?_⟩
  · rw [NodeCurve.answerWith_of_mem (p := .discount 0) rfl hstart le_rfl hnonneg, NodeCurve.saying]
    dsimp only
    rw [hkind]
    dsimp only
    rw [hintegral.2, neg_zero, LawfulExp.exp_zero]
  · rw [← hend]
    exact NodeCurve.declines_of_integral rfl hstart hkind hintegral.1

end AreNodes

end TermStructure
