import Mathlib.Order.Interval.Set.UnorderedInterval
import TermStructure.Proofs.Interpolation.Nodes

/-!
# Between neighbouring nodes

From one node to the next the local methods rise or fall, and do not turn. So a value between two nodes lies between
the values there, and over nodes whose values do not rise the whole curve does not rise, whichever segments answer for
two times.
-/

namespace TermStructure

variable {α : Type} [ScalarField α] {k : Knots α} {i : Nat} {s t : α}

namespace Knots

/-! ### Segments -/

/-- The times from a node to the next one. -/
def span (k : Knots α) (i : Nat) : Set α := Set.Icc (k.x i) (k.x (i + 1))

theorem mem_span_segment (h : k.x 0 ≤ t) (ht : t ≤ k.x k.last) : t ∈ k.span (k.segment t) := by
  refine ⟨segment_left h, ?_⟩
  rcases lt_or_eq_of_le ht with hlt | rfl
  · exact (segment_right hlt).le
  · rw [k.segment_last]

/-- A function goes through the nodes and does not turn from one to the next. -/
structure Connects (k : Knots α) (f : α → α) : Prop where
  node : ∀ i < k.xs.length, f (k.x i) = k.y i
  rises : ∀ i, i + 1 < k.xs.length → k.y i ≤ k.y (i + 1) → MonotoneOn f (k.span i)
  falls : ∀ i, i + 1 < k.xs.length → k.y (i + 1) ≤ k.y i → AntitoneOn f (k.span i)

namespace Connects

variable {f : α → α} (h : k.Connects f)
include h

theorem between (hi : i + 1 < k.xs.length) (ht : t ∈ k.span i) : f t ∈ Set.uIcc (k.y i) (k.y (i + 1)) := by
  have hwidth := (k.x_lt (Nat.lt_succ_self i) hi).le
  have hleft : k.x i ∈ k.span i := ⟨le_rfl, hwidth⟩
  have hright : k.x (i + 1) ∈ k.span i := ⟨hwidth, le_rfl⟩
  rw [← h.node i (by omega), ← h.node (i + 1) hi]
  rcases le_total (k.y i) (k.y (i + 1)) with hy | hy
  · have hrises := h.rises i hi hy
    exact Set.mem_uIcc_of_le (hrises hleft ht ht.1) (hrises ht hright ht.2)
  · have hfalls := h.falls i hi hy
    exact Set.mem_uIcc_of_ge (hfalls ht hright ht.2) (hfalls hleft ht ht.1)

theorem le_of_le {b : α} (hy : ∀ i < k.xs.length, b ≤ k.y i) (ht : k.x 0 ≤ t) (ht' : t ≤ k.x k.last) : b ≤ f t := by
  obtain ⟨hi, -, -⟩ := k.segment_spec t
  have hbetween := h.between hi (mem_span_segment ht ht')
  exact (le_min (hy _ (by omega)) (hy _ hi)).trans hbetween.1

theorem pos (hy : ∀ i < k.xs.length, 0 < k.y i) (ht : k.x 0 ≤ t) (ht' : t ≤ k.x k.last) : 0 < f t := by
  obtain ⟨hi, -, -⟩ := k.segment_spec t
  have hbetween := h.between hi (mem_span_segment ht ht')
  exact (lt_min (hy _ (by omega)) (hy _ hi)).trans_le hbetween.1

/-- If the values do not rise from node to node, the function does not rise. -/
theorem antitoneOn (hy : ∀ i j, i ≤ j → j < k.xs.length → k.y j ≤ k.y i) :
    AntitoneOn f (Set.Icc (k.x 0) (k.x k.last)) := by
  rintro s ⟨hs, hs'⟩ t ⟨ht, ht'⟩ hst
  have hspan := mem_span_segment hs hs'
  have hspan' := mem_span_segment ht ht'
  obtain ⟨hi, -, -⟩ := k.segment_spec s
  obtain ⟨hj, -, -⟩ := k.segment_spec t
  generalize k.segment s = i at *
  generalize k.segment t = j at *
  rcases Nat.lt_trichotomy i j with hij | rfl | hij
  · -- The node that ends the segment of the earlier time comes between the two.
    have hearlier := (h.between hi hspan).1
    have hlater := (h.between hj hspan').2
    rw [min_eq_right (hy i (i + 1) (by omega) hi)] at hearlier
    rw [max_eq_left (hy j (j + 1) (by omega) hj)] at hlater
    exact hlater.trans ((hy (i + 1) j hij (by omega)).trans hearlier)
  · exact h.falls i hi (hy i (i + 1) (by omega) hi) hspan hspan' hst
  · -- A later time in an earlier segment: both are the node between the two.
    have hnode : k.x (j + 1) ≤ k.x i := k.x_le hij (by omega)
    have hts : t = s := le_antisymm (hspan'.2.trans (hnode.trans hspan.1)) hst
    rw [hts]

end Connects

/-! ### Lines -/

section
variable {z : Nat → α}

theorem line_monotone (hi : i + 1 < k.xs.length) (hz : z i ≤ z (i + 1)) :
    MonotoneOn (fun t => line k.x z (k.segment t) t) (k.span i) := by
  intro s hs t ht hst
  have hslope : 0 ≤ (z (i + 1) - z i) / (k.x (i + 1) - k.x i) :=
    div_nonneg (sub_nonneg.mpr hz) (sub_nonneg.mpr (k.x_lt (Nat.lt_succ_self i) hi).le)
  dsimp only
  rw [line_of_encloses hi (.inr hs.1) (.inr hs.2), line_of_encloses hi (.inr ht.1) (.inr ht.2)]
  unfold line
  gcongr

theorem line_antitone (hi : i + 1 < k.xs.length) (hz : z (i + 1) ≤ z i) :
    AntitoneOn (fun t => line k.x z (k.segment t) t) (k.span i) := by
  intro s hs t ht hst
  have hslope : (z (i + 1) - z i) / (k.x (i + 1) - k.x i) ≤ 0 :=
    div_nonpos_of_nonpos_of_nonneg (sub_nonpos.mpr hz) (sub_nonneg.mpr (k.x_lt (Nat.lt_succ_self i) hi).le)
  dsimp only
  rw [line_of_encloses hi (.inr hs.1) (.inr hs.2), line_of_encloses hi (.inr ht.1) (.inr ht.2)]
  unfold line
  have hmore := mul_le_mul_of_nonpos_right (sub_le_sub_right hst (k.x i)) hslope
  linarith

end

end Knots

/-! ### The local methods -/

theorem Linear.connects (k : Knots α) : k.Connects (value k) where
  node _ hi := value_at_node hi
  rises _ hi hy := Knots.line_monotone hi hy
  falls _ hi hy := Knots.line_antitone hi hy

theorem ln_le_ln [PositiveExp α] {x y : α} (hx : 0 < x) (h : x ≤ y) : Scalar.ln x ≤ Scalar.ln y := by
  rw [← (LawfulExp.exp_strictMono (α := α)).le_iff_le, LawfulInverse.exp_ln hx, LawfulInverse.exp_ln (hx.trans_le h)]
  exact h

theorem LogLinear.connects [PositiveExp α] (hpos : ∀ i < k.xs.length, 0 < k.y i) : k.Connects (value k) where
  node i hi := value_at_node (hpos i hi) hi
  rises i hi hy :=
    LawfulExp.exp_strictMono.monotone.comp_monotoneOn (Knots.line_monotone hi (ln_le_ln (hpos i (by omega)) hy))
  falls i hi hy :=
    LawfulExp.exp_strictMono.monotone.comp_antitoneOn (Knots.line_antitone hi (ln_le_ln (hpos (i + 1) hi) hy))

/-- After a node and up to the next one the next one is the first that is not before. -/
theorem BackwardFlat.nodeFor_of_mem (hi : i + 1 < k.xs.length) (ht : k.x i < t) (ht' : t ≤ k.x (i + 1)) :
    nodeFor k t = i + 1 := by
  have hfound : k.xs.findIdx (fun node => !decide (node < t)) = i + 1 := by
    rw [List.findIdx_eq hi]
    refine ⟨?_, fun j hj => ?_⟩
    · rw [Knots.x, List.getD_eq_getElem _ _ hi] at ht'
      simpa using ht'
    · have hlt := (k.x_le (show j ≤ i by omega) (by omega)).trans_lt ht
      rw [Knots.x, List.getD_eq_getElem _ _ (by omega)] at hlt
      simpa using hlt
  unfold nodeFor Knots.last
  rw [hfound]
  omega

/-- From one node to the next nothing changes, except that the step is made right after the first of them. -/
theorem BackwardFlat.value_of_le (hi : i + 1 < k.xs.length) (hs : s ∈ k.span i) (ht : t ∈ k.span i) (hst : s ≤ t) :
    value k t = value k s ∨ value k s = k.y i ∧ value k t = k.y (i + 1) := by
  have hafter {r : α} (hr : r ∈ k.span i) (hne : k.x i ≠ r) : value k r = k.y (i + 1) := by
    unfold value
    rw [nodeFor_of_mem hi (lt_of_le_of_ne hr.1 hne) hr.2]
  -- The node itself still has its own value.
  by_cases hs' : k.x i = s
  · by_cases ht' : k.x i = t
    · rw [← hs', ← ht']
      exact .inl rfl
    · rw [← hs', hafter ht ht']
      exact .inr ⟨value_at_node (by omega), rfl⟩
  · have ht' : k.x i ≠ t := ((lt_of_le_of_ne hs.1 hs').trans_le hst).ne
    rw [hafter hs hs', hafter ht ht']
    exact .inl rfl

theorem BackwardFlat.connects (k : Knots α) : k.Connects (value k) where
  node _ hi := value_at_node hi
  rises i hi hy s hs t ht hst := by
    rcases value_of_le hi hs ht hst with heq | ⟨hs', ht'⟩
    · exact heq.ge
    · rwa [hs', ht']
  falls i hi hy s hs t ht hst := by
    rcases value_of_le hi hs ht hst with heq | ⟨hs', ht'⟩
    · exact heq.le
    · rwa [hs', ht']

/-- The local methods connect the values of neighbouring nodes, if these are positive where a logarithm is taken. -/
theorem Method.connects [PositiveExp α] {m : Method} (hm : m.isLocal = true)
    (hpos : m = .logLinear → ∀ i < k.xs.length, 0 < k.y i) : k.Connects (m.interpolant k).value := by
  cases m with
  | linear => exact Linear.connects k
  | logLinear => exact LogLinear.connects (hpos rfl)
  | backwardFlat => exact BackwardFlat.connects k
  | cubicSpline => cases hm

end TermStructure
