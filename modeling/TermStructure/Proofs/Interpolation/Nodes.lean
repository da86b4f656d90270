import TermStructure.Proofs.Interpolation.LastNode

/-!
# Through the nodes

Every method of the library passes through its nodes. The segment that answers at a node starts there, and the last
one, which answers at the last node, ends there.
-/

namespace TermStructure

variable {α : Type} [ScalarField α] {xs ys : List α} {k : Knots α} {i : Nat}

/-- A node is answered for by the segment after it, the last node by the segment before it. -/
theorem Knots.segment_at_node (hi : i < k.xs.length) :
    k.segment (k.x i) = i ∨ k.segment (k.x i) + 1 = i ∧ i = k.last := by
  obtain ⟨hlt, hleft, hright⟩ := k.segment_spec (k.x i)
  generalize k.segment (k.x i) = s at *
  have hsi : s ≤ i := by
    rcases hleft with hzero | hleft
    · omega
    · by_contra hlater
      exact absurd (k.x_lt (not_le.mp hlater) (by omega)) (not_lt.mpr hleft)
  -- Only the last segment answers beyond its own end, so only there can the node be one further.
  rcases hright with hlast | hright
  · unfold last
    omega
  · have his : i < s + 1 := by
      by_contra hlater
      exact absurd (k.x_le (not_lt.mp hlater) hi) (not_le.mpr hright)
    omega

theorem Knots.line_at_node (hi : i < k.xs.length) (z : Nat → α) : line k.x z (k.segment (k.x i)) (k.x i) = z i := by
  rcases segment_at_node hi with hs | ⟨hs, -⟩
  · rw [hs, line_left]
  · have hwidth := k.width_pos (k.x i)
    have hright := line_right (sub_pos.mp hwidth) z
    rwa [hs] at hright

theorem BackwardFlat.nodeFor_at_node (hi : i < k.xs.length) : nodeFor k (k.x i) = i := by
  have hfound : k.xs.findIdx (fun node => !decide (node < k.x i)) = i := by
    rw [List.findIdx_eq hi]
    refine ⟨?_, fun j hj => ?_⟩
    · rw [Knots.x, List.getD_eq_getElem _ _ hi]
      simp
    · have hlt := k.x_lt hj hi
      rw [Knots.x, List.getD_eq_getElem _ _ (hj.trans hi)] at hlt
      simpa using hlt
  unfold nodeFor Knots.last
  rw [hfound]
  omega

theorem Linear.value_at_node (hi : i < k.xs.length) : value k (k.x i) = k.y i := Knots.line_at_node hi k.y

theorem LogLinear.value_at_node [LawfulInverse α] (hpos : 0 < k.y i) (hi : i < k.xs.length) :
    value k (k.x i) = k.y i := by
  have hline : value k (k.x i) = Scalar.exp (logValue k i) := congrArg Scalar.exp (Knots.line_at_node hi _)
  rw [hline]
  exact LawfulInverse.exp_ln hpos

theorem BackwardFlat.value_at_node (hi : i < k.xs.length) : value k (k.x i) = k.y i := by
  unfold value
  rw [nodeFor_at_node hi]

/-- At a node one share is one and the other is zero, and nothing is left of the curvature. -/
theorem CubicSpline.value_at_node (m : List α) (hi : i < k.xs.length) : value k m (k.x i) = k.y i := by
  have hwidth := (k.width_pos (k.x i)).ne'
  unfold value leftShare rightShare Knots.width
  dsimp only
  rcases Knots.segment_at_node hi with hs | ⟨hs, -⟩
  · rw [hs] at hwidth ⊢
    rw [div_self hwidth, sub_self, zero_div]
    ring
  · rw [hs] at hwidth ⊢
    rw [div_self hwidth, sub_self, zero_div]
    ring

theorem LogLinear.pos_of_firstNonPositive? (h : firstNonPositive? ys = none) : ∀ y ∈ ys, 0 < y := by
  intro y hy
  unfold firstNonPositive? at h
  split at h
  · cases h
  · rename_i hnone
    have hnot := List.findIdx?_eq_none_iff.mp hnone y hy
    exact not_le.mp (of_decide_eq_false hnot)

/-- The interpolant of a method over knots. -/
def Method.interpolant : Method → Knots α → Interpolant α
  | linear => Linear.interpolant
  | logLinear => LogLinear.interpolant
  | backwardFlat => BackwardFlat.interpolant
  | cubicSpline => CubicSpline.interpolant

/-- An interpolant that was built is that of its method, over positive values if these have a logarithm taken. -/
theorem Method.exists_knots {m : Method} {f : Interpolant α} (h : m.build xs ys = .ok f) :
    ∃ k : Knots α, k.xs = xs ∧ k.ys = ys ∧ f = m.interpolant k ∧ (m = .logLinear → ∀ y ∈ ys, 0 < y) := by
  have hpositive : m = .logLinear → LogLinear.firstNonPositive? ys = none := by
    rintro rfl
    exact LogLinear.positive_of_build h
  have hmap : (Knots.make xs ys).map m.interpolant = .ok f := by
    cases m with
    | linear => exact Linear.build_eq.symm.trans h
    | logLinear => exact (LogLinear.build_of_positive (hpositive rfl)).symm.trans h
    | backwardFlat => exact BackwardFlat.build_eq.symm.trans h
    | cubicSpline => exact CubicSpline.build_eq.symm.trans h
  obtain ⟨k, hk, hf⟩ := Knots.make_of_map hmap
  obtain ⟨hxs, hys⟩ := Knots.make_ok hk
  exact ⟨k, hxs, hys, hf, fun hm => LogLinear.pos_of_firstNonPositive? (hpositive hm)⟩

theorem Knots.y_pos (hpos : ∀ y ∈ k.ys, 0 < y) (hi : i < k.xs.length) : 0 < k.y i := getD_pos hpos (k.length_eq ▸ hi)

/-- An interpolant of the library has at each node the value there. -/
theorem Method.value_at_node [LawfulInverse α] {m : Method} {f : Interpolant α} (h : m.build xs ys = .ok f)
    (hi : i < xs.length) : f.value (xs.getD i 0) = ys.getD i 0 := by
  obtain ⟨k, rfl, rfl, rfl, hpositive⟩ := exists_knots h
  cases m with
  | linear => exact Linear.value_at_node hi
  | logLinear => exact LogLinear.value_at_node (Knots.y_pos (hpositive rfl) hi) hi
  | backwardFlat => exact BackwardFlat.value_at_node hi
  | cubicSpline => exact CubicSpline.value_at_node _ hi

theorem Knots.x_last (k : Knots α) : k.x k.last = k.xs.getLastD 0 := by
  rw [x, last, List.getLastD_eq_getLast?, List.getLast?_eq_getElem?, List.getD_eq_getElem?_getD]

/-- No node is outside of the nodes. -/
theorem Method.node_within {m : Method} {f : Interpolant α} (h : m.build xs ys = .ok f) (hi : i < xs.length) :
    xs.getD 0 0 ≤ xs.getD i 0 ∧ xs.getD i 0 ≤ xs.getLastD 0 := by
  obtain ⟨k, rfl, -, -, -⟩ := exists_knots h
  rw [← k.x_last]
  exact ⟨k.x_le (Nat.zero_le i) hi, k.x_le (Nat.le_sub_one_of_lt hi) k.last_lt⟩

end TermStructure
