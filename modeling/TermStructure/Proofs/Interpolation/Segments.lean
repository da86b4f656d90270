import TermStructure.Proofs.Interpolation.Curvature

/-!
# Segments

The segment that answers for a point is the one that a search for the point among the nodes leads to, whichever way the
search goes about it. It is there for every point, so no interpolant looks for a node, a value or a second derivative
where there is none; and fewer nodes lead to the same segment, or to the last one that is left.
-/

namespace TermStructure

/-! ### What is looked up -/

section
variable {α : Type} [Scalar α]

/-- Whatever an interpolant looks up to answer at a point is there. -/
structure Knots.Serves (k : Knots α) (x : α) : Prop where
  nodes : k.segment x + 1 < k.xs.length
  values : k.segment x + 1 < k.ys.length
  curvatures : k.segment x + 1 < (CubicSpline.curvatures k).length
  nodeFor : BackwardFlat.nodeFor k x < k.ys.length
  nodeAfter : BackwardFlat.nodeAfter k x < k.ys.length

theorem CubicSpline.length_curvatures (k : Knots α) : (curvatures k).length = k.xs.length := by
  have htwo := k.two_le
  have hlength := k.length_eq
  unfold curvatures
  rw [length_backSubstitute, List.length_cons, sweep_eq_map, List.length_map, length_eliminations, List.length_zip]
  omega

/-- The segment is cut to the last one, so it is there however the point compares with the nodes. -/
theorem Knots.serves (k : Knots α) (x : α) : k.Serves x := by
  have htwo := k.two_le
  have hsegment : k.segment x + 1 < k.xs.length := by
    unfold segment segmentIndex
    omega
  have hlast (i : Nat) : min i k.last < k.ys.length := by
    rw [← k.length_eq, last]
    omega
  refine ⟨hsegment, k.length_eq ▸ hsegment, ?_, hlast _, hlast _⟩
  rw [CubicSpline.length_curvatures]
  exact hsegment

end

/-! ### Searching -/

variable {α : Type} [ScalarField α] {xs : List α} {x : α}

/-- How a search for `x` can end: with the number of a node that is `x`, or else with the place that `x` would have
    among the nodes. -/
inductive SearchEnds (xs : List α) (x : α) : Except Nat Nat → Prop where
  | found {i : Nat} (node : xs[i]? = some x) : SearchEnds xs x (.ok i)
  | absent {i : Nat} (within : i ≤ xs.length) (before : ∀ node ∈ xs.take i, node < x)
      (after : ∀ node ∈ xs.drop i, x < node) : SearchEnds xs x (.error i)

/-- The segment to the right of a node that is found, or around a place between nodes; of `count` segments the first and
    the last one also stand for those that there are not. -/
def segmentAfter (count : Nat) : Except Nat Nat → Nat
  | .ok i => min i (count - 1)
  | .error i => min (i - 1) (count - 1)

/-- The first node after `x` is at the place that parts the nodes up to `x` from those after it. -/
theorem findIdx_of_parted {i : Nat} (hi : i ≤ xs.length) (before : ∀ node ∈ xs.take i, node ≤ x)
    (after : ∀ node ∈ xs.drop i, x < node) : xs.findIdx (fun node => decide (x < node)) = i := by
  have hbefore : (xs.take i).findIdx (fun node => decide (x < node)) = (xs.take i).length :=
    List.findIdx_eq_length_of_false fun node hnode => decide_eq_false (not_lt.mpr (before node hnode))
  have hafter : (xs.drop i).findIdx (fun node => decide (x < node)) = 0 := by
    cases hdrop : xs.drop i with
    | nil => rfl
    | cons node rest =>
      have hlt : x < node := after node (hdrop ▸ List.mem_cons_self)
      rw [List.findIdx_cons, decide_eq_true hlt, cond_true]
  conv_lhs => rw [← List.take_append_drop i xs]
  rw [List.findIdx_append, hbefore, if_neg (Nat.lt_irrefl _), hafter, List.length_take]
  omega

theorem lt_of_mem_take (increasing : xs.Pairwise (· < ·)) {i : Nat} {node : α} (hi : xs[i]? = some x)
    (hnode : node ∈ xs.take i) : node < x := by
  obtain ⟨hlt, rfl⟩ := List.getElem?_eq_some_iff.mp hi
  obtain ⟨j, hj, rfl⟩ := List.mem_take_iff_getElem.mp hnode
  exact List.pairwise_iff_getElem.mp increasing j i _ hlt (by omega)

theorem lt_of_mem_drop (increasing : xs.Pairwise (· < ·)) {i : Nat} {node : α} (hi : xs[i]? = some x)
    (hnode : node ∈ xs.drop (i + 1)) : x < node := by
  obtain ⟨hlt, rfl⟩ := List.getElem?_eq_some_iff.mp hi
  obtain ⟨j, hj, rfl⟩ := List.mem_drop_iff_getElem.mp hnode
  exact List.pairwise_iff_getElem.mp increasing i (i + 1 + j) hlt (by omega) (by omega)

/-- However a search ends, it leads to the segment that answers. -/
theorem segmentIndex_of_searchEnds (increasing : xs.Pairwise (· < ·)) {r : Except Nat Nat} (h : SearchEnds xs x r) :
    segmentIndex xs x = segmentAfter (xs.length - 1) r := by
  cases h with
  | @found i node =>
    have hi : i < xs.length := (List.getElem?_eq_some_iff.mp node).1
    have hfind : xs.findIdx (fun node => decide (x < node)) = i + 1 := by
      refine findIdx_of_parted hi (fun other hother => ?_) fun other => lt_of_mem_drop increasing node
      rw [List.take_add_one, node, Option.toList_some, List.mem_append, List.mem_singleton] at hother
      rcases hother with hother | rfl
      · exact (lt_of_mem_take increasing node hother).le
      · exact le_rfl
    rw [segmentIndex, hfind]
    rfl
  | @absent i within before after =>
    rw [segmentIndex, findIdx_of_parted within (fun node hnode => (before node hnode).le) after]
    rfl

/-- A search can end, for whatever it is. -/
theorem exists_searchEnds (increasing : xs.Pairwise (· < ·)) (x : α) : ∃ r, SearchEnds xs x r := by
  by_cases hmem : x ∈ xs
  · obtain ⟨i, hi⟩ := List.mem_iff_getElem?.mp hmem
    exact ⟨.ok i, .found hi⟩
  · refine ⟨.error (xs.findIdx fun node => decide (x < node)), .absent List.findIdx_le_length ?_ ?_⟩
    · intro node hnode
      obtain ⟨j, hj, rfl⟩ := List.mem_take_iff_getElem.mp hnode
      have hearlier : j < xs.findIdx fun node => decide (x < node) := by omega
      have hnot : decide (x < xs[j]) = false := List.not_of_lt_findIdx hearlier
      refine lt_of_le_of_ne (not_lt.mp (of_decide_eq_false hnot)) ?_
      intro heq
      exact hmem (heq ▸ List.getElem_mem _)
    · intro node hnode
      obtain ⟨j, hj, rfl⟩ := List.mem_drop_iff_getElem.mp hnode
      have hwithin : (xs.findIdx fun node => decide (x < node)) < xs.length := by omega
      have hfirst : x < xs[xs.findIdx fun node => decide (x < node)] :=
        of_decide_eq_true (List.findIdx_getElem (w := hwithin))
      rcases Nat.eq_zero_or_pos j with rfl | hpos
      · exact hfirst
      · exact hfirst.trans (List.pairwise_iff_getElem.mp increasing _ _ (by omega) (by omega) (by omega))

/-- Fewer nodes lead to the same segment, or to the last one that is left. -/
theorem segmentIndex_take {m : Nat} (hm : m ≤ xs.length) :
    segmentIndex (xs.take m) x = min (segmentIndex xs x) (m - 2) := by
  unfold segmentIndex
  rw [List.findIdx_take, List.length_take]
  omega

/-- Nodes that increase, two at least, have a segment for every point. It is the one to which every search for the point
    leads, and there is such a search; it starts no later than the point unless it is the first, and ends later unless it
    is the last; for a node it is the one to its right, and for the last node the one to its left. Among the first nodes
    alone it is the same, or the last one there. And whatever is interpolated in whatever arithmetic, what is looked up
    for a point is there. -/
theorem segment_search {β : Type} [Scalar β] :
    (∀ (k : Knots β) (x : β), k.Serves x) ∧
    ∀ xs : List α, 2 ≤ xs.length → isIncreasing xs = true → ∀ x : α,
      ((∃ r, SearchEnds xs x r) ∧ ∀ r, SearchEnds xs x r → segmentIndex xs x = segmentAfter (xs.length - 1) r) ∧
      (∃ h : segmentIndex xs x + 1 < xs.length,
        (segmentIndex xs x = 0 ∨ xs[segmentIndex xs x] ≤ x) ∧
        (segmentIndex xs x + 2 = xs.length ∨ x < xs[segmentIndex xs x + 1])) ∧
      (∀ i, i + 1 < xs.length → xs[i]? = some x → segmentIndex xs x = i) ∧
      (xs.getLast? = some x → segmentIndex xs x + 2 = xs.length) ∧
      ∀ m, 2 ≤ m → m ≤ xs.length → segmentIndex (xs.take m) x = min (segmentIndex xs x) (m - 2) := by
  refine ⟨Knots.serves, fun xs two_le hinc x => ?_⟩
  have increasing : xs.Pairwise (· < ·) := isIncreasing_iff.mp hinc
  have hends {r : Except Nat Nat} (h : SearchEnds xs x r) : segmentIndex xs x = segmentAfter (xs.length - 1) r :=
    segmentIndex_of_searchEnds increasing h
  refine ⟨⟨exists_searchEnds increasing x, fun _ => hends⟩, ?_, fun i hi hnode => ?_, fun hlast => ?_,
    fun m _ hm => segmentIndex_take hm⟩
  · obtain ⟨hlt, hleft, hright⟩ := segmentIndex_spec two_le increasing x
    rw [List.getD_eq_getElem _ _ (by omega)] at hleft
    rw [List.getD_eq_getElem _ _ hlt] at hright
    exact ⟨hlt, hleft, hright⟩
  · rw [hends (.found hnode), segmentAfter]
    omega
  · rw [List.getLast?_eq_getElem?] at hlast
    rw [hends (.found hlast), segmentAfter]
    omega

/-- The searches of the segments between four nodes: at the nodes, between them and on both sides. -/
theorem segment_search_four :
    segmentIndex [(0 : ℚ), 1, 2, 3] 2 = 2 ∧ segmentIndex [(0 : ℚ), 1, 2, 3] 3 + 2 = 4 ∧
      segmentIndex [(0 : ℚ), 1, 2, 3] (-1) = 0 ∧ segmentIndex [(0 : ℚ), 1, 2] (5 / 2) = 1 := by
  have hfour : isIncreasing [(0 : ℚ), 1, 2, 3] = true := by decide +kernel
  obtain ⟨-, hsearch⟩ := segment_search (α := ℚ) (β := ℚ)
  obtain ⟨-, -, hnode, -, -⟩ := hsearch [0, 1, 2, 3] (by decide) hfour 2
  obtain ⟨-, -, -, hlast, -⟩ := hsearch [0, 1, 2, 3] (by decide) hfour 3
  obtain ⟨⟨-, hleads⟩, -⟩ := hsearch [0, 1, 2, 3] (by decide) hfour (-1)
  obtain ⟨⟨-, hbetween⟩, -, -, -, hprefix⟩ := hsearch [0, 1, 2, 3] (by decide) hfour (5 / 2)
  have hbefore : SearchEnds [(0 : ℚ), 1, 2, 3] (-1) (.error 0) :=
    .absent (by decide) (by simp) (by simp; norm_num)
  have hplace : SearchEnds [(0 : ℚ), 1, 2, 3] (5 / 2) (.error 3) :=
    .absent (by decide) (by simp; norm_num) (by simp; norm_num)
  refine ⟨hnode 2 (by decide) rfl, hlast rfl, hleads _ hbefore, ?_⟩
  rw [show [(0 : ℚ), 1, 2] = [0, 1, 2, 3].take 3 from rfl, hprefix 3 (by decide) (by decide), hbetween _ hplace]
  rfl

end TermStructure
