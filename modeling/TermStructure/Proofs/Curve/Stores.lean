import TermStructure.Curve.NodesText
import TermStructure.Proofs.Bootstrap.Stages
import TermStructure.Proofs.Decimal.Reading

/-!
# What a store holds

A store of nodes starts at time zero and has a value for each time, and its times increase. The anchor is such a
store. What is made of a solution is one too, unless a time is not a number: then nothing is later or earlier than
that time, and the check passes over it. A text is not checked at all, but there are only numbers in it, so what it
holds is such a store exactly if the check would have passed.
-/

namespace TermStructure

namespace NodeStore

/-! ### Nodes -/

section
variable {α : Type} {s : NodeStore α}

/-- There is a value for each time, and the first time is zero. -/
structure Anchored [Scalar α] (s : NodeStore α) : Prop where
  paired : s.times.length = s.values.length
  start : ∃ t later, s.times = t :: later ∧ (t == 0) = true

/-- Moreover each time is before the next one. -/
structure Ordered [Scalar α] (s : NodeStore α) : Prop extends s.Anchored where
  increasing : s.times.IsChain (· < ·)

theorem node?_eq (s : NodeStore α) (i : Nat) : s.node? i = s.nodes[i]? := by
  unfold node? nodes
  rw [List.getElem?_zipWith]
  cases s.times[i]? <;> cases s.values[i]? <;> rfl

theorem nodes_map_time (h : s.times.length = s.values.length) : s.nodes.map (·.time) = s.times := by
  have hfst : List.zipWith (fun t _ => t) s.times s.values = (s.times.zip s.values).map Prod.fst := by
    rw [List.map_zip_eq_zipWith]
    rfl
  unfold nodes
  rw [List.map_zipWith, hfst, List.map_fst_zip h.le]

theorem nodes_map_value (h : s.times.length = s.values.length) : s.nodes.map (·.value) = s.values := by
  have hsnd : List.zipWith (fun _ v => v) s.times s.values = (s.times.zip s.values).map Prod.snd := by
    rw [List.map_zip_eq_zipWith]
    rfl
  unfold nodes
  rw [List.map_zipWith, hsnd, List.map_snd_zip h.ge]

theorem isSome_node?_iff (h : s.times.length = s.values.length) (i : Nat) : (s.node? i).isSome = true ↔ i < s.size := by
  have hlength : s.nodes.length = s.size := by
    unfold nodes size
    rw [List.length_zipWith, ← h, min_self]
  rw [node?_eq, ← hlength, isSome_getElem?]

theorem Anchored.isEmpty_eq [Scalar α] (h : s.Anchored) : s.isEmpty = false := by
  obtain ⟨t, later, htimes, -⟩ := h.start
  unfold isEmpty
  rw [htimes]
  rfl

end

/-! ### The check -/

section
variable {α : Type} [Scalar α]

theorem firstRepeat?_eq_none_iff (ts : List α) : firstRepeat? ts = none ↔ ts.IsChain (fun t u => ¬u ≤ t) := by
  fun_induction firstRepeat? ts with
  | case1 t u rest h =>
    rw [List.isChain_cons_cons]
    exact ⟨nofun, fun hchain => absurd h hchain.1⟩
  | case2 t u rest h ih => rw [ih, List.isChain_cons_cons, and_iff_right h]
  | case3 ts hshort =>
    rcases ts with _ | ⟨t, _ | ⟨u, rest⟩⟩
    · simp
    · simp
    · exact absurd rfl (hshort t u rest)

/-- What the check of a solution asks for. -/
theorem ofSolution_eq_ok_iff {times values : List α} {s : NodeStore α} :
    ofSolution times values = .ok s ↔
      s = ⟨times, values⟩ ∧ s.Anchored ∧ s.times.IsChain (fun t u => ¬u ≤ t) := by
  constructor
  · intro h
    cases ofSolution_ok h
    unfold ofSolution at h
    split at h
    · cases h
    · rename_i hcounts
      push Not at hcounts
      split at h
      · cases h
      · rename_i hstart
        split at h
        · cases h
        · rename_i hrepeat
          obtain ⟨t, later, rfl⟩ := List.exists_cons_of_ne_nil hcounts.2
          have hzero : (t == 0) = true := by simpa [bne] using hstart
          exact ⟨rfl, ⟨hcounts.1, t, later, rfl, hzero⟩, (firstRepeat?_eq_none_iff _).mp hrepeat⟩
  · rintro ⟨rfl, ⟨hpaired, t, later, htimes, hzero⟩, hchain⟩
    dsimp only at hpaired htimes hchain
    unfold ofSolution
    subst htimes
    rw [if_neg (by simp [hpaired]), if_neg (by simp [bne, hzero]), (firstRepeat?_eq_none_iff _).mpr hchain]

theorem ordered_anchor [LawfulDifference α] (kind : CurveKind) : (anchor kind : NodeStore α).Ordered where
  paired := rfl
  start := ⟨0, [], rfl, LawfulDifference.zero_beq⟩
  increasing := List.isChain_singleton 0

end

/-! ### Numbers and what is none -/

/-- A time that is not earlier than another is later if both are numbers, and only then. -/
theorem isChain_lt_iff {t : Float} {later : List Float} (ht : t.isNaN = false)
    (hchain : (t :: later).IsChain (fun t u => ¬u ≤ t)) :
    (t :: later).IsChain (· < ·) ↔ ∀ u ∈ later, u.isNaN = false := by
  induction later generalizing t with
  | nil => simp
  | cons u rest ih =>
    obtain ⟨hnot, hrest⟩ := List.isChain_cons_cons.mp hchain
    rw [List.isChain_cons_cons, List.forall_mem_cons]
    constructor
    · rintro ⟨hlt, hincreasing⟩
      have hu := (Binary64.isNaN_of_lt hlt).2
      exact ⟨hu, (ih hu hrest).mp hincreasing⟩
    · rintro ⟨hu, hnumbers⟩
      have hlt := Binary64.lt_of_not_le (Binary64.isNaN_eq_false_iff.mp hu) (Binary64.isNaN_eq_false_iff.mp ht) hnot
      exact ⟨hlt, (ih hu hrest).mpr hnumbers⟩

theorem isNaN_of_beq_zero {t : Float} (h : (t == 0) = true) : t.isNaN = false := by
  cases hn : t.isNaN with
  | false => rfl
  | true =>
    have hbeq : t.toModel.unpack.beq (0.0 : Float).toModel.unpack = true := h
    rw [Binary64.unpack_of_isNaN hn] at hbeq
    cases hbeq

/-- A store that passed the check is ordered unless a time is not a number. -/
theorem ordered_iff_of_ofSolution {times values : List Float} {s : NodeStore Float}
    (h : ofSolution times values = .ok s) : s.Ordered ↔ ∀ t ∈ s.times, t.isNaN = false := by
  obtain ⟨-, hanchored, hchain⟩ := ofSolution_eq_ok_iff.mp h
  obtain ⟨t, later, htimes, hzero⟩ := hanchored.start
  have ht := isNaN_of_beq_zero hzero
  -- All that the check may have missed is the order of the times.
  have hiff : s.Ordered ↔ s.times.IsChain (· < ·) := ⟨(·.increasing), fun hlt => ⟨hanchored, hlt⟩⟩
  rw [hiff, htimes, List.forall_mem_cons, and_iff_right ht]
  exact isChain_lt_iff ht (htimes ▸ hchain)

theorem ofSolution_of_ordered {s : NodeStore Float} (h : s.Ordered) : ofSolution s.times s.values = .ok s :=
  ofSolution_eq_ok_iff.mpr ⟨rfl, h.toAnchored, h.increasing.imp fun _ _ => Binary64.not_le_of_lt⟩

theorem isNaN_of_mem_readNumbers? {j : Json} {xs : List Float} (h : readNumbers? j = some xs) :
    ∀ x ∈ xs, x.isNaN = false := by
  obtain ⟨items, -, hxs⟩ := Option.bind_eq_some_iff.mp h
  clear h
  induction items generalizing xs with
  | nil =>
    cases hxs
    exact nofun
  | cons item rest ih =>
    rw [List.mapM_cons] at hxs
    obtain ⟨x, hx, hxs⟩ := Option.bind_eq_some_iff.mp hxs
    obtain ⟨xs', hxs', hxs⟩ := Option.bind_eq_some_iff.mp hxs
    cases hxs
    refine List.forall_mem_cons.mpr ⟨?_, ih hxs'⟩
    cases item <;> first | exact Decimal.Numeral.isNaN_quickFloat? hx | cases hx

theorem isNaN_of_mem_ofJson? {text : String} {s : NodeStore Float} (h : ofJson? text = some s) :
    ∀ t ∈ s.times, t.isNaN = false := by
  obtain ⟨j, -, h⟩ := Option.bind_eq_some_iff.mp h
  split at h
  · obtain ⟨times, -, h⟩ := Option.bind_eq_some_iff.mp h
    obtain ⟨ts, hts, h⟩ := Option.bind_eq_some_iff.mp h
    obtain ⟨values, -, h⟩ := Option.bind_eq_some_iff.mp h
    obtain ⟨vs, -, h⟩ := Option.bind_eq_some_iff.mp h
    cases h
    exact isNaN_of_mem_readNumbers? hts
  · obtain ⟨ts, hts, h⟩ := Option.bind_eq_some_iff.mp h
    obtain ⟨vs, -, h⟩ := Option.bind_eq_some_iff.mp h
    cases h
    exact isNaN_of_mem_readNumbers? hts
  · cases h

/-- What a text holds is ordered just when the check of a solution accepts it. -/
theorem ordered_iff_of_ofJson? {text : String} {s : NodeStore Float} (h : ofJson? text = some s) :
    s.Ordered ↔ ofSolution s.times s.values = .ok s :=
  ⟨ofSolution_of_ordered, fun hs => (ordered_iff_of_ofSolution hs).mpr (isNaN_of_mem_ofJson? h)⟩

end NodeStore

open NodeStore

/-- The anchor alone is ordered. A solution that is accepted starts at time zero with a value for each time, and it
    is ordered if all of its times are numbers, and not otherwise. What a text holds is ordered if the same check
    would accept it, and not otherwise. A store with a value for each time that starts at time zero is not empty, and
    its nodes are its times and its values, each of them once, at the places below its size. -/
theorem node_stores_ordered (kind : CurveKind) (times values : List Float) (text : String) (s : NodeStore Float) :
    (anchor kind : NodeStore Float).Ordered ∧
      (ofSolution times values = .ok s →
        s = ⟨times, values⟩ ∧ s.Anchored ∧ (s.Ordered ↔ ∀ t ∈ times, t.isNaN = false)) ∧
      (ofJson? text = some s → (s.Ordered ↔ ofSolution s.times s.values = .ok s)) ∧
      (s.Anchored →
        s.isEmpty = false ∧ 1 ≤ s.size ∧ s.nodes.map (·.time) = s.times ∧ s.nodes.map (·.value) = s.values ∧
          ∀ i, s.node? i = s.nodes[i]? ∧ ((s.node? i).isSome = true ↔ i < s.size)) := by
  refine ⟨ordered_anchor kind, fun h => ?_, ordered_iff_of_ofJson?, fun h => ?_⟩
  · obtain ⟨hs, hanchored, -⟩ := ofSolution_eq_ok_iff.mp h
    have htimes : s.times = times := congrArg NodeStore.times hs
    exact ⟨hs, hanchored, htimes ▸ ordered_iff_of_ofSolution h⟩
  · have hsize : 1 ≤ s.size := by
      obtain ⟨t, later, htimes, -⟩ := h.start
      unfold size
      rw [htimes]
      exact Nat.le_add_left 1 later.length
    exact ⟨h.isEmpty_eq, hsize, nodes_map_time h.paired, nodes_map_value h.paired,
      fun i => ⟨node?_eq s i, isSome_node?_iff h.paired i⟩⟩

/-- A solution is accepted whose second time is not a number, so that its times do not increase, and a text is
    accepted without a single node. A text with nodes in order holds an ordered store. -/
theorem node_stores_ordered_unchecked :
    (∃ s : NodeStore Float, ofSolution [0, 0 / 0, 1] [1, 1, 1] = .ok s ∧ s.isEmpty = false ∧ ¬s.Ordered) ∧
      (∃ s, ofJson? "\x7b\"times\":[],\"values\":[]\x7d" = some s ∧ ¬s.Ordered) ∧
      ∃ s, ofJson? "[[0,1],[1,0.5]]" = some s ∧ s.size = 2 ∧ s.Ordered := by
  refine ⟨?_, ?_, ?_⟩
  · obtain ⟨s, hs⟩ := ok_of_isSome (by decide +kernel :
      (ofSolution [0, 0 / 0, 1] [1, 1, 1] : Except (CurveError Float) _).toOption.isSome = true)
    obtain ⟨-, hsolution, -, hanchored⟩ := node_stores_ordered .discount [0, 0 / 0, 1] [1, 1, 1] "" s
    obtain ⟨-, hstart, hordered⟩ := hsolution hs
    refine ⟨s, hs, (hanchored hstart).1, fun h => ?_⟩
    have hnumber := hordered.mp h (0 / 0) (by simp)
    exact absurd hnumber (by decide +kernel)
  · have hbare : (ofJson? "\x7b\"times\":[],\"values\":[]\x7d").any (·.size == 0) = true := by decide +kernel
    obtain ⟨s, hs, hsize⟩ := (Option.any_eq_true _ _).mp hbare
    obtain ⟨-, -, -, hanchored⟩ := node_stores_ordered .discount [] [] "" s
    refine ⟨s, hs, fun h => ?_⟩
    have hpositive := (hanchored h.toAnchored).2.1
    rw [beq_iff_eq.mp hsize] at hpositive
    exact absurd hpositive (by decide)
  · have hpair : (ofJson? "[[0,1],[1,0.5]]").any (fun s =>
        s.size == 2 && (ofSolution s.times s.values).toOption.isSome) = true := by decide +kernel
    obtain ⟨s, hs, hboth⟩ := (Option.any_eq_true _ _).mp hpair
    obtain ⟨hsize, hcheck⟩ := Bool.and_eq_true_iff.mp hboth
    obtain ⟨s', hs'⟩ := ok_of_isSome hcheck
    obtain ⟨-, -, htext, -⟩ := node_stores_ordered .discount [] [] "[[0,1],[1,0.5]]" s
    refine ⟨s, hs, beq_iff_eq.mp hsize, (htext hs).mpr ?_⟩
    rw [hs', ofSolution_ok hs']

end TermStructure
