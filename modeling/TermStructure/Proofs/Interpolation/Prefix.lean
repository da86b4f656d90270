import Mathlib.Data.List.GetD
import Mathlib.Data.List.TakeDrop
import TermStructure.Proofs.Interpolation.Building
import TermStructure.Curve.NodeCurve

/-!
# Local schemes

A scheme is local if more nodes behind a node do not change what the curve is up to that node. At the
node itself the shorter curve answers from the segment before it and the longer one from the segment
after it, and both answers are the value at the node.
-/

namespace TermStructure

variable {α : Type} [ScalarField α]

/-- Among nodes that increase, the segment that answers starts no later, and ends later unless it is the last. -/
theorem segmentIndex_spec {xs : List α} (two_le : 2 ≤ xs.length) (increasing : xs.Pairwise (· < ·)) (t : α) :
    segmentIndex xs t + 1 < xs.length ∧ (segmentIndex xs t = 0 ∨ xs.getD (segmentIndex xs t) 0 ≤ t) ∧
      (segmentIndex xs t + 2 = xs.length ∨ t < xs.getD (segmentIndex xs t + 1) 0) := by
  unfold segmentIndex
  generalize hj : xs.findIdx (fun node => decide (t < node)) = j
  refine ⟨by omega, ?_, ?_⟩
  · by_cases hi : min (j - 1) (xs.length - 2) = 0
    · exact .inl hi
    · have hlt : min (j - 1) (xs.length - 2) < xs.findIdx fun node => decide (t < node) := by omega
      have hnot := List.not_of_lt_findIdx hlt
      right
      rw [List.getD_eq_getElem _ _ (by omega)]
      exact not_lt.mp (by simpa using hnot)
  · by_cases hi : min (j - 1) (xs.length - 2) + 2 = xs.length
    · exact .inl hi
    · right
      have hlt : xs.findIdx (fun node => decide (t < node)) < xs.length := by omega
      have hfound : t < xs.getD j 0 := by
        subst hj
        rw [List.getD_eq_getElem _ _ hlt]
        simpa using List.findIdx_getElem (w := hlt)
      have hle : j ≤ min (j - 1) (xs.length - 2) + 1 := by omega
      rcases Nat.eq_or_lt_of_le hle with heq | hle
      · rwa [← heq]
      · rw [List.getD_eq_getElem _ _ (by omega)] at hfound ⊢
        exact hfound.trans (List.pairwise_iff_getElem.mp increasing j _ _ _ hle)

namespace Knots

/-- In exact arithmetic every number is finite, so nodes need only be paired and increase. -/
theorem make_of_pairwise [ExactScalar α] {xs ys : List α} (two_le : 2 ≤ xs.length) (length_eq : xs.length = ys.length)
    (increasing : xs.Pairwise (· < ·)) : ∃ k, make xs ys = .ok k ∧ k.xs = xs ∧ k.ys = ys :=
  make_of_finite two_le length_eq increasing fun x _ => ExactScalar.isFinite_eq x

variable {k short long : Knots α} {n : Nat} {t : α}

theorem x_lt {i j : Nat} (k : Knots α) (hij : i < j) (hj : j < k.xs.length) : k.x i < k.x j := by
  unfold x
  rw [List.getD_eq_getElem _ _ (Nat.lt_trans hij hj), List.getD_eq_getElem _ _ hj]
  exact List.pairwise_iff_getElem.mp (isIncreasing_iff.mp k.increasing) i j _ hj hij

theorem x_le {i j : Nat} (k : Knots α) (hij : i ≤ j) (hj : j < k.xs.length) : k.x i ≤ k.x j := by
  rcases Nat.eq_or_lt_of_le hij with rfl | hij
  · exact le_refl _
  · exact (k.x_lt hij hj).le

/-- The segment that answers starts no later, and ends later unless it is the last. -/
theorem segment_spec (k : Knots α) (t : α) :
    k.segment t + 1 < k.xs.length ∧ (k.segment t = 0 ∨ k.x (k.segment t) ≤ t) ∧
      (k.segment t + 2 = k.xs.length ∨ t < k.x (k.segment t + 1)) :=
  segmentIndex_spec k.two_le (isIncreasing_iff.mp k.increasing) t

/-- The knots up to node `n`. -/
structure IsPrefix (short long : Knots α) (n : Nat) : Prop where
  xs : short.xs = long.xs.take (n + 1)
  ys : short.ys = long.ys.take (n + 1)
  pos : 1 ≤ n
  lt : n < long.xs.length

namespace IsPrefix

theorem length (h : IsPrefix short long n) : short.xs.length = n + 1 := by
  have := h.lt
  rw [h.xs, List.length_take]
  omega

theorem x (h : IsPrefix short long n) {i : Nat} (hi : i ≤ n) : short.x i = long.x i := by
  rw [Knots.x, Knots.x, h.xs, List.getD_eq_getElem?_getD, List.getElem?_take_of_lt (by omega),
    ← List.getD_eq_getElem?_getD]

theorem y (h : IsPrefix short long n) {i : Nat} (hi : i ≤ n) : short.y i = long.y i := by
  rw [Knots.y, Knots.y, h.ys, List.getD_eq_getElem?_getD, List.getElem?_take_of_lt (by omega),
    ← List.getD_eq_getElem?_getD]

end IsPrefix

/-! ### Values -/

/-- The line through the values at nodes `i` and `i + 1`. -/
def line (x y : Nat → α) (i : Nat) (t : α) : α := y i + (t - x i) * ((y (i + 1) - y i) / (x (i + 1) - x i))

theorem line_left (x y : Nat → α) (i : Nat) : line x y i (x i) = y i := by
  unfold line
  rw [sub_self, zero_mul, add_zero]

theorem line_right {x : Nat → α} {i : Nat} (hx : x i < x (i + 1)) (y : Nat → α) : line x y i (x (i + 1)) = y (i + 1) := by
  unfold line
  rw [mul_div_cancel₀ _ (sub_pos.mpr hx).ne', add_sub_cancel]

/-- At a point that a segment encloses, where the first and the last one also enclose what lies beyond them, the segment
    answers, or it meets the one that does. -/
theorem answer_of_encloses {β : Type} {i : Nat} (hi : i + 1 < k.xs.length) (hleft : i = 0 ∨ k.x i ≤ t)
    (hright : i + 2 = k.xs.length ∨ t ≤ k.x (i + 1)) {f : Nat → β}
    (hmeet : ∀ j, j + 2 < k.xs.length → t = k.x (j + 1) → f j = f (j + 1)) : f (k.segment t) = f i := by
  obtain ⟨hj, hjleft, hjright⟩ := k.segment_spec t
  generalize k.segment t = j at *
  rcases Nat.lt_trichotomy i j with hij | rfl | hij
  · -- A later segment answers, so the point is the node between the two.
    have hstart : k.x j ≤ t := hjleft.resolve_left (by omega)
    have hend : t ≤ k.x (i + 1) := hright.resolve_left (by omega)
    have hnode : i + 1 = j := by
      rcases Nat.eq_or_lt_of_le (show i + 1 ≤ j from hij) with h | hlt
      · exact h
      · exact absurd (k.x_lt hlt (by omega)) (not_lt.mpr (hstart.trans hend))
    subst hnode
    exact (hmeet i hj (le_antisymm hend hstart)).symm
  · rfl
  · have hend : t < k.x (j + 1) := hjright.resolve_left (by omega)
    have hstart : k.x i ≤ t := hleft.resolve_left (by omega)
    exact absurd (k.x_le (show j + 1 ≤ i from hij) (by omega)) (not_le.mpr (hstart.trans_lt hend))

/-- The lines on both sides of a node meet there. -/
theorem line_of_encloses {i : Nat} (hi : i + 1 < k.xs.length) (hleft : i = 0 ∨ k.x i ≤ t)
    (hright : i + 2 = k.xs.length ∨ t ≤ k.x (i + 1)) (z : Nat → α) :
    line k.x z (k.segment t) t = line k.x z i t := by
  refine answer_of_encloses hi hleft hright (f := fun j => line k.x z j t) fun j hj ht => ?_
  rw [ht, line_right (k.x_lt (Nat.lt_succ_self j) (by omega)), line_left]

/-- The shorter knots and the longer ones answer from the same line, or from two that meet. -/
theorem IsPrefix.line (h : IsPrefix short long n) (ht : t ≤ long.x n) {y z : Nat → α} (hyz : ∀ i ≤ n, z i = y i) :
    Knots.line short.x z (short.segment t) t = Knots.line long.x y (long.segment t) t := by
  have hlen := h.length
  have hlt := h.lt
  obtain ⟨hin, hleft, hright⟩ := short.segment_spec t
  generalize short.segment t = i at *
  have hsame : Knots.line short.x z i t = Knots.line long.x y i t := by
    unfold Knots.line
    rw [h.x (by omega), h.x (by omega), hyz i (by omega), hyz (i + 1) (by omega)]
  -- The segment of the shorter knots encloses the point among the longer ones too.
  rw [h.x (by omega)] at hleft
  have hend : t ≤ long.x (i + 1) := by
    rcases hright with hi | hi
    · have hi : i + 1 = n := by omega
      rwa [hi]
    · rw [h.x (by omega)] at hi
      exact hi.le
  rw [hsame, line_of_encloses (by omega) hleft (.inr hend)]

theorem IsPrefix.findIdx (h : IsPrefix short long n) {p : α → Bool} (hp : p (long.x n) = true) :
    min (short.xs.findIdx p) short.last = min (long.xs.findIdx p) long.last ∧ min (long.xs.findIdx p) long.last ≤ n := by
  have hlen := h.length
  have hlt := h.lt
  have hfound : long.xs.findIdx p ≤ n := by
    by_contra hn
    have hnot := List.not_of_lt_findIdx (show n < long.xs.findIdx p by omega)
    rw [Knots.x, List.getD_eq_getElem _ _ h.lt, hnot] at hp
    cases hp
  rw [h.xs, List.findIdx_take]
  unfold Knots.last
  omega

/-! ### Pieces -/

/-- Nodes from number `n` on are not among those before it. -/
theorem filter_take {xs : List α} {p : α → Bool} (hxs : xs.Pairwise (· < ·)) (hn : n < xs.length)
    (hp : ∀ x, p x = true → x < xs[n]) : xs.filter p = (xs.take n).filter p := by
  conv_lhs => rw [← List.take_append_drop n xs]
  rw [List.filter_append, List.append_right_eq_self, List.filter_eq_nil_iff]
  intro x hx hpx
  obtain ⟨i, hi, rfl⟩ := List.mem_iff_getElem.mp hx
  rw [List.getElem_drop] at hpx
  rw [List.length_drop] at hi
  have hlt := hp _ hpx
  rcases Nat.eq_zero_or_pos i with rfl | hpos
  · exact absurd hlt (lt_irrefl _)
  · exact absurd hlt (List.pairwise_iff_getElem.mp hxs n (n + i) hn (by omega) (by omega)).not_gt

theorem filter_interior (k : Knots α) (hpos : 1 ≤ n) (hn : n < k.xs.length) {p : α → Bool}
    (hp : ∀ x, p x = true → x < k.x n) : k.interior.filter p = (k.xs.take n).tail.filter p := by
  have hint : k.interior = (k.xs.take (k.xs.length - 1)).tail := by
    rw [interior, ← List.tail_dropLast, List.dropLast_eq_take]
  have hinc := isIncreasing_iff.mp k.increasing
  rcases Nat.eq_or_lt_of_le (show n ≤ k.xs.length - 1 by omega) with hlast | hlast
  · rw [hint, hlast]
  · have hlen : n - 1 < (k.xs.take (k.xs.length - 1)).tail.length := by
      rw [List.length_tail, List.length_take]
      omega
    have hget : (k.xs.take (k.xs.length - 1)).tail[n - 1] = k.x n := by
      rw [x, List.getD_eq_getElem _ _ hn, List.getElem_tail, List.getElem_take]
      congr 1
      omega
    rw [hint, filter_take hinc.take.tail hlen (by rwa [hget]), ← List.tail_take_eq_take_tail, List.take_take,
      Nat.min_eq_left (by omega)]

theorem mem_pieces {nodes : List α} {a b l r : α} (hab : a < b) (h : (l, r) ∈ pieces nodes a b) : l < b ∧ r ≤ b := by
  obtain ⟨hl, hr⟩ := List.of_mem_zip h
  constructor
  · rcases List.mem_cons.mp hl with rfl | hl
    · exact hab
    · have := (List.mem_filter.mp hl).2
      simp only [Bool.and_eq_true, decide_eq_true_eq] at this
      exact this.2
  · rcases List.mem_append.mp hr with hr | hr
    · have := (List.mem_filter.mp hr).2
      simp only [Bool.and_eq_true, decide_eq_true_eq] at this
      exact this.2.le
    · rw [List.mem_singleton.mp hr]

namespace IsPrefix

variable {a b : α}

theorem pieces_interior (h : IsPrefix short long n) (hb : b ≤ long.x n) :
    pieces short.interior a b = pieces long.interior a b := by
  have hlen := h.length
  have hp : ∀ x, (decide (x > a) && decide (x < b)) = true → x < long.x n := by
    intro x hx
    simp only [Bool.and_eq_true, decide_eq_true_eq] at hx
    exact lt_of_lt_of_le hx.2 hb
  have hshort := filter_interior short h.pos (show n < short.xs.length by omega) (by rwa [h.x (Nat.le_refl n)])
  have hlong := filter_interior long h.pos h.lt hp
  rw [h.xs, List.take_take, Nat.min_eq_left (Nat.le_succ n), ← hlong] at hshort
  unfold pieces
  rw [hshort]

theorem pieces_xs (h : IsPrefix short long n) (hb : b ≤ long.x n) : pieces short.xs a b = pieces long.xs a b := by
  have hlen := h.length
  have hp : ∀ x, (decide (x > a) && decide (x < b)) = true → x < long.x n := by
    intro x hx
    simp only [Bool.and_eq_true, decide_eq_true_eq] at hx
    exact lt_of_lt_of_le hx.2 hb
  have hshort := filter_take (isIncreasing_iff.mp short.increasing) (show n < short.xs.length by omega)
    (by rwa [← List.getD_eq_getElem _ 0, ← Knots.x, h.x (Nat.le_refl n)])
  have hlong := filter_take (isIncreasing_iff.mp long.increasing) h.lt
    (by rwa [← List.getD_eq_getElem _ 0, ← Knots.x])
  rw [h.xs, List.take_take, Nat.min_eq_left (Nat.le_succ n), ← hlong, ← h.xs] at hshort
  unfold pieces
  rw [hshort]

end IsPrefix

end Knots

section
variable {short long : Knots α} {n : Nat} {a b t : α}

/-! ### The local methods -/

theorem Linear.value_initial (h : short.IsPrefix long n) (ht : t ≤ long.x n) : value short t = value long t :=
  h.line ht fun _ hi => h.y hi

theorem Linear.area_initial (h : short.IsPrefix long n) (hb : b ≤ long.x n) : area short a b = area long a b := by
  unfold area
  split
  · rename_i hab
    rw [h.pieces_interior hb]
    refine List.foldl_ext _ _ _ fun total (l, r) hlr => ?_
    obtain ⟨hl, hr⟩ := Knots.mem_pieces hab hlr
    simp only [value_initial h (hl.le.trans hb), value_initial h (hr.trans hb)]
  · rfl

theorem Linear.integral_initial (h : short.IsPrefix long n) (ha : a ≤ long.x n) (hb : b ≤ long.x n) :
    integral short a b = integral long a b := by
  unfold integral
  rw [area_initial h ha, area_initial h hb]

theorem LogLinear.value_initial (h : short.IsPrefix long n) (ht : t ≤ long.x n) : value short t = value long t := by
  have hlog : ∀ i ≤ n, logValue short i = logValue long i := fun i hi => by rw [logValue, logValue, h.y hi]
  exact congrArg Scalar.exp (h.line ht hlog)

theorem BackwardFlat.value_initial (h : short.IsPrefix long n) (ht : t ≤ long.x n) : value short t = value long t := by
  obtain ⟨heq, hle⟩ := h.findIdx (p := fun node => !decide (node < t)) (by simpa using ht)
  unfold value nodeFor
  rw [heq, h.y hle]

theorem BackwardFlat.area_initial (h : short.IsPrefix long n) (hb : b ≤ long.x n) : area short a b = area long a b := by
  unfold area
  split
  · rename_i hab
    rw [h.pieces_xs hb]
    refine List.foldl_ext _ _ _ fun total (l, r) hlr => ?_
    obtain ⟨hl, -⟩ := Knots.mem_pieces hab hlr
    obtain ⟨heq, hle⟩ := h.findIdx (p := fun node => !decide (node ≤ l)) (by simpa using lt_of_lt_of_le hl hb)
    simp only [nodeAfter, heq, h.y hle]
  · rfl

theorem BackwardFlat.integral_initial (h : short.IsPrefix long n) (ha : a ≤ long.x n) (hb : b ≤ long.x n) :
    integral short a b = integral long a b := by
  unfold integral
  rw [area_initial h ha, area_initial h hb]

end

/-- The interpolants have the same values up to a bound that lies within the nodes of both, and the same
    integrals if they are to be integrated. -/
structure Interpolant.Agrees (short long : Interpolant α) (bound : α) (integrates : Bool) : Prop where
  low : short.low = long.low
  shortHigh : bound ≤ short.high
  longHigh : bound ≤ long.high
  value : ∀ t ≤ bound, short.value t = long.value t
  integral : integrates = true → ∀ a ≤ bound, ∀ b ≤ bound, short.integral a b = long.integral a b

/-- The method answers at a point from the nodes next to it. -/
def Method.isLocal (m : Method) : Bool := m != .cubicSpline

theorem Knots.IsPrefix.agrees {short long : Knots α} {n : Nat} (h : short.IsPrefix long n) {f g : Interpolant α}
    {integrates : Bool} (hg : g.xs = short.xs) (hf : f.xs = long.xs) (hv : ∀ t ≤ long.x n, g.value t = f.value t)
    (hi : integrates = true → ∀ a ≤ long.x n, ∀ b ≤ long.x n, g.integral a b = f.integral a b) :
    g.Agrees f (long.x n) integrates := by
  have hlt := h.lt
  have hlen := h.length
  refine ⟨?_, ?_, ?_, hv, hi⟩
  · rw [Interpolant.low, Interpolant.low, hg, hf, h.xs]
    cases hxs : long.xs <;> rfl
  · have hlast : g.high = short.x n := by
      rw [Interpolant.high, hg, List.getLastD_eq_getLast?, List.getLast?_eq_getElem?, Knots.x,
        List.getD_eq_getElem?_getD, hlen]
      rfl
    rw [hlast, h.x (Nat.le_refl n)]
  · have hlast : f.high = long.x (long.xs.length - 1) := by
      rw [Interpolant.high, hf, List.getLastD_eq_getLast?, List.getLast?_eq_getElem?, Knots.x,
        List.getD_eq_getElem?_getD]
    rw [hlast]
    exact long.x_le (by omega) (by omega)

theorem Knots.make_initial [ExactScalar α] {xs ys : List α} {long : Knots α} {n : Nat} (h : Knots.make xs ys = .ok long)
    (hpos : 1 ≤ n) (hn : n < xs.length) :
    ∃ short, Knots.make (xs.take (n + 1)) (ys.take (n + 1)) = .ok short ∧ short.IsPrefix long n := by
  obtain ⟨rfl, rfl⟩ := Knots.make_ok h
  have hlen := long.length_eq
  have hxs : (long.xs.take (n + 1)).length = n + 1 := by
    rw [List.length_take]
    omega
  have hys : (long.ys.take (n + 1)).length = n + 1 := by
    rw [List.length_take]
    omega
  obtain ⟨short, hs, hx, hy⟩ := Knots.make_of_pairwise (by omega) (hxs.trans hys.symm)
    (isIncreasing_iff.mp long.increasing).take
  exact ⟨short, hs, hx, hy, hpos, hn⟩

theorem LogLinear.firstNonPositive?_take {ys : List α} (h : firstNonPositive? ys = none) (n : Nat) :
    firstNonPositive? (ys.take n) = none := by
  unfold firstNonPositive? at *
  split at h
  · cases h
  · rename_i hnone
    rw [List.findIdx?_eq_none_iff] at hnone
    have htake : (ys.take n).findIdx? (fun y => decide (y ≤ 0)) = none :=
      List.findIdx?_eq_none_iff.mpr fun y hy => hnone y (List.mem_of_mem_take hy)
    rw [htake]

/-- In exact arithmetic a local method can be built over nodes that increase, if there are enough of them and
    a logarithm is asked for of positive values only. -/
theorem Method.build_of_increasing [ExactScalar α] {m : Method} (_ : m.isLocal = true) {xs ys : List α}
    (two_le : 2 ≤ xs.length) (length_eq : xs.length = ys.length) (increasing : xs.Pairwise (· < ·))
    (positive : m = .logLinear → ∀ y ∈ ys, 0 < y) : ∃ f, m.build xs ys = .ok f :=
  build_of_finite two_le length_eq increasing (fun x _ => ExactScalar.isFinite_eq x) positive

/-- A local method that can be built over nodes can be built over those up to node `n`, and both
    interpolants agree up to there. -/
theorem Method.build_initial [ExactScalar α] {m : Method} (hm : m.isLocal = true) {xs ys : List α} {f : Interpolant α}
    {n : Nat} (h : m.build xs ys = .ok f) (hpos : 1 ≤ n) (hn : n < xs.length) :
    ∃ g, m.build (xs.take (n + 1)) (ys.take (n + 1)) = .ok g ∧ f.xs = xs ∧
      g.Agrees f (xs.getD n 0) (m != .logLinear) := by
  cases m with
  | linear =>
    rw [Method.build, Linear.build_eq] at h
    obtain ⟨long, hk, rfl⟩ := Knots.make_of_map h
    obtain ⟨short, hs, hp⟩ := Knots.make_initial hk hpos hn
    obtain ⟨rfl, -⟩ := Knots.make_ok hk
    refine ⟨Linear.interpolant short, by rw [Method.build, Linear.build_eq, hs]; rfl, rfl, ?_⟩
    exact hp.agrees rfl rfl (fun _ => Linear.value_initial hp) fun _ _ ha _ hb => Linear.integral_initial hp ha hb
  | logLinear =>
    have hpositive := LogLinear.positive_of_build h
    rw [Method.build, LogLinear.build_of_positive hpositive] at h
    obtain ⟨long, hk, rfl⟩ := Knots.make_of_map h
    obtain ⟨short, hs, hp⟩ := Knots.make_initial hk hpos hn
    obtain ⟨rfl, -⟩ := Knots.make_ok hk
    refine ⟨LogLinear.interpolant short, ?_, rfl, ?_⟩
    · rw [Method.build, LogLinear.build_of_positive (LogLinear.firstNonPositive?_take hpositive _), hs]
      rfl
    · exact hp.agrees rfl rfl (fun _ => LogLinear.value_initial hp) fun h => absurd h Bool.false_ne_true
  | backwardFlat =>
    rw [Method.build, BackwardFlat.build_eq] at h
    obtain ⟨long, hk, rfl⟩ := Knots.make_of_map h
    obtain ⟨short, hs, hp⟩ := Knots.make_initial hk hpos hn
    obtain ⟨rfl, -⟩ := Knots.make_ok hk
    refine ⟨BackwardFlat.interpolant short, by rw [Method.build, BackwardFlat.build_eq, hs]; rfl, rfl, ?_⟩
    exact hp.agrees rfl rfl (fun _ => BackwardFlat.value_initial hp) fun _ _ ha _ hb =>
      BackwardFlat.integral_initial hp ha hb
  | cubicSpline => cases hm

/-! ### Curves -/

/-- The kind of the curve asks for integrals of hazard rates only, which a logarithm cannot carry. -/
theorem CurveKind.integrates {kind : CurveKind} {m : Method} (h : kind.supports m = true) (hk : kind = .hazardRate) :
    (m != .logLinear) = true := by
  subst hk
  simpa [supports] using h

theorem Interpolant.checkRange_ok [ExactScalar α] {f : Interpolant α} {t : α} {extrapolates : Bool} (hlow : f.low ≤ 0)
    (hhigh : t ≤ f.high) (ht : t < 0 → extrapolates = true) : f.checkRange t extrapolates = .ok () := by
  unfold checkRange
  rw [ExactScalar.isNaN_eq, if_neg Bool.false_ne_true]
  by_cases hneg : t < 0
  · rw [ht hneg, Bool.true_or, if_pos rfl]
  · have hrange : f.inRange t = true := by
      have : f.low ≤ t := hlow.trans (not_lt.mp hneg)
      simp [inRange, this, hhigh]
    rw [hrange, Bool.or_true, if_pos rfl]

namespace Interpolant.Agrees

variable {f g : Interpolant α} {bound t : α} {integrates extrapolates : Bool}

theorem evaluate [ExactScalar α] (h : g.Agrees f bound integrates) (hlow : f.low ≤ 0) (ht : t ≤ bound)
    (hext : t < 0 → extrapolates = true) :
    g.evaluate t extrapolates = .ok (f.value t) ∧ f.evaluate t extrapolates = .ok (f.value t) := by
  unfold Interpolant.evaluate
  rw [checkRange_ok (h.low.trans_le hlow) (ht.trans h.shortHigh) hext, checkRange_ok hlow (ht.trans h.longHigh) hext,
    h.value t ht]
  exact ⟨rfl, rfl⟩

theorem integrate [ExactScalar α] (h : g.Agrees f bound true) (hlow : f.low ≤ 0) (hbound : 0 ≤ bound) (ht : t ≤ bound)
    (hext : t < 0 → extrapolates = true) :
    g.integrate 0 t extrapolates = .ok (f.integral 0 t) ∧ f.integrate 0 t extrapolates = .ok (f.integral 0 t) := by
  have hzero : (0 : α) < 0 → extrapolates = true := fun h => absurd h (lt_irrefl _)
  unfold Interpolant.integrate
  rw [checkRange_ok (h.low.trans_le hlow) (hbound.trans h.shortHigh) hzero,
    checkRange_ok hlow (hbound.trans h.longHigh) hzero,
    checkRange_ok (h.low.trans_le hlow) (ht.trans h.shortHigh) hext, checkRange_ok hlow (ht.trans h.longHigh) hext,
    h.integral rfl 0 hbound t ht]
  exact ⟨rfl, rfl⟩

end Interpolant.Agrees

/-- A curve over the nodes up to one that is not before time zero, and the curve over all of them, have
    the same answers up to that node. -/
theorem NodeCurve.answerWith_initial [ExactScalar α] {frame : Frame} {f g : Interpolant α} {bound : α} {m : Method}
    (h : g.Agrees f bound (m != .logLinear)) (hkind : frame.kind.supports m = true) (hlow : f.low ≤ 0)
    (hbound : 0 ≤ bound) {p : Probe α} (hp : p.time ≤ bound) {extrapolates : Bool}
    (hext : p.time < 0 → extrapolates = true) (s l : Bool) :
    ∃ y, NodeCurve.answerWith ⟨frame, g, s⟩ extrapolates p = .ok y ∧
      NodeCurve.answerWith ⟨frame, f, l⟩ extrapolates p = .ok y := by
  have hvalue : ∃ y, NodeCurve.valueWith ⟨frame, g, s⟩ p.time extrapolates = .ok y ∧
      NodeCurve.valueWith ⟨frame, f, l⟩ p.time extrapolates = .ok y := by
    obtain ⟨hg, hf⟩ := h.evaluate hlow hp hext
    unfold valueWith
    rw [hg, hf]
    exact ⟨_, rfl, rfl⟩
  cases p with
  | value t => exact hvalue
  | discount t =>
    unfold answerWith discountWith
    cases hk : frame.kind with
    | discount => exact hvalue
    | survivalProbability => exact hvalue
    | hazardRate =>
      rw [CurveKind.integrates hkind hk] at h
      obtain ⟨hg, hf⟩ := h.integrate hlow hbound hp hext
      dsimp only [Probe.time] at hg hf ⊢
      rw [hg, hf]
      exact ⟨_, rfl, rfl⟩

end TermStructure
