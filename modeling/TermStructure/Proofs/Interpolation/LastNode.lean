import TermStructure.Proofs.Scalar.Exponential
import TermStructure.Proofs.Interpolation.Prefix

/-!
# The last node

What a curve between positive values says before its last node changes with the value there, in a smaller
proportion the earlier it is. This holds of straight lines between the values or between their logarithms.
-/

namespace TermStructure

variable {α : Type} [ScalarField α]

/-- Values up to the time `final`, given with the value `x` at that time, respond to it: they are positive, and
    if it grows, an earlier one grows in a smaller proportion than a later one. -/
structure Responds (D : α → α → α) (final : α) : Prop where
  pos {x t : α} : 0 < x → 0 ≤ t → t ≤ final → 0 < D x t
  last {x : α} : 0 < x → D x final = x
  mono {x y s t : α} : 0 < x → x < y → 0 ≤ s → s ≤ t → t ≤ final → D y s * D x t ≤ D x s * D y t
  strict {x y s : α} : 0 < x → x < y → 0 ≤ s → s < final → D y s * x < D x s * y

namespace Knots

variable {k : Knots α} {z base : Nat → α} {s t : α}

theorem segment_lt_last (k : Knots α) (t : α) : k.segment t + 1 ≤ k.last := by
  obtain ⟨hlt, -, -⟩ := k.segment_spec t
  unfold last
  omega

theorem last_lt (k : Knots α) : k.last < k.xs.length := by
  have htwo := k.two_le
  unfold last
  omega

theorem width_pos (k : Knots α) (t : α) : 0 < k.x (k.segment t + 1) - k.x (k.segment t) :=
  sub_pos.mpr (k.x_lt (Nat.lt_succ_self _) (k.segment_spec t).1)

theorem segment_left (h : k.x 0 ≤ t) : k.x (k.segment t) ≤ t := by
  obtain ⟨-, hleft, -⟩ := k.segment_spec t
  rcases hleft with hzero | hleft
  · rw [hzero]
    exact h
  · exact hleft

theorem segment_right (h : t < k.x k.last) : t < k.x (k.segment t + 1) := by
  obtain ⟨hlt, -, hright⟩ := k.segment_spec t
  rcases hright with hlast | hright
  · have hend : k.segment t + 1 = k.last := by
      unfold last
      omega
    rw [hend]
    exact h
  · exact hright

/-- The last segment answers for the last node. -/
theorem segment_last (k : Knots α) : k.segment (k.x k.last) + 1 = k.last := by
  have hle := k.segment_lt_last (k.x k.last)
  obtain ⟨-, -, hright⟩ := k.segment_spec (k.x k.last)
  rcases hright with hlast | hright
  · unfold last at hlast ⊢
    omega
  · exact absurd (k.x_le hle k.last_lt) (not_le.mpr hright)

/-- After a point of the last segment the last segment answers. -/
theorem segment_of_le (hlast : k.segment s + 1 = k.last) (hs : k.x 0 ≤ s) (hst : s ≤ t) :
    k.segment t = k.segment s := by
  have hle := k.segment_lt_last t
  by_contra hne
  obtain ⟨-, -, hright⟩ := k.segment_spec t
  have hbefore : t < k.x (k.segment t + 1) := by
    rcases hright with hend | hright
    · unfold last at hlast hle
      omega
    · exact hright
  have hnode : k.x (k.segment t + 1) ≤ k.x (k.segment s) := by
    have hlt := k.last_lt
    exact k.x_le (by omega) (by omega)
  exact absurd (hbefore.trans_le (hnode.trans (segment_left hs))) (not_lt.mpr hst)

/-! ### Weights -/

/-- How far the point is along its segment. -/
def fraction (k : Knots α) (t : α) : α :=
  (t - k.x (k.segment t)) / (k.x (k.segment t + 1) - k.x (k.segment t))

/-- The weight of the value at the last node. -/
def share (k : Knots α) (t : α) : α := if k.segment t + 1 = k.last then k.fraction t else 0

theorem fraction_nonneg (h : k.x 0 ≤ t) : 0 ≤ k.fraction t :=
  div_nonneg (sub_nonneg.mpr (segment_left h)) (k.width_pos t).le

theorem fraction_lt_one (h : t < k.x k.last) : k.fraction t < 1 := by
  unfold fraction
  rw [div_lt_one (k.width_pos t)]
  exact sub_lt_sub_right (segment_right h) _

theorem share_nonneg (h : k.x 0 ≤ t) : 0 ≤ k.share t := by
  unfold share
  split
  · exact fraction_nonneg h
  · exact le_refl _

theorem share_last (k : Knots α) : k.share (k.x k.last) = 1 := by
  have hlast := k.segment_last
  have hwidth := k.width_pos (k.x k.last)
  unfold share fraction
  rw [if_pos hlast]
  rw [hlast] at hwidth ⊢
  exact div_self hwidth.ne'

theorem share_lt_one (h : t < k.x k.last) : k.share t < 1 := by
  unfold share
  split
  · exact fraction_lt_one h
  · exact one_pos

theorem fraction_mono (hlast : k.segment s + 1 = k.last) (hs : k.x 0 ≤ s) (hst : s ≤ t) :
    k.fraction s ≤ k.fraction t := by
  have hwidth := k.width_pos s
  unfold fraction
  rw [segment_of_le hlast hs hst]
  gcongr

theorem share_mono (hs : k.x 0 ≤ s) (hst : s ≤ t) : k.share s ≤ k.share t := by
  by_cases hlast : k.segment s + 1 = k.last
  · have hlast' : k.segment t + 1 = k.last := by rwa [segment_of_le hlast hs hst]
    unfold share
    rw [if_pos hlast, if_pos hlast']
    exact fraction_mono hlast hs hst
  · have hzero : k.share s = 0 := if_neg hlast
    rw [hzero]
    exact share_nonneg (hs.trans hst)

theorem line_eq_mix (k : Knots α) (z : Nat → α) (t : α) :
    line k.x z (k.segment t) t = (1 - k.fraction t) * z (k.segment t) + k.fraction t * z (k.segment t + 1) := by
  unfold line fraction
  ring

theorem line_last (k : Knots α) (z : Nat → α) : line k.x z (k.segment (k.x k.last)) (k.x k.last) = z k.last := by
  have hright := line_right (sub_pos.mp (k.width_pos (k.x k.last))) z
  rw [k.segment_last] at hright
  exact hright

/-- What the value at the last node adds to a line that comes down to zero there. -/
theorem line_eq_add_share (hz : ∀ i < k.last, z i = base i) (hbase : base k.last = 0) (t : α) :
    line k.x z (k.segment t) t = line k.x base (k.segment t) t + k.share t * z k.last := by
  have hle := k.segment_lt_last t
  rw [line_eq_mix, line_eq_mix, hz (k.segment t) (by omega)]
  unfold share
  split
  · rename_i hlast
    rw [hlast, hbase]
    ring
  · rename_i hlast
    rw [hz (k.segment t + 1) (by omega)]
    ring

/-- At the last node nothing of the line is left. -/
theorem line_add_share_last (hbase : base k.last = 0) (v : α) :
    line k.x base (k.segment (k.x k.last)) (k.x k.last) + k.share (k.x k.last) * v = v := by
  rw [line_last, hbase, share_last, zero_add, one_mul]

section
variable (hpos : ∀ i < k.last, 0 < base i) (hbase : base k.last = 0)
include hpos hbase

theorem line_pos (h : k.x 0 ≤ t) (ht : t < k.x k.last) : 0 < line k.x base (k.segment t) t := by
  have hle := k.segment_lt_last t
  have hleft : 0 < base (k.segment t) := hpos _ (by omega)
  have hright : 0 ≤ base (k.segment t + 1) := by
    rcases Nat.eq_or_lt_of_le hle with hlast | hlt
    · rw [hlast, hbase]
    · exact (hpos _ hlt).le
  have hfraction : 0 < 1 - k.fraction t := sub_pos.mpr (fraction_lt_one ht)
  rw [line_eq_mix]
  exact add_pos_of_pos_of_nonneg (mul_pos hfraction hleft) (mul_nonneg (fraction_nonneg h) hright)

theorem line_nonneg (h : k.x 0 ≤ t) (ht : t ≤ k.x k.last) : 0 ≤ line k.x base (k.segment t) t := by
  rcases lt_or_eq_of_le ht with hlt | rfl
  · exact (line_pos hpos hbase h hlt).le
  · rw [line_last, hbase]

/-- Before the last node the earlier point has more of the line, and the later one more of the last value. -/
theorem line_mul_share_le (hs : k.x 0 ≤ s) (hst : s ≤ t) (ht : t ≤ k.x k.last) :
    line k.x base (k.segment t) t * k.share s ≤ line k.x base (k.segment s) s * k.share t := by
  by_cases hlast : k.segment s + 1 = k.last
  · have hsame := segment_of_le hlast hs hst
    have hlast' : k.segment t + 1 = k.last := by rwa [hsame]
    have hfractions := fraction_mono hlast hs hst
    have hleft : 0 < base (k.segment s) := hpos _ (by omega)
    have hshare : k.share s = k.fraction s := if_pos hlast
    have hshare' : k.share t = k.fraction t := if_pos hlast'
    have hgap : 0 ≤ base (k.segment s) * (k.fraction t - k.fraction s) :=
      mul_nonneg hleft.le (sub_nonneg.mpr hfractions)
    rw [line_eq_mix, line_eq_mix, hlast, hlast', hbase, hshare, hshare', hsame]
    linarith
  · have hzero : k.share s = 0 := if_neg hlast
    rw [hzero, mul_zero]
    exact mul_nonneg (line_nonneg hpos hbase hs (hst.trans ht)) (share_nonneg (hs.trans hst))

end

end Knots

/-! ### Values that respond -/

/-- The values at nodes of which all but the last are given. -/
def nodeValues (before : List α) (x : α) (i : Nat) : α := (before ++ [x]).getD i 0

theorem nodeValues_before {before : List α} {i : Nat} (x : α) (hi : i < before.length) :
    nodeValues before x i = before.getD i 0 := by
  unfold nodeValues
  rw [List.getD_append _ _ _ _ hi]

theorem nodeValues_last (before : List α) (x : α) : nodeValues before x before.length = x := by
  unfold nodeValues
  rw [List.getD_append_right _ _ _ _ (Nat.le_refl _), Nat.sub_self]
  rfl

theorem getD_pos {before : List α} (hpos : ∀ y ∈ before, 0 < y) {i : Nat} (hi : i < before.length) :
    0 < before.getD i 0 := by
  rw [List.getD_eq_getElem _ _ hi]
  exact hpos _ (List.getElem_mem hi)

section
variable {k : Knots α} {before : List α} (hlen : k.last = before.length) (hstart : k.x 0 = 0)
include hlen hstart

/-- On straight lines a value grows by its share of what the last one grows by. -/
theorem Linear.responds (hpos : ∀ y ∈ before, 0 < y) :
    Responds (fun x t => Knots.line k.x (nodeValues before x) (k.segment t) t) (k.x k.last) := by
  let base (i : Nat) : α := before.getD i 0
  let rest (t : α) : α := Knots.line k.x base (k.segment t) t
  have hbase : base k.last = 0 := List.getD_eq_default _ _ hlen.ge
  have hbefore {i : Nat} (hi : i < k.last) : i < before.length := hlen ▸ hi
  have hbasepos (i : Nat) (hi : i < k.last) : 0 < base i := getD_pos hpos (hbefore hi)
  have hsplit (x t : α) : Knots.line k.x (nodeValues before x) (k.segment t) t = rest t + k.share t * x := by
    have hline := Knots.line_eq_add_share (fun i hi => nodeValues_before x (hbefore hi)) hbase t
    rw [hline, hlen, nodeValues_last]
  have hrest {t : α} (h0 : 0 ≤ t) (ht : t < k.x k.last) : 0 < rest t :=
    Knots.line_pos hbasepos hbase (hstart.trans_le h0) ht
  have hlast (x : α) : rest (k.x k.last) + k.share (k.x k.last) * x = x := Knots.line_add_share_last hbase x
  refine ⟨fun {x t} hx h0 ht => ?_, fun {x} hx => ?_, fun {x y s t} hx hxy h0 hst ht => ?_,
    fun {x y s} hx hxy h0 hs => ?_⟩
  · rw [hsplit]
    rcases lt_or_eq_of_le ht with hlt | rfl
    · have hshare : 0 ≤ k.share t := Knots.share_nonneg (hstart.trans_le h0)
      exact add_pos_of_pos_of_nonneg (hrest h0 hlt) (mul_nonneg hshare hx.le)
    · rw [hlast]
      exact hx
  · rw [hsplit, hlast]
  · have hcross : rest t * k.share s ≤ rest s * k.share t :=
      Knots.line_mul_share_le hbasepos hbase (hstart.trans_le h0) hst ht
    have hgap : 0 ≤ (y - x) * (rest s * k.share t - rest t * k.share s) :=
      mul_nonneg (sub_nonneg.mpr hxy.le) (sub_nonneg.mpr hcross)
    rw [hsplit, hsplit, hsplit, hsplit]
    linarith
  · have hgap : rest s * x < rest s * y := mul_lt_mul_of_pos_left hxy (hrest h0 hs)
    rw [hsplit, hsplit]
    linarith

/-- On straight lines between logarithms the logarithm of a value grows by its share. -/
theorem LogLinear.responds [LawfulLn α] :
    Responds (fun x t => Scalar.exp (Knots.line k.x (fun i => Scalar.ln (nodeValues before x i)) (k.segment t) t))
      (k.x k.last) := by
  let base (i : Nat) : α := if i < k.last then Scalar.ln (before.getD i 0) else 0
  let rest (t : α) : α := Knots.line k.x base (k.segment t) t
  have hbase : base k.last = 0 := if_neg (Nat.lt_irrefl _)
  have hsplit (x t : α) : Knots.line k.x (fun i => Scalar.ln (nodeValues before x i)) (k.segment t) t =
      rest t + k.share t * Scalar.ln x := by
    have hvalue (i : Nat) (hi : i < k.last) : Scalar.ln (nodeValues before x i) = base i := by
      rw [nodeValues_before x (hlen ▸ hi)]
      exact (if_pos hi).symm
    have hline := Knots.line_eq_add_share (z := fun i => Scalar.ln (nodeValues before x i)) hvalue hbase t
    rw [hline, hlen, nodeValues_last]
  have hlast (x : α) : rest (k.x k.last) + k.share (k.x k.last) * Scalar.ln x = Scalar.ln x :=
    Knots.line_add_share_last hbase _
  refine ⟨fun {x t} hx h0 ht => exp_pos _, fun {x} hx => ?_, fun {x y s t} hx hxy h0 hst ht => ?_,
    fun {x y s} hx hxy h0 hs => ?_⟩
  · rw [hsplit, hlast]
    exact LawfulLn.exp_ln hx
  · have hshares : k.share s ≤ k.share t := Knots.share_mono (hstart.trans_le h0) hst
    have hgap : 0 ≤ (Scalar.ln y - Scalar.ln x) * (k.share t - k.share s) :=
      mul_nonneg (sub_nonneg.mpr (ln_lt_ln hx hxy).le) (sub_nonneg.mpr hshares)
    rw [hsplit, hsplit, hsplit, hsplit, ← LawfulLn.exp_add, ← LawfulLn.exp_add]
    refine (LawfulExp.exp_strictMono (α := α)).monotone ?_
    linarith
  · have hshare : k.share s < 1 := Knots.share_lt_one hs
    have hgap : 0 < (Scalar.ln y - Scalar.ln x) * (1 - k.share s) :=
      mul_pos (sub_pos.mpr (ln_lt_ln hx hxy)) (sub_pos.mpr hshare)
    rw [hsplit, hsplit]
    calc Scalar.exp (rest s + k.share s * Scalar.ln y) * x
      _ = Scalar.exp (rest s + k.share s * Scalar.ln y + Scalar.ln x) := by
        rw [LawfulLn.exp_add _ (Scalar.ln x), LawfulLn.exp_ln hx]
      _ < Scalar.exp (rest s + k.share s * Scalar.ln x + Scalar.ln y) := by
        refine LawfulExp.exp_strictMono ?_
        linarith
      _ = Scalar.exp (rest s + k.share s * Scalar.ln x) * y := by
        rw [LawfulLn.exp_add _ (Scalar.ln y), LawfulLn.exp_ln (hx.trans hxy)]

end

theorem Knots.line_congr {k k' : Knots α} (h : k'.xs = k.xs) (z : Nat → α) (t : α) :
    line k'.x z (k'.segment t) t = line k.x z (k.segment t) t := by
  have hx : k'.x = k.x := by
    funext i
    rw [x, x, h]
  have hsegment : k'.segment t = k.segment t := by rw [segment, segment, h]
  rw [hx, hsegment]

theorem Knots.y_eq_nodeValues {k : Knots α} {before : List α} {x : α} (h : k.ys = before ++ [x]) :
    k.y = nodeValues before x := by
  funext i
  rw [y, h]
  rfl

/-- The curves through given positive values and one more respond to that one. -/
theorem Method.responds [ExactScalar α] [LawfulLn α] {m : Method} (hm : m = .linear ∨ m = .logLinear)
    {xs before : List α} (hxs : xs.Pairwise (· < ·)) (hlen : xs.length = before.length + 1) (hne : before ≠ [])
    (hpos : ∀ y ∈ before, 0 < y) (hstart : xs.headD 0 = 0) :
    ∃ D, Responds D (xs.getLastD 0) ∧
      ∀ x, 0 < x → ∃ f, m.build xs (before ++ [x]) = .ok f ∧ f.xs = xs ∧ ∀ t, f.value t = D x t := by
  have htwo : 2 ≤ xs.length := by
    have hbefore := List.length_pos_iff.mpr hne
    omega
  have hlength (x : α) : xs.length = (before ++ [x]).length := by rw [List.length_append, List.length_singleton, hlen]
  obtain ⟨grid, -, hgrid, -⟩ := Knots.make_of_pairwise htwo (hlength 1) hxs
  have hlast : grid.last = before.length := by
    unfold Knots.last
    rw [hgrid, hlen, Nat.add_sub_cancel]
  have hfirst : grid.x 0 = 0 := by
    rw [← hstart, Knots.x, hgrid]
    cases xs <;> rfl
  have hfinal : grid.x grid.last = xs.getLastD 0 := by
    rw [Knots.x, Knots.last, hgrid, List.getLastD_eq_getLast?, List.getLast?_eq_getElem?, List.getD_eq_getElem?_getD]
  rw [← hfinal]
  rcases hm with rfl | rfl
  · refine ⟨_, Linear.responds hlast hfirst hpos, fun x hx => ?_⟩
    obtain ⟨k, hk, hkx, hky⟩ := Knots.make_of_pairwise htwo (hlength x) hxs
    refine ⟨Linear.interpolant k, ?_, hkx, fun t => ?_⟩
    · rw [Method.build, Linear.build_eq, hk]
      rfl
    · change Knots.line k.x k.y (k.segment t) t = _
      rw [Knots.line_congr (hkx.trans hgrid.symm), Knots.y_eq_nodeValues hky]
  · refine ⟨_, LogLinear.responds hlast hfirst, fun x hx => ?_⟩
    obtain ⟨k, hk, hkx, hky⟩ := Knots.make_of_pairwise htwo (hlength x) hxs
    have hvalues : ∀ y ∈ before ++ [x], 0 < y := by
      intro y hy
      rcases List.mem_append.mp hy with hy | hy
      · exact hpos y hy
      · rw [List.mem_singleton.mp hy]
        exact hx
    refine ⟨LogLinear.interpolant k, ?_, hkx, fun t => ?_⟩
    · rw [Method.build, LogLinear.build_of_positive (LogLinear.firstNonPositive?_of_pos hvalues), hk]
      rfl
    · change Scalar.exp (Knots.line k.x (fun i => Scalar.ln (k.y i)) (k.segment t) t) = _
      rw [Knots.line_congr (hkx.trans hgrid.symm), Knots.y_eq_nodeValues hky]

end TermStructure
