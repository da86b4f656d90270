import TermStructure.Proofs.Interpolation.Shape

/-!
# Areas

An area is the sum of what its pieces between the nodes contribute. Where a contribution can be taken apart at any point
that no node is near, so can the area at any point at all: that is an induction over the nodes. The linear and the
backward-flat areas are of this sort, and are not negative over values that are not.
-/

namespace TermStructure

variable {α : Type} [ScalarField α]

/-! ### Sums over pieces -/

section
variable {nodes : List α} {a b c x : α} {g : α → α → α}

/-- No node lies strictly between two points. -/
def Free (nodes : List α) (a b : α) : Prop := ∀ x ∈ nodes, ¬(a < x ∧ x < b)

theorem pieces_of_free (h : Free nodes a b) : pieces nodes a b = [(a, b)] := by
  have hnone : nodes.filter (fun x => decide (x > a) && decide (x < b)) = [] := by
    refine List.filter_eq_nil_iff.mpr fun x hx hinside => h x hx ?_
    simpa using hinside
  unfold pieces
  rw [hnone]
  rfl

theorem pieces_cons_inside (hx : ∀ y ∈ nodes, x < y) (hax : a < x) (hxb : x < b) :
    pieces (x :: nodes) a b = (a, x) :: pieces nodes x b := by
  have hinside : (decide (x > a) && decide (x < b)) = true := by simp [hax, hxb]
  have hlater : nodes.filter (fun y => decide (y > a) && decide (y < b))
      = nodes.filter fun y => decide (y > x) && decide (y < b) := by
    refine List.filter_congr fun y hy => ?_
    rw [decide_eq_true (hax.trans (hx y hy)), decide_eq_true (hx y hy)]
  unfold pieces
  dsimp only
  rw [List.filter_cons, if_pos hinside, hlater]
  rfl

theorem pieces_cons_outside (h : ¬(a < x ∧ x < b)) : pieces (x :: nodes) a b = pieces nodes a b := by
  have houtside : ¬(decide (x > a) && decide (x < b)) = true := by simpa using h
  unfold pieces
  dsimp only
  rw [List.filter_cons, if_neg houtside]

/-- What the pieces of `[a, b]` contribute in all. -/
def pieceSum (g : α → α → α) (nodes : List α) (a b : α) : α := ((pieces nodes a b).map fun p => g p.1 p.2).sum

theorem pieceSum_of_free (h : Free nodes a b) : pieceSum g nodes a b = g a b := by
  unfold pieceSum
  rw [pieces_of_free h, List.map_singleton, List.sum_singleton]

theorem pieceSum_cons_inside (hx : ∀ y ∈ nodes, x < y) (hax : a < x) (hxb : x < b) :
    pieceSum g (x :: nodes) a b = g a x + pieceSum g nodes x b := by
  unfold pieceSum
  rw [pieces_cons_inside hx hax hxb, List.map_cons, List.sum_cons]

theorem pieceSum_cons_outside (h : ¬(a < x ∧ x < b)) : pieceSum g (x :: nodes) a b = pieceSum g nodes a b := by
  unfold pieceSum
  rw [pieces_cons_outside h]

theorem free_of_le (h : ∀ y ∈ nodes, x < y) (hb : b ≤ x) : Free nodes a b :=
  fun y hy hinside => absurd (hinside.2.trans_le hb) (h y hy).not_gt

/-- A sum over pieces can be taken apart at any point between its ends, if each contribution from `a` on can. -/
theorem pieceSum_add (hnodes : nodes.Pairwise (· < ·)) (hab : a < b) (hbc : b < c)
    (hg : ∀ l m r, a ≤ l → l < m → m < r → Free nodes l r → g l m + g m r = g l r) :
    pieceSum g nodes a b + pieceSum g nodes b c = pieceSum g nodes a c := by
  induction nodes generalizing a with
  | nil =>
    have hfree {l r : α} : Free ([] : List α) l r := nofun
    rw [pieceSum_of_free hfree, pieceSum_of_free hfree, pieceSum_of_free hfree]
    exact hg a b c le_rfl hab hbc hfree
  | cons x rest ih =>
    obtain ⟨hx, hrest⟩ := List.pairwise_cons.mp hnodes
    have hafter {l m r : α} (hl : a ≤ l) (hxl : x ≤ l) (hlm : l < m) (hmr : m < r) (hfree : Free rest l r) :
        g l m + g m r = g l r := by
      refine hg l m r hl hlm hmr fun y hy hinside => ?_
      rcases List.mem_cons.mp hy with rfl | hy
      · exact absurd hinside.1 hxl.not_gt
      · exact hfree y hy hinside
    -- Where the first node is: up to `a`, before `b`, from `b` on and before `c`, or from `c` on.
    rcases le_or_gt x a with hxa | hax
    · rw [pieceSum_cons_outside (fun h => h.1.not_ge hxa), pieceSum_cons_outside (fun h => (hab.trans h.1).not_ge hxa),
        pieceSum_cons_outside (fun h => h.1.not_ge hxa)]
      exact ih hrest hab fun l m r hl => hafter hl (hxa.trans hl)
    rcases lt_or_ge x b with hxb | hbx
    · rw [pieceSum_cons_inside hx hax hxb, pieceSum_cons_outside (fun h => h.1.not_gt hxb),
        pieceSum_cons_inside hx hax (hxb.trans hbc), add_assoc]
      exact congrArg (g a x + ·) (ih hrest hxb fun l m r hl => hafter (hax.le.trans hl) hl)
    have hfirst : pieceSum g (x :: rest) a b = g a b := by
      rw [pieceSum_cons_outside (fun h => h.2.not_ge hbx), pieceSum_of_free (free_of_le hx hbx)]
    rw [hfirst]
    have hfree {r : α} (hr : r ≤ x) : Free (x :: rest) a r := by
      intro y hy hinside
      rcases List.mem_cons.mp hy with rfl | hy
      · exact absurd hinside.2 hr.not_gt
      · exact free_of_le hx hr y hy hinside
    rcases lt_or_ge x c with hxc | hcx
    · rw [pieceSum_cons_inside hx hax hxc]
      rcases eq_or_lt_of_le hbx with rfl | hbx
      · rw [pieceSum_cons_outside (fun h => h.1.ne rfl)]
      · rw [pieceSum_cons_inside hx hbx hxc, ← add_assoc, hg a b x le_rfl hab hbx (hfree le_rfl)]
    · rw [pieceSum_cons_outside (fun h => h.2.not_ge hcx), pieceSum_cons_outside (fun h => h.2.not_ge hcx),
        pieceSum_of_free (free_of_le hx hcx), pieceSum_of_free (free_of_le hx hcx)]
      exact hg a b c le_rfl hab hbc (hfree hcx)

theorem pieceSum_nonneg (hnodes : nodes.Pairwise (· < ·)) (hab : a < b)
    (hg : ∀ l r, a ≤ l → l < r → r ≤ b → 0 ≤ g l r) : 0 ≤ pieceSum g nodes a b := by
  induction nodes generalizing a with
  | nil =>
    rw [pieceSum_of_free nofun]
    exact hg a b le_rfl hab le_rfl
  | cons x rest ih =>
    obtain ⟨hx, hrest⟩ := List.pairwise_cons.mp hnodes
    by_cases hinside : a < x ∧ x < b
    · rw [pieceSum_cons_inside hx hinside.1 hinside.2]
      exact add_nonneg (hg a x le_rfl hinside.1 hinside.2.le)
        (ih hrest hinside.2 fun l r hl => hg l r (hinside.1.le.trans hl))
    · rw [pieceSum_cons_outside hinside]
      exact ih hrest hab hg

/-- The area over `[a, b]`, nothing if `b` is not greater than `a`. -/
def areaOf (g : α → α → α) (nodes : List α) (a b : α) : α := if a < b then pieceSum g nodes a b else 0

theorem areaOf_self (g : α → α → α) (nodes : List α) (a : α) : areaOf g nodes a a = 0 := if_neg (lt_irrefl a)

theorem areaOf_add (hnodes : nodes.Pairwise (· < ·)) (hab : a ≤ b) (hbc : b ≤ c)
    (hg : ∀ l m r, l < m → m < r → Free nodes l r → g l m + g m r = g l r) :
    areaOf g nodes a b + areaOf g nodes b c = areaOf g nodes a c := by
  rcases eq_or_lt_of_le hab with rfl | hab
  · rw [areaOf_self, zero_add]
  rcases eq_or_lt_of_le hbc with rfl | hbc
  · rw [areaOf_self, add_zero]
  unfold areaOf
  rw [if_pos hab, if_pos hbc, if_pos (hab.trans hbc)]
  exact pieceSum_add hnodes hab hbc fun l m r _ => hg l m r

theorem areaOf_nonneg (hnodes : nodes.Pairwise (· < ·)) (hg : ∀ l r, a ≤ l → l < r → r ≤ b → 0 ≤ g l r) :
    0 ≤ areaOf g nodes a b := by
  unfold areaOf
  split
  · rename_i hab
    exact pieceSum_nonneg hnodes hab hg
  · exact le_rfl

theorem foldl_eq_pieceSum (g : α → α → α) (nodes : List α) (a b : α) :
    (pieces nodes a b).foldl (fun total p => total + g p.1 p.2) 0 = pieceSum g nodes a b := by
  unfold pieceSum
  rw [List.sum_eq_foldl, List.foldl_map]

end

/-! ### Linear areas -/

variable {k : Knots α} {a b c l m r : α}

theorem Knots.interior_pairwise (k : Knots α) : k.interior.Pairwise (· < ·) :=
  ((isIncreasing_iff.mp k.increasing).sublist (List.tail_sublist _)).sublist (List.dropLast_sublist _)

theorem Knots.x_mem_interior {i : Nat} (hi : i + 2 < k.xs.length) : k.x (i + 1) ∈ k.interior := by
  refine List.mem_iff_getElem?.mpr ⟨i, ?_⟩
  unfold interior
  rw [List.getElem?_dropLast, if_pos (by rw [List.length_tail]; omega), List.getElem?_tail, x,
    List.getD_eq_getElem _ _ (by omega), List.getElem?_eq_getElem]

/-- Up to the next inner node the segment that answers on the left encloses. -/
theorem Knots.encloses_of_free (hfree : Free k.interior l r) {t : α} (hlt : l ≤ t) (htr : t ≤ r) :
    k.segment l + 1 < k.xs.length ∧ (k.segment l = 0 ∨ k.x (k.segment l) ≤ t) ∧
      (k.segment l + 2 = k.xs.length ∨ t ≤ k.x (k.segment l + 1)) := by
  obtain ⟨hi, hleft, hright⟩ := k.segment_spec l
  refine ⟨hi, hleft.imp_right (·.trans hlt), ?_⟩
  -- The segment that answers on the left ends at an inner node, which is not before `r`, or at the last one.
  by_cases hlast : k.segment l + 2 = k.xs.length
  · exact .inl hlast
  · have hnode := x_mem_interior (k := k) (show k.segment l + 2 < k.xs.length by omega)
    have hend : r ≤ k.x (k.segment l + 1) := by
      by_contra hbefore
      exact hfree _ hnode ⟨hright.resolve_left hlast, not_le.mp hbefore⟩
    exact .inr (htr.trans hend)

/-- Between two points without an inner node between them one line answers. -/
theorem Knots.line_of_free (hfree : Free k.interior l r) (z : Nat → α) {t : α} (hlt : l ≤ t) (htr : t ≤ r) :
    line k.x z (k.segment t) t = line k.x z (k.segment l) t := by
  obtain ⟨hi, hleft, hright⟩ := encloses_of_free hfree hlt htr
  exact line_of_encloses hi hleft hright z

namespace Linear

/-- The area of a trapezoid. -/
def trapezoid (k : Knots α) (l r : α) : α := 0.5 * (value k l + value k r) * (r - l)

theorem area_eq (k : Knots α) (a b : α) : area k a b = areaOf (trapezoid k) k.interior a b := by
  unfold area areaOf
  rw [← foldl_eq_pieceSum]
  rfl

theorem integral_self (k : Knots α) (a : α) : integral k a a = 0 := by
  unfold integral
  rw [if_pos le_rfl, area_eq, areaOf_self, mul_zero]

variable [ExactArithmetic α]

theorem trapezoid_add (hlm : l < m) (hmr : m < r) (hfree : Free k.interior l r) :
    trapezoid k l m + trapezoid k m r = trapezoid k l r := by
  have hline {t : α} (hl : l ≤ t) (hr : t ≤ r) : value k t = Knots.line k.x k.y (k.segment l) t :=
    Knots.line_of_free hfree k.y hl hr
  unfold trapezoid
  rw [hline le_rfl (hlm.trans hmr).le, hline hlm.le hmr.le, hline (hlm.trans hmr).le le_rfl, ExactArithmetic.half_eq]
  unfold Knots.line
  ring

theorem area_add (hab : a ≤ b) (hbc : b ≤ c) : area k a b + area k b c = area k a c := by
  rw [area_eq, area_eq, area_eq]
  exact areaOf_add k.interior_pairwise hab hbc fun _ _ _ => trapezoid_add

theorem area_nonneg (hy : ∀ i < k.xs.length, 0 ≤ k.y i) (ha : k.x 0 ≤ a) (hb : b ≤ k.x k.last) : 0 ≤ area k a b := by
  rw [area_eq]
  refine areaOf_nonneg k.interior_pairwise fun l r hl hlr hr => ?_
  have hleft : 0 ≤ value k l := (connects k).le_of_le hy (ha.trans hl) ((hlr.le.trans hr).trans hb)
  have hright : 0 ≤ value k r := (connects k).le_of_le hy ((ha.trans hl).trans hlr.le) (hr.trans hb)
  have hwidth : 0 ≤ r - l := sub_nonneg.mpr hlr.le
  unfold trapezoid
  rw [ExactArithmetic.half_eq]
  positivity

/-- Over values that are not negative the integral from time zero grows from zero on. -/
theorem integral_monotoneOn (hy : ∀ i < k.xs.length, 0 ≤ k.y i) (hstart : k.x 0 = 0) :
    MonotoneOn (integral k 0) (Set.Icc 0 (k.x k.last)) := by
  intro s hs t ht hst
  unfold integral
  rw [if_pos hs.1, if_pos ht.1, one_mul, one_mul, ← area_add hs.1 hst]
  exact le_add_of_nonneg_right (area_nonneg hy (hstart.le.trans hs.1) ht.2)

end Linear

/-! ### Backward-flat areas -/

namespace BackwardFlat

/-- The area of a rectangle. -/
def rectangle (k : Knots α) (l r : α) : α := k.y (nodeAfter k l) * (r - l)

theorem area_eq (k : Knots α) (a b : α) : area k a b = areaOf (rectangle k) k.xs a b := by
  unfold area areaOf
  rw [← foldl_eq_pieceSum]
  rfl

theorem integral_self (k : Knots α) (a : α) : integral k a a = 0 := by
  unfold integral
  rw [if_pos le_rfl, area_eq, areaOf_self, mul_zero]

theorem findIdx_congr {β : Type} {xs : List β} {p q : β → Bool} (h : ∀ x ∈ xs, p x = q x) :
    xs.findIdx p = xs.findIdx q := by
  induction xs with
  | nil => rfl
  | cons x rest ih =>
    rw [List.findIdx_cons, List.findIdx_cons, h x List.mem_cons_self, ih fun y hy => h y (List.mem_cons_of_mem x hy)]

/-- Up to the next node the same node comes next. -/
theorem nodeAfter_eq (hlm : l < m) (hmr : m < r) (hfree : Free k.xs l r) : nodeAfter k m = nodeAfter k l := by
  have hsame : ∀ node ∈ k.xs, (!decide (node ≤ m)) = !decide (node ≤ l) := by
    intro node hnode
    by_cases hl : node ≤ l
    · rw [decide_eq_true hl, decide_eq_true (hl.trans hlm.le)]
    · have hm : ¬node ≤ m := fun hm => hfree node hnode ⟨not_le.mp hl, hm.trans_lt hmr⟩
      rw [decide_eq_false hl, decide_eq_false hm]
  unfold nodeAfter
  rw [findIdx_congr hsame]

theorem rectangle_add (hlm : l < m) (hmr : m < r) (hfree : Free k.xs l r) :
    rectangle k l m + rectangle k m r = rectangle k l r := by
  unfold rectangle
  rw [nodeAfter_eq hlm hmr hfree]
  ring

theorem area_add (hab : a ≤ b) (hbc : b ≤ c) : area k a b + area k b c = area k a c := by
  rw [area_eq, area_eq, area_eq]
  exact areaOf_add (isIncreasing_iff.mp k.increasing) hab hbc fun _ _ _ => rectangle_add

theorem area_nonneg (hy : ∀ i < k.xs.length, 0 ≤ k.y i) : 0 ≤ area k a b := by
  rw [area_eq]
  refine areaOf_nonneg (isIncreasing_iff.mp k.increasing) fun l r _ hlr _ => ?_
  have hnode : nodeAfter k l < k.xs.length := (min_le_right _ _).trans_lt k.last_lt
  exact mul_nonneg (hy _ hnode) (sub_nonneg.mpr hlr.le)

theorem integral_monotoneOn (hy : ∀ i < k.xs.length, 0 ≤ k.y i) : MonotoneOn (integral k 0) (Set.Ici 0) := by
  intro s hs t ht hst
  unfold integral
  rw [if_pos (Set.mem_Ici.mp hs), if_pos (Set.mem_Ici.mp ht), one_mul, one_mul, ← area_add (Set.mem_Ici.mp hs) hst]
  exact le_add_of_nonneg_right (area_nonneg hy)

end BackwardFlat

end TermStructure
