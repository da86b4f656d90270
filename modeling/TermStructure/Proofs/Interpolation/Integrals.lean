import Mathlib.Tactic.ComputeDegree
import TermStructure.Proofs.Interpolation.Area
import TermStructure.Proofs.Interpolation.Curvature

/-!
# Integrals

The integrals of the linear and the backward-flat method and of the spline are areas, negated if the limits are
reversed, so they add up whatever the order of the limits. Where no node lies between the limits they are exact, and a
walk from node to node ends with the area.
-/

namespace TermStructure
open Polynomial

variable {α : Type} [ScalarField α]

/-! ### Limits in any order -/

section
variable {area : α → α → α} {a b c : α}

/-- An area from `a` to `b`, negated if the limits are reversed. -/
def oriented (area : α → α → α) (a b : α) : α := if a ≤ b then area a b else -area b a

theorem oriented_of_le (h : a ≤ b) : oriented area a b = area a b := if_pos h

theorem oriented_of_ge (hself : ∀ x, area x x = 0) (h : b ≤ a) : oriented area a b = -area b a := by
  rcases eq_or_lt_of_le h with rfl | h
  · rw [oriented_of_le le_rfl, hself, neg_zero]
  · exact if_neg (not_le.mpr h)

theorem oriented_swap (hself : ∀ x, area x x = 0) (a b : α) : oriented area b a = -oriented area a b := by
  rcases le_total a b with h | h
  · rw [oriented_of_le h, oriented_of_ge hself h]
  · rw [oriented_of_le h, oriented_of_ge hself h, neg_neg]

/-- Areas that add up from left to right add up in any order. -/
theorem oriented_add (hself : ∀ x, area x x = 0)
    (hadd : ∀ {x y z}, x ≤ y → y ≤ z → area x y + area y z = area x z) (a b c : α) :
    oriented area a b + oriented area b c = oriented area a c := by
  -- Each of the three is the difference of two areas from a point before all limits.
  have hfrom {x y z : α} (hxy : x ≤ y) (hyz : y ≤ z) : oriented area y z = area x z - area x y := by
    rw [oriented_of_le hyz, ← hadd hxy hyz, add_sub_cancel_left]
  have hto {x y z : α} (hxy : x ≤ y) (hyz : y ≤ z) : oriented area z y = area x y - area x z := by
    rw [oriented_swap hself y z, hfrom hxy hyz, neg_sub]
  have hany {x y z : α} (hxy : x ≤ y) (hxz : x ≤ z) : oriented area y z = area x z - area x y :=
    (le_total y z).elim (hfrom hxy) (hto hxz)
  obtain ⟨least, ha, hb, hc⟩ : ∃ x, x ≤ a ∧ x ≤ b ∧ x ≤ c :=
    ⟨min a (min b c), min_le_left _ _, (min_le_right _ _).trans (min_le_left _ _),
      (min_le_right _ _).trans (min_le_right _ _)⟩
  rw [hany ha hb, hany hb hc, hany ha hc]
  ring

end

theorem oriented_areaOf_add {g : α → α → α} {nodes : List α} (hnodes : nodes.Pairwise (· < ·))
    (hg : ∀ l m r, l < m → m < r → Free nodes l r → g l m + g m r = g l r) (a b c : α) :
    oriented (areaOf g nodes) a b + oriented (areaOf g nodes) b c = oriented (areaOf g nodes) a c :=
  oriented_add (areaOf_self g nodes) (fun hxy hyz => areaOf_add hnodes hxy hyz hg) a b c

/-! ### Walks -/

section
variable {g : α → α → α} {stop : α → α} {nodes : List α} {a b l s : α}

/-- A walk up to `final` that stops where it is told to and adds what each step contributes. -/
inductive Walks (g : α → α → α) (stop : α → α) (final : α) : α → α → α → Prop
  | arrived {left total : α} : ¬left < final → Walks g stop final left total total
  | onward {left total result : α} : left < final →
      Walks g stop final (stop left) (total + g left (stop left)) result → Walks g stop final left total result

/-- Where a walk that is at `l` stops next: at `b`, or at a node before with no other node on the way. -/
structure IsStop (nodes : List α) (l b s : α) : Prop where
  onward : l < s
  le : s ≤ b
  node : s = b ∨ s ∈ nodes
  free : Free nodes l s

theorem IsStop.tail {x : α} {rest : List α} (h : IsStop (x :: rest) l b s) (hx : x ≤ l) : IsStop rest l b s where
  onward := h.onward
  le := h.le
  node := h.node.imp_right fun hs => (List.mem_cons.mp hs).resolve_left fun heq => (h.onward.trans_le heq.le).not_ge hx
  free y hy := h.free y (List.mem_cons_of_mem x hy)

theorem IsStop.pieces_eq (hnodes : nodes.Pairwise (· < ·)) (h : IsStop nodes a b s) (hsb : s < b) :
    pieces nodes a b = (a, s) :: pieces nodes s b := by
  induction nodes with
  | nil => exact absurd (h.node.resolve_left hsb.ne) List.not_mem_nil
  | cons x rest ih =>
    obtain ⟨hx, hrest⟩ := List.pairwise_cons.mp hnodes
    rcases le_or_gt x a with hxa | hax
    · rw [pieces_cons_outside (fun hin => hin.1.not_ge hxa),
        pieces_cons_outside (fun hin => (h.onward.trans hin.1).not_ge hxa)]
      exact ih hrest (h.tail hxa)
    · -- The first node after `a` is where the walk stops.
      have hsx : s ≤ x := by
        by_contra hlater
        exact h.free x List.mem_cons_self ⟨hax, not_le.mp hlater⟩
      obtain rfl : s = x := by
        rcases List.mem_cons.mp (h.node.resolve_left hsb.ne) with heq | hs
        · exact heq
        · exact absurd (hx s hs) hsx.not_gt
      rw [pieces_cons_inside hx hax hsb, pieces_cons_outside (fun hin => hin.1.ne rfl)]

theorem walks_pieces (hnodes : nodes.Pairwise (· < ·)) (hstop : ∀ l, l < b → IsStop nodes l b (stop l)) (hab : a < b)
    (total : α) : Walks g stop b a total (total + pieceSum g nodes a b) := by
  generalize hpieces : pieces nodes a b = parts
  induction parts generalizing a total with
  | nil => exact absurd (congrArg List.length hpieces) (by simp [pieces])
  | cons first parts ih =>
    have hs := hstop a hab
    refine .onward hab ?_
    rcases eq_or_lt_of_le hs.le with heq | hsb
    · have hlast : pieceSum g nodes a b = g a (stop a) := by
        rw [heq]
        exact pieceSum_of_free (heq ▸ hs.free)
      rw [hlast]
      exact .arrived heq.not_lt
    · have hsplit := hs.pieces_eq hnodes hsb
      have hsum : pieceSum g nodes a b = g a (stop a) + pieceSum g nodes (stop a) b := by
        unfold pieceSum
        rw [hsplit, List.map_cons, List.sum_cons]
      rw [hsum, ← add_assoc]
      exact ih hsb _ (List.cons_eq_cons.mp (hsplit.symm.trans hpieces)).2

/-- A walk along the nodes ends, and it ends with the area. -/
theorem walks_areaOf (hnodes : nodes.Pairwise (· < ·)) (hstop : ∀ l, l < b → IsStop nodes l b (stop l)) (a : α) :
    Walks g stop b a 0 (areaOf g nodes a b) := by
  unfold areaOf
  split
  · rename_i hab
    have hwalk := walks_pieces (g := g) hnodes hstop hab 0
    rwa [zero_add] at hwalk
  · rename_i hab
    exact .arrived hab

end

/-! ### Antiderivatives -/

section
variable {f : α → α} {a b : α}

/-- What a function given by a polynomial between `a` and `b` integrates to. -/
def IsIntegral (f : α → α) (a b area : α) : Prop :=
  ∃ Q : α[X], (∀ t, a < t → t < b → f t = Q.derivative.eval t) ∧ area = Q.eval b - Q.eval a

noncomputable def antiderivative (p : α[X]) : α[X] :=
  ∑ i ∈ Finset.range (p.natDegree + 1), C (p.coeff i / (i + 1)) * X ^ (i + 1)

theorem derivative_antiderivative (p : α[X]) : (antiderivative p).derivative = p := by
  unfold antiderivative
  rw [derivative_sum]
  conv_rhs => rw [p.as_sum_range_C_mul_X_pow]
  refine Finset.sum_congr rfl fun i _ => ?_
  have hi : (i : α) + 1 ≠ 0 := Nat.cast_add_one_ne_zero i
  rw [derivative_C_mul_X_pow, Nat.add_sub_cancel, Nat.cast_add_one, div_mul_cancel₀ _ hi]

theorem natDegree_le_of_derivative (Q : α[X]) : Q.natDegree ≤ Q.derivative.natDegree + 1 := by
  rcases Nat.eq_zero_or_pos Q.natDegree with hzero | hpos
  · omega
  · have hdegree := natDegree_eq_of_degree_eq_some (degree_derivative hpos.ne')
    omega

end

/-! ### Simpson's rule -/

namespace Simpson

/-- The points between the ends at which the rule reads the function. -/
def sample (a b : α) (i : Nat) : α := a + (b - a) / 8 * (i : α)

theorem sample_mem {a b : α} (hab : a ≤ b) {i : Nat} (hi : i ≤ 8) : a ≤ sample a b i ∧ sample a b i ≤ b := by
  have hi : (i : α) ≤ 8 := by exact_mod_cast hi
  have hstep : 0 ≤ (b - a) / 8 := div_nonneg (sub_nonneg.mpr hab) (by norm_num)
  have hle := mul_le_mul_of_nonneg_left hi hstep
  unfold sample
  constructor
  · have := mul_nonneg hstep (Nat.cast_nonneg (α := α) i)
    linarith
  · linarith

variable [ExactArithmetic α] {f g : α → α} {a b : α}

theorem rule_eq (f : α → α) (a b : α) : rule f a b =
    (b - a) / 8 / 3 * (f a + (4 * f (sample a b 1) + (2 * f (sample a b 2) + (4 * f (sample a b 3) + (2 * f (sample a b 4)
      + (4 * f (sample a b 5) + (2 * f (sample a b 6) + 4 * f (sample a b 7))))))) + f b) := by
  have hrange : List.range' 1 (parts - 1) = [1, 2, 3, 4, 5, 6, 7] := rfl
  have hparts : (parts : α) = 8 := Nat.cast_ofNat
  unfold rule sample
  dsimp only
  rw [Scalar.sum_eq_sum, hrange, hparts, ExactArithmetic.four_eq, ExactArithmetic.two_eq, ExactArithmetic.three_eq]
  simp

theorem rule_self (f : α → α) (a : α) : rule f a a = 0 := by
  rw [rule_eq, sub_self, zero_div, zero_div, zero_mul]

/-- The rule reads the function between the ends only. -/
theorem rule_congr (hab : a ≤ b) (hfg : ∀ t, a ≤ t → t ≤ b → f t = g t) : rule f a b = rule g a b := by
  have hsample {i : Nat} (hi : i ≤ 8) : f (sample a b i) = g (sample a b i) :=
    hfg _ (sample_mem hab hi).1 (sample_mem hab hi).2
  rw [rule_eq, rule_eq, hfg a le_rfl hab, hfg b hab le_rfl, hsample (by decide), hsample (by decide),
    hsample (by decide), hsample (by decide), hsample (by decide), hsample (by decide), hsample (by decide)]

/-- The rule is exact for cubics. -/
theorem rule_derivative {Q : α[X]} (hQ : Q.natDegree ≤ 4) (a b : α) :
    rule (fun t => Q.derivative.eval t) a b = Q.eval b - Q.eval a := by
  obtain ⟨c, hc⟩ : ∃ c : ℕ → α, Q = C (c 0) + C (c 1) * X + C (c 2) * X ^ 2 + C (c 3) * X ^ 3 + C (c 4) * X ^ 4 := by
    refine ⟨Q.coeff, ?_⟩
    conv_lhs => rw [Q.as_sum_range_C_mul_X_pow' (Nat.lt_succ_of_le hQ)]
    simp [Finset.sum_range_succ]
  have hderivative (t : α) : Q.derivative.eval t = c 1 + 2 * c 2 * t + 3 * c 3 * t ^ 2 + 4 * c 4 * t ^ 3 := by
    rw [hc]
    simp
    ring
  simp only [rule_eq, hderivative]
  rw [hc]
  simp [sample]
  ring

theorem integral_eq (f : α → α) (nodes : List α) (a b : α) :
    integral f nodes a b = oriented (areaOf (rule f) nodes) a b := by
  have htotal {a b : α} (hab : a ≤ b) : total f nodes a b = areaOf (rule f) nodes a b := by
    have hsum : total f nodes a b = pieceSum (rule f) nodes a b := Scalar.sum_eq_sum _
    rcases eq_or_lt_of_le hab with rfl | hlt
    · rw [hsum, areaOf_self, pieceSum_of_free fun x _ hin => hin.1.not_gt hin.2, rule_self]
    · rw [hsum, areaOf, if_pos hlt]
  unfold integral
  split
  · rename_i hba
    rw [htotal hba.le, oriented_of_ge (areaOf_self _ _) hba.le]
  · rename_i hab
    rw [htotal (not_lt.mp hab), oriented_of_le (not_lt.mp hab)]

end Simpson

/-! ### The methods -/

section
variable {k : Knots α} {a b c l r t : α} {i : Nat}

theorem areaOf_of_free {g : α → α → α} {nodes : List α} (hself : g a a = 0) (hab : a ≤ b) (hfree : Free nodes a b) :
    areaOf g nodes a b = g a b := by
  rcases eq_or_lt_of_le hab with rfl | hab
  · rw [areaOf_self, hself]
  · rw [areaOf, if_pos hab, pieceSum_of_free hfree]

theorem Knots.mem_interior (h : t ∈ k.interior) : ∃ i, i + 2 < k.xs.length ∧ t = k.x (i + 1) := by
  unfold interior at h
  obtain ⟨i, hi, rfl⟩ := List.mem_iff_getElem.mp h
  rw [List.length_dropLast, List.length_tail] at hi
  refine ⟨i, by omega, ?_⟩
  rw [x, List.getD_eq_getElem _ _ (by omega), List.getElem_dropLast, List.getElem_tail]

theorem Knots.free_interior (h : Free k.xs a b) : Free k.interior a b :=
  fun x hx => h x (List.mem_of_mem_tail (List.mem_of_mem_dropLast hx))

/-- No inner node comes before the end of the segment that answers on the left. -/
theorem Knots.free_of_segment (hr : k.segment l + 2 = k.xs.length ∨ r ≤ k.x (k.segment l + 1)) :
    Free k.interior l r := by
  rintro t ht ⟨hlt, htr⟩
  obtain ⟨i, hi, rfl⟩ := mem_interior ht
  obtain ⟨hseg, hleft, -⟩ := k.segment_spec l
  have hlater : k.segment l ≤ i := by
    by_contra hbefore
    have hstart := hleft.resolve_left (by omega)
    exact absurd ((k.x_le (show i + 1 ≤ k.segment l by omega) (by omega)).trans hstart) hlt.not_ge
  have hend : r ≤ k.x (k.segment l + 1) := hr.resolve_left (by omega)
  exact absurd (hend.trans (k.x_le (Nat.succ_le_succ hlater) (by omega))) htr.not_ge

namespace Linear

theorem trapezoid_self (k : Knots α) (a : α) : trapezoid k a a = 0 := by
  unfold trapezoid
  rw [sub_self, mul_zero]

theorem integral_eq (k : Knots α) (a b : α) :
    integral k a b = oriented (areaOf (trapezoid k) k.interior) a b := by
  unfold integral oriented
  rw [area_eq, area_eq, one_mul, neg_one_mul]

variable [ExactArithmetic α]

/-- A walk goes on to the end of the segment it is in; in the last segment, and where it gets there, to the limit. -/
def stop (k : Knots α) (b l : α) : α :=
  if k.segment l + 1 < k.last ∧ l < k.x (k.segment l + 1) then Scalar.smaller (k.x (k.segment l + 1)) b else b

theorem isStop (hlb : l < b) : IsStop k.interior l b (stop k b l) := by
  obtain ⟨hi, -, hright⟩ := k.segment_spec l
  unfold stop
  split
  · rename_i hinner
    obtain ⟨hinner, hnode⟩ := hinner
    rw [ExactArithmetic.smaller_eq]
    have hmem : k.x (k.segment l + 1) ∈ k.interior := Knots.x_mem_interior (by unfold Knots.last at hinner; omega)
    refine ⟨lt_min hnode hlb, min_le_right _ _, ?_, Knots.free_of_segment (.inr (min_le_left _ _))⟩
    rcases min_choice (k.x (k.segment l + 1)) b with hmin | hmin
    · rw [hmin]
      exact .inr hmem
    · exact .inl hmin
  · rename_i houter
    refine ⟨hlb, le_rfl, .inl rfl, Knots.free_of_segment (.inl ?_)⟩
    rcases hright with hlast | hright
    · exact hlast
    · have hlast : ¬k.segment l + 1 < k.last := fun hinner => houter ⟨hinner, hright⟩
      unfold Knots.last at hlast
      omega

theorem integral_add (k : Knots α) (a b c : α) : integral k a b + integral k b c = integral k a c := by
  simp only [integral_eq]
  exact oriented_areaOf_add k.interior_pairwise (fun _ _ _ => trapezoid_add) a b c

/-- Between neighbouring nodes the integral is the area of one trapezoid. -/
theorem integral_of_free (hab : a ≤ b) (hfree : Free k.xs a b) :
    integral k a b = (b - a) * (value k a + value k b) / 2 := by
  rw [integral_eq, oriented_of_le hab, areaOf_of_free (trapezoid_self k a) hab (Knots.free_interior hfree), trapezoid,
    ExactArithmetic.half_eq]
  ring

theorem isIntegral (hab : a ≤ b) (hfree : Free k.xs a b) : IsIntegral (value k) a b (integral k a b) := by
  have hline {t : α} (hat : a ≤ t) (htb : t ≤ b) : value k t = Knots.line k.x k.y (k.segment a) t :=
    Knots.line_of_free (Knots.free_interior hfree) k.y hat htb
  rw [integral_of_free hab hfree, hline le_rfl hab, hline hab le_rfl]
  unfold Knots.line at hline ⊢
  generalize k.segment a = i at hline ⊢
  generalize (k.y (i + 1) - k.y i) / (k.x (i + 1) - k.x i) = slope at hline ⊢
  refine ⟨C (k.y i) * X + C (slope / 2) * (X - C (k.x i)) ^ 2, fun t hat htb => ?_, ?_⟩
  · rw [hline hat.le htb.le]
    simp [derivative_pow]
    ring
  · simp
    ring

end Linear

namespace BackwardFlat

theorem integral_eq (k : Knots α) (a b : α) : integral k a b = oriented (areaOf (rectangle k) k.xs) a b := by
  unfold integral oriented
  rw [area_eq, area_eq, one_mul, neg_one_mul]

/-- A walk goes on to the first node that is further, and to the limit where there is none. -/
def stop (k : Knots α) (b l : α) : α :=
  let next := k.xs.findIdx fun node => !decide (node ≤ l)
  if next < k.xs.length then Scalar.smaller (k.x next) b else b

theorem isStop [ExactArithmetic α] (hlb : l < b) : IsStop k.xs l b (stop k b l) := by
  unfold stop
  dsimp only
  split
  · rename_i hnext
    have hafter : l < k.x (k.xs.findIdx fun node => !decide (node ≤ l)) := by
      rw [Knots.x, List.getD_eq_getElem _ _ hnext]
      simpa using List.findIdx_getElem (w := hnext)
    rw [ExactArithmetic.smaller_eq]
    refine ⟨lt_min hafter hlb, min_le_right _ _, ?_, ?_⟩
    · rcases min_choice (k.x (k.xs.findIdx fun node => !decide (node ≤ l))) b with hmin | hmin
      · right
        rw [hmin, Knots.x, List.getD_eq_getElem _ _ hnext]
        exact List.getElem_mem hnext
      · exact .inl hmin
    · rintro t ht ⟨hlt, hts⟩
      obtain ⟨j, hj, rfl⟩ := List.mem_iff_getElem.mp ht
      have hbefore : k.xs.findIdx (fun node => !decide (node ≤ l)) ≤ j := by
        by_contra hbefore
        have hnot := List.not_of_lt_findIdx (not_le.mp hbefore)
        exact hlt.not_ge (by simpa using hnot)
      have hle := k.x_le hbefore hj
      rw [Knots.x, Knots.x, List.getD_eq_getElem _ _ hj] at hle
      exact (hts.trans_le (min_le_left _ _)).not_ge hle
  · rename_i hnone
    refine ⟨hlb, le_rfl, .inl rfl, fun t ht hin => hnone ?_⟩
    exact List.findIdx_lt_length_of_exists ⟨t, ht, by simpa using hin.1⟩

theorem rectangle_self (k : Knots α) (a : α) : rectangle k a a = 0 := by
  unfold rectangle
  rw [sub_self, mul_zero]

theorem integral_add (k : Knots α) (a b c : α) : integral k a b + integral k b c = integral k a c := by
  simp only [integral_eq]
  exact oriented_areaOf_add (isIncreasing_iff.mp k.increasing) (fun _ _ _ => rectangle_add) a b c

/-- Up to the next node the node that comes next answers. -/
theorem value_of_free (hfree : Free k.xs a b) (hat : a < t) (htb : t ≤ b) : value k t = k.y (nodeAfter k a) := by
  have hsame : ∀ node ∈ k.xs, (!decide (node < t)) = !decide (node ≤ a) := by
    intro node hnode
    by_cases ha : node ≤ a
    · rw [decide_eq_true ha, decide_eq_true (ha.trans_lt hat)]
    · have ht : ¬node < t := fun ht => hfree node hnode ⟨not_le.mp ha, ht.trans_le htb⟩
      rw [decide_eq_false ha, decide_eq_false ht]
  unfold value nodeFor nodeAfter
  rw [findIdx_congr hsame]

/-- Between neighbouring nodes the integral is the area of one rectangle. -/
theorem integral_of_free (hab : a ≤ b) (hfree : Free k.xs a b) : integral k a b = (b - a) * value k b := by
  rw [integral_eq, oriented_of_le hab, areaOf_of_free (rectangle_self k a) hab hfree, rectangle]
  rcases eq_or_lt_of_le hab with rfl | hab
  · rw [sub_self, mul_zero, zero_mul]
  · rw [value_of_free hfree hab le_rfl, mul_comm]

theorem isIntegral (hab : a ≤ b) (hfree : Free k.xs a b) : IsIntegral (value k) a b (integral k a b) := by
  refine ⟨C (k.y (nodeAfter k a)) * X, fun t hat htb => ?_, ?_⟩
  · rw [value_of_free hfree hat htb.le]
    simp
  · rw [integral_eq, oriented_of_le hab, areaOf_of_free (rectangle_self k a) hab hfree, rectangle]
    simp
    ring

end BackwardFlat

namespace CubicSpline

theorem natDegree_cubic_le (k : Knots α) (m : List α) (i : Nat) : (cubic k m i).natDegree ≤ 3 := by
  unfold cubic
  dsimp only
  compute_degree!

variable [ExactArithmetic α] {m : List α}

/-- Between neighbouring nodes one cubic answers. -/
theorem value_of_free (hfree : Free k.xs a b) (hat : a ≤ t) (htb : t ≤ b) :
    value k m t = (cubic k m (k.segment a)).eval t := by
  obtain ⟨hi, hleft, hright⟩ := Knots.encloses_of_free (Knots.free_interior hfree) hat htb
  rw [value_eq_eval]
  refine Knots.answer_of_encloses hi hleft hright (f := fun i => (cubic k m i).eval t) fun j hj ht => ?_
  have hwidth : k.width j ≠ 0 := (sub_pos.mpr (k.x_lt (Nat.lt_succ_self j) (by omega))).ne'
  have hwidth' : k.width (j + 1) ≠ 0 := (sub_pos.mpr (k.x_lt (Nat.lt_succ_self (j + 1)) hj)).ne'
  rw [ht, (eval_cubic_ends hwidth).2, (eval_cubic_ends hwidth').1]

theorem rule_of_free (hfree : Free k.xs l r) (hla : l ≤ a) (hab : a ≤ b) (hbr : b ≤ r) {Q : α[X]}
    (hQ : Q.derivative = cubic k m (k.segment l)) : Simpson.rule (value k m) a b = Q.eval b - Q.eval a := by
  have hdegree : Q.natDegree ≤ 4 :=
    (natDegree_le_of_derivative Q).trans (Nat.succ_le_succ (hQ ▸ natDegree_cubic_le k m _))
  rw [← Simpson.rule_derivative hdegree, hQ]
  exact Simpson.rule_congr hab fun t hat htb => value_of_free hfree (hla.trans hat) (htb.trans hbr)

theorem rule_add (hlt : l < t) (htr : t < r) (hfree : Free k.xs l r) :
    Simpson.rule (value k m) l t + Simpson.rule (value k m) t r = Simpson.rule (value k m) l r := by
  have hQ := derivative_antiderivative (cubic k m (k.segment l))
  rw [rule_of_free hfree le_rfl hlt.le htr.le hQ, rule_of_free hfree hlt.le htr.le le_rfl hQ,
    rule_of_free hfree le_rfl (hlt.trans htr).le le_rfl hQ]
  ring

theorem integral_eq (k : Knots α) (a b : α) :
    (interpolant k).integral a b = oriented (areaOf (Simpson.rule (value k (curvatures k))) k.xs) a b :=
  Simpson.integral_eq _ _ a b

theorem integral_add (k : Knots α) (a b c : α) :
    (interpolant k).integral a b + (interpolant k).integral b c = (interpolant k).integral a c := by
  simp only [integral_eq]
  exact oriented_areaOf_add (isIncreasing_iff.mp k.increasing) (fun _ _ _ => rule_add) a b c

/-- Between neighbouring nodes the integral is what any antiderivative of the cubic grows by. -/
theorem integral_of_free (hab : a ≤ b) (hfree : Free k.xs a b) {Q : α[X]}
    (hQ : Q.derivative = cubic k (curvatures k) (k.segment a)) :
    (interpolant k).integral a b = Q.eval b - Q.eval a := by
  rw [integral_eq, oriented_of_le hab, areaOf_of_free (Simpson.rule_self _ a) hab hfree,
    rule_of_free hfree le_rfl hab le_rfl hQ]

theorem isIntegral (hab : a ≤ b) (hfree : Free k.xs a b) :
    IsIntegral (interpolant k).value a b ((interpolant k).integral a b) := by
  have hQ := derivative_antiderivative (cubic k (curvatures k) (k.segment a))
  refine ⟨_, fun t hat htb => ?_, integral_of_free hab hfree hQ⟩
  rw [hQ]
  exact value_of_free hfree hat.le htb.le

end CubicSpline

/-- The methods other than the log-linear one take any nodes that increase. -/
theorem Method.build_interpolant [ExactScalar α] {m : Method} (hm : m ≠ .logLinear) {xs ys : List α}
    (two_le : 2 ≤ xs.length) (length_eq : xs.length = ys.length) (increasing : xs.Pairwise (· < ·)) :
    ∃ k : Knots α, k.xs = xs ∧ k.ys = ys ∧ m.build xs ys = .ok (m.interpolant k) := by
  obtain ⟨f, hf⟩ := build_of_finite (m := m) two_le length_eq increasing (fun x _ => ExactScalar.isFinite_eq x)
    fun h => absurd h hm
  obtain ⟨k, hxs, hys, rfl, -⟩ := exists_knots hf
  exact ⟨k, hxs, hys, hf⟩

/-- A point that may be read: any, where extrapolation is allowed, or else one that is not outside of the nodes. -/
def Knots.Readable (k : Knots α) (extrapolates : Bool) (t : α) : Prop :=
  extrapolates = true ∨ k.x 0 ≤ t ∧ t ≤ k.x k.last

theorem Interpolant.checkRange_of_readable [ExactScalar α] {f : Interpolant α} {extrapolates : Bool} (hxs : f.xs = k.xs)
    (ht : k.Readable extrapolates t) : f.checkRange t extrapolates = .ok () := by
  have hlow : f.low = k.x 0 := by
    rw [low, hxs, Knots.x]
    cases k.xs <;> rfl
  have hhigh : f.high = k.x k.last := by rw [high, hxs, Knots.x_last]
  unfold checkRange inRange
  rw [ExactScalar.isNaN_eq, if_neg Bool.false_ne_true, hlow, hhigh]
  rcases ht with rfl | ⟨hleft, hright⟩
  · rfl
  · rw [decide_eq_true hleft, decide_eq_true hright, Bool.and_true, Bool.or_true, if_pos rfl]

theorem Interpolant.integrate_of_readable [ExactScalar α] {f : Interpolant α} {extrapolates : Bool} (hxs : f.xs = k.xs)
    (ha : k.Readable extrapolates a) (hb : k.Readable extrapolates b) :
    f.integrate a b extrapolates = .ok (f.integral a b) := by
  unfold integrate
  rw [checkRange_of_readable hxs ha, checkRange_of_readable hxs hb]
  rfl

theorem Method.interpolant_xs (m : Method) (k : Knots α) : (m.interpolant k).xs = k.xs := by
  cases m <;> rfl

/-- The integral of a method adds up in any order of the limits, unless it is one of exponentials. -/
theorem Method.integral_add [ExactArithmetic α] {m : Method} (hm : m ≠ .logLinear) (k : Knots α) (a b c : α) :
    (m.interpolant k).integral a b + (m.interpolant k).integral b c = (m.interpolant k).integral a c := by
  cases m with
  | linear => exact Linear.integral_add k a b c
  | logLinear => exact absurd rfl hm
  | backwardFlat => exact BackwardFlat.integral_add k a b c
  | cubicSpline => exact CubicSpline.integral_add k a b c

theorem Method.isIntegral [ExactArithmetic α] {m : Method} (hm : m ≠ .logLinear) (hab : a ≤ b)
    (hfree : Free k.xs a b) : IsIntegral (m.interpolant k).value a b ((m.interpolant k).integral a b) := by
  cases m with
  | linear => exact Linear.isIntegral hab hfree
  | logLinear => exact absurd rfl hm
  | backwardFlat => exact BackwardFlat.isIntegral hab hfree
  | cubicSpline => exact CubicSpline.isIntegral hab hfree

/-- Over nodes that increase, and between limits that may be read, the integrals of the linear and the backward-flat
    method and of the spline have an answer. They add up whatever the order of the limits, change their sign with it, and
    are exact between neighbouring nodes. A walk that adds trapezoids or rectangles from node to node ends, and it
    ends with the area. -/
theorem integrals_exact [ExactScalar α] {m : Method} (hm : m ≠ .logLinear) {xs ys : List α} (two_le : 2 ≤ xs.length)
    (length_eq : xs.length = ys.length) (increasing : xs.Pairwise (· < ·)) :
    ∃ k : Knots α, k.xs = xs ∧ k.ys = ys ∧ m.build xs ys = .ok (m.interpolant k) ∧
      (∀ extrapolates a b, k.Readable extrapolates a → k.Readable extrapolates b →
        (m.interpolant k).integrate a b extrapolates = .ok ((m.interpolant k).integral a b)) ∧
      (∀ a b c,
        (m.interpolant k).integral a b + (m.interpolant k).integral b c = (m.interpolant k).integral a c) ∧
      (∀ a b, (m.interpolant k).integral b a = -(m.interpolant k).integral a b) ∧
      (∀ a b, a ≤ b → Free xs a b → IsIntegral (m.interpolant k).value a b ((m.interpolant k).integral a b)) ∧
      (m = .linear →
        (∀ a b, Walks (Linear.trapezoid k) (Linear.stop k b) b a 0 (Linear.area k a b)) ∧
        ∀ a b, a ≤ b → Free xs a b →
          (m.interpolant k).integral a b =
            (b - a) * ((m.interpolant k).value a + (m.interpolant k).value b) / 2) ∧
      (m = .backwardFlat →
        (∀ a b, Walks (BackwardFlat.rectangle k) (BackwardFlat.stop k b) b a 0 (BackwardFlat.area k a b)) ∧
        ∀ a b, a ≤ b → Free xs a b → (m.interpolant k).integral a b = (b - a) * (m.interpolant k).value b) ∧
      (m = .cubicSpline → ∀ a b, a ≤ b → Free xs a b →
        (∀ t, a ≤ t → t ≤ b →
          (m.interpolant k).value t = (CubicSpline.cubic k (CubicSpline.curvatures k) (k.segment a)).eval t) ∧
        ∀ Q : α[X], Q.derivative = CubicSpline.cubic k (CubicSpline.curvatures k) (k.segment a) →
          (m.interpolant k).integral a b = Q.eval b - Q.eval a) := by
  obtain ⟨k, rfl, rfl, hbuild⟩ := Method.build_interpolant hm two_le length_eq increasing
  have hadd := Method.integral_add hm k
  refine ⟨k, rfl, rfl, hbuild, fun _ a b => Interpolant.integrate_of_readable (m.interpolant_xs k), hadd, fun a b => ?_,
    fun a b => Method.isIntegral hm, ?_, ?_, ?_⟩
  · have haround := hadd a b a
    have hself := hadd a a a
    linarith
  · rintro rfl
    refine ⟨fun a b => ?_, fun a b => Linear.integral_of_free⟩
    rw [Linear.area_eq]
    exact walks_areaOf k.interior_pairwise (fun l => Linear.isStop) a
  · rintro rfl
    refine ⟨fun a b => ?_, fun a b => BackwardFlat.integral_of_free⟩
    rw [BackwardFlat.area_eq]
    exact walks_areaOf increasing (fun l => BackwardFlat.isStop) a
  · rintro rfl a b hab hfree
    exact ⟨fun t => CubicSpline.value_of_free hfree, fun Q => CubicSpline.integral_of_free hab hfree⟩

/-- Three nodes whose line bends at the second. -/
def bentKnots : Knots ℚ := ⟨[0, 2, 3], [1, 4, 7], by decide, rfl, by decide +kernel, by decide +kernel⟩

/-- A linear integral from one segment into the next one and back. It is the sum of the areas before and after the node
    between them. -/
theorem integrals_exact_linear :
    ∃ f : Interpolant ℚ, Method.build .linear [0, 2, 3] [1, 4, 7] = .ok f ∧
      f.integrate 1 2 false = .ok (13 / 4) ∧ f.integrate 2 (5 / 2) false = .ok (19 / 8) ∧
      f.integrate 1 (5 / 2) false = .ok (45 / 8) ∧ f.integrate (5 / 2) 1 false = .ok (-45 / 8) := by
  have hlength : ([0, 2, 3] : List ℚ).length = ([1, 4, 7] : List ℚ).length := rfl
  obtain ⟨k, hxs, hys, hbuild, hreads, hadd, hswap, -, hlinear, -⟩ :=
    integrals_exact (m := .linear) (by decide) (by decide) hlength (by decide +kernel)
  obtain rfl : k = bentKnots := by
    cases k
    cases hxs
    cases hys
    rfl
  have hone : bentKnots.Readable false 1 := .inr (by decide +kernel)
  have htwo : bentKnots.Readable false 2 := .inr (by decide +kernel)
  have hend : bentKnots.Readable false (5 / 2) := .inr (by decide +kernel)
  have hbefore : (Method.linear.interpolant bentKnots).integral 1 2 = 13 / 4 := by
    rw [(hlinear rfl).2 1 2 (by norm_num) (by unfold Free; decide +kernel)]
    decide +kernel
  have hafter : (Method.linear.interpolant bentKnots).integral 2 (5 / 2) = 19 / 8 := by
    rw [(hlinear rfl).2 2 (5 / 2) (by norm_num) (by unfold Free; decide +kernel)]
    decide +kernel
  have hacross : (Method.linear.interpolant bentKnots).integral 1 (5 / 2) = 45 / 8 := by
    rw [← hadd 1 2 (5 / 2), hbefore, hafter]
    norm_num
  refine ⟨_, hbuild, ?_, ?_, ?_, ?_⟩
  · rw [hreads false 1 2 hone htwo, hbefore]
  · rw [hreads false 2 (5 / 2) htwo hend, hafter]
  · rw [hreads false 1 (5 / 2) hone hend, hacross]
  · rw [hreads false (5 / 2) 1 hend hone, hswap, hacross]
    norm_num

end

end TermStructure
