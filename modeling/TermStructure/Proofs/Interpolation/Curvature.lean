import Mathlib.Algebra.Polynomial.Derivative
import TermStructure.Proofs.Interpolation.Nodes

/-!
# Curvature

The second derivatives of a natural cubic spline at its nodes are the one solution of a tridiagonal system. The sweep
from the left writes each of them in terms of the next one, by a factor that stays between minus a half and zero; so no
pivot comes near zero, and going back from the right end undoes the sweep. With these second derivatives the cubics of
neighbouring segments meet without a kink.
-/

namespace TermStructure.CubicSpline
open Polynomial

/-! ### The sweep -/

section
variable {α : Type} [Scalar α]

/-- A step of the sweep: an inner node between its neighbours, after the row of the node before. -/
structure Elimination (α : Type) where
  previous : Row α
  left : α × α
  node : α × α
  right : α × α

namespace Elimination

def row (e : Elimination α) : Row α := eliminate e.previous e.left e.node e.right

def span (e : Elimination α) : α := e.right.1 - e.left.1

def share (e : Elimination α) : α := (e.node.1 - e.left.1) / e.span

def pivot (e : Elimination α) : α := e.share * e.previous.factor + 2.0

/-- By how much the slope changes at the node. -/
def bend (e : Elimination α) : α :=
  (e.right.2 - e.node.2) / (e.right.1 - e.node.1) - (e.node.2 - e.left.2) / (e.node.1 - e.left.1)

theorem row_eq (e : Elimination α) :
    e.row = ⟨(e.share - 1) / e.pivot, (6.0 * e.bend / e.span - e.share * e.previous.offset) / e.pivot⟩ := rfl

/-- None of the divisors of a step is zero. -/
structure DividesByNonzero (e : Elimination α) : Prop where
  left : e.node.1 - e.left.1 ≠ 0
  right : e.right.1 - e.node.1 ≠ 0
  span : e.span ≠ 0
  pivot : e.pivot ≠ 0

end Elimination

/-- The steps of a sweep. -/
def eliminations (previous : Row α) : List (α × α) → List (Elimination α)
  | left :: node :: right :: rest =>
    let e : Elimination α := ⟨previous, left, node, right⟩
    e :: eliminations e.row (node :: right :: rest)
  | _ => []

theorem sweep_eq_map (previous : Row α) (nodes : List (α × α)) :
    sweep previous nodes = (eliminations previous nodes).map Elimination.row := by
  fun_induction eliminations previous nodes with
  | case1 previous left node right rest e ih =>
    rw [sweep, List.map_cons, ← ih]
    rfl
  | case2 nodes previous h =>
    rw [sweep, List.map_nil]
    exact h

theorem length_eliminations (previous : Row α) (nodes : List (α × α)) :
    (eliminations previous nodes).length = nodes.length - 2 := by
  fun_induction eliminations previous nodes with
  | case1 previous left node right rest e ih =>
    rw [List.length_cons, ih]
    rfl
  | case2 nodes previous h =>
    match nodes, h with
    | [], _ => rfl
    | [_], _ => rfl
    | [_, _], _ => rfl
    | left :: node :: right :: rest, h => exact absurd rfl (h left node right rest)

theorem backSubstitute_cons (row : Row α) (rows : List (Row α)) :
    backSubstitute (row :: rows) =
      (row.factor * (backSubstitute rows).headD 0 + row.offset) :: backSubstitute rows := rfl

theorem length_backSubstitute (rows : List (Row α)) : (backSubstitute rows).length = rows.length + 1 := by
  induction rows with
  | nil => rfl
  | cons row rows ih => rw [backSubstitute_cons, List.length_cons, ih, List.length_cons]

end

/-! ### Pivots -/

variable {α : Type} [ScalarField α]

/-- The factor of a row lies between minus a half and zero. -/
structure Row.Damped (row : Row α) : Prop where
  half_le : -(1 / 2) ≤ row.factor
  le_zero : row.factor ≤ 0

theorem Row.damped_zero : Row.Damped (⟨0, 0⟩ : Row α) := ⟨by linarith [one_half_pos (α := α)], le_rfl⟩

namespace Elimination

variable [ExactArithmetic α] {e : Elimination α}

omit [ExactArithmetic α] in
theorem share_mem (hleft : e.left.1 < e.node.1) (hright : e.node.1 < e.right.1) : 0 < e.share ∧ e.share < 1 := by
  have hspan : 0 < e.span := sub_pos.mpr (hleft.trans hright)
  refine ⟨div_pos (sub_pos.mpr hleft) hspan, (div_lt_one hspan).mpr ?_⟩
  exact sub_lt_sub_right hright _

theorem pivot_eq (e : Elimination α) : e.pivot = e.share * e.previous.factor + 2 := by
  rw [pivot, ExactArithmetic.two_eq]

/-- After a factor between minus a half and zero the pivot is close to two, and the next factor is such a one again. -/
theorem damped_row (hprevious : e.previous.Damped) (hleft : e.left.1 < e.node.1) (hright : e.node.1 < e.right.1) :
    3 / 2 < e.pivot ∧ e.row.Damped := by
  obtain ⟨hpos, hone⟩ := share_mem hleft hright
  obtain ⟨hhalf, hzero⟩ := hprevious
  have hshare : e.share * -(1 / 2) ≤ e.share * e.previous.factor := mul_le_mul_of_nonneg_left hhalf hpos.le
  have hpivot : 2 - e.share / 2 ≤ e.pivot := by
    rw [pivot_eq]
    linarith
  have hlarge : 3 / 2 < e.pivot := by linarith
  have hpivot0 : 0 < e.pivot := by linarith
  refine ⟨hlarge, ?_, ?_⟩
  · rw [row_eq, le_div_iff₀ hpivot0]
    linarith
  · rw [row_eq]
    exact div_nonpos_of_nonpos_of_nonneg (by linarith) hpivot0.le

end Elimination

/-- No pivot of a sweep over nodes that increase comes near zero. -/
theorem pivots_large [ExactArithmetic α] {previous : Row α} {nodes : List (α × α)} (hprevious : previous.Damped)
    (hnodes : nodes.Pairwise fun p q => p.1 < q.1) :
    ∀ e ∈ eliminations previous nodes, 3 / 2 < e.pivot ∧ e.DividesByNonzero := by
  fun_induction eliminations previous nodes with
  | case1 previous left node right rest e ih =>
    obtain ⟨hleft, hrest⟩ := List.pairwise_cons.mp hnodes
    have hleft : e.left.1 < e.node.1 := hleft node List.mem_cons_self
    have hright : e.node.1 < e.right.1 := (List.pairwise_cons.mp hrest).1 right List.mem_cons_self
    obtain ⟨hpivot, hdamped⟩ := Elimination.damped_row (e := e) hprevious hleft hright
    intro e' he'
    rcases List.mem_cons.mp he' with rfl | he'
    · refine ⟨hpivot, (sub_pos.mpr hleft).ne', (sub_pos.mpr hright).ne', (sub_pos.mpr (hleft.trans hright)).ne', ?_⟩
      exact (lt_trans (by norm_num) hpivot).ne'
    · exact ih hdamped hrest e' he'
  | case2 => exact nofun

/-! ### The system -/

/-- The equation of an inner node: its second derivative and those of its neighbours account for the change of slope. -/
def Bends (left node right : α × α) (l c r : α) : Prop :=
  (node.1 - left.1) * l + (2 : Nat) * (right.1 - left.1) * c + (right.1 - node.1) * r =
    (6 : Nat) * ((right.2 - node.2) / (right.1 - node.1) - (node.2 - left.2) / (node.1 - left.1))

/-- If the row before holds, the equation of a node says the same as its row. -/
theorem Elimination.bends_iff [ExactArithmetic α] {e : Elimination α} (hdivides : e.DividesByNonzero) {l c r : α}
    (hl : l = e.previous.factor * c + e.previous.offset) :
    Bends e.left e.node e.right l c r ↔ c = e.row.factor * r + e.row.offset := by
  have hspan := hdivides.span
  have hscaled : c = e.row.factor * r + e.row.offset ↔
      e.share * l + 2 * c + (1 - e.share) * r = 6 * e.bend / e.span := by
    rw [row_eq, ExactArithmetic.six_eq, div_mul_eq_mul_div, ← add_div, eq_div_iff hdivides.pivot, pivot_eq, hl]
    constructor <;> intro h <;> linarith
  have hleft : e.share * e.span = e.node.1 - e.left.1 := div_mul_cancel₀ _ hspan
  have hright : (1 - e.share) * e.span = e.right.1 - e.node.1 := by
    rw [sub_mul, one_mul, hleft, span]
    ring
  rw [hscaled, eq_div_iff hspan, add_mul, add_mul, mul_right_comm e.share, hleft, mul_right_comm (1 - e.share), hright]
  unfold Bends
  rw [mul_right_comm 2]
  rfl

/-- The equations of all inner nodes of a list. -/
def Solves : List (α × α) → List α → Prop
  | left :: node :: right :: rest, l :: c :: r :: later =>
    Bends left node right l c r ∧ Solves (node :: right :: rest) (c :: r :: later)
  | _, _ => True

/-- If the row before holds at the first two entries, the equations and a last entry of zero say that the entries after
    the first are what going back along the sweep gives. -/
theorem solves_iff [ExactArithmetic α] {previous : Row α} {left node : α × α} {rest : List (α × α)} {l c : α}
    {later : List α} (hprevious : previous.Damped) (hnodes : (left :: node :: rest).Pairwise fun p q => p.1 < q.1)
    (hlength : later.length = rest.length) (hl : l = previous.factor * c + previous.offset) :
    Solves (left :: node :: rest) (l :: c :: later) ∧ (c :: later).getLastD 0 = 0 ↔
      c :: later = backSubstitute (sweep previous (left :: node :: rest)) := by
  induction rest generalizing previous left node l c later with
  | nil =>
    obtain rfl := List.length_eq_zero_iff.mp hlength
    exact ⟨fun h => congrArg (fun x => [x]) h.2, fun h => ⟨trivial, List.head_eq_of_cons_eq h⟩⟩
  | cons right rest ih =>
    obtain ⟨r, later, rfl⟩ := List.exists_cons_of_length_eq_add_one hlength
    obtain ⟨hleft, hrest⟩ := List.pairwise_cons.mp hnodes
    have hright : node.1 < right.1 := (List.pairwise_cons.mp hrest).1 right List.mem_cons_self
    let e : Elimination α := ⟨previous, left, node, right⟩
    obtain ⟨-, hdivides⟩ := pivots_large hprevious hnodes e List.mem_cons_self
    obtain ⟨-, hdamped⟩ := Elimination.damped_row (e := e) hprevious (hleft node List.mem_cons_self) hright
    have hbends := Elimination.bends_iff (r := r) hdivides hl
    have hsweep : sweep previous (left :: node :: right :: rest) = e.row :: sweep e.row (node :: right :: rest) := rfl
    rw [hsweep, backSubstitute_cons]
    constructor
    · rintro ⟨⟨hnode, hsolves⟩, hlast⟩
      have hc := hbends.mp hnode
      rw [← (ih hdamped hrest (Nat.succ.inj hlength) hc).mp ⟨hsolves, hlast⟩]
      exact congrArg (· :: r :: later) hc
    · intro h
      obtain ⟨hc, hlater⟩ := List.cons_eq_cons.mp h
      rw [← hlater] at hc
      obtain ⟨hsolves, hlast⟩ := (ih hdamped hrest (Nat.succ.inj hlength) hc).mpr hlater
      exact ⟨⟨hbends.mpr hc, hsolves⟩, hlast⟩

/-- The equations of a list, by the numbers of its nodes. -/
theorem solves_iff_getD {nodes : List (α × α)} {m : List α} (hlength : m.length = nodes.length) :
    Solves nodes m ↔ ∀ i, i + 2 < nodes.length →
      Bends (nodes.getD i 0) (nodes.getD (i + 1) 0) (nodes.getD (i + 2) 0) (m.getD i 0) (m.getD (i + 1) 0)
        (m.getD (i + 2) 0) := by
  fun_induction Solves nodes m with
  | case1 left node right rest l c r later ih =>
    rw [ih (Nat.succ.inj hlength)]
    constructor
    · rintro ⟨hfirst, hlater⟩ i hi
      cases i with
      | zero => exact hfirst
      | succ i => exact hlater i (Nat.lt_of_succ_lt_succ hi)
    · intro h
      exact ⟨h 0 (by simp), fun i hi => h (i + 1) (Nat.succ_lt_succ hi)⟩
  | case2 nodes m h =>
    refine iff_of_true trivial fun i hi => ?_
    match nodes, m, h with
    | left :: node :: right :: rest, l :: c :: r :: later, h => exact (h _ _ _ _ _ _ _ _ rfl rfl).elim
    | left :: node :: right :: rest, [], _ => cases hlength
    | left :: node :: right :: rest, [_], _ => cases hlength
    | left :: node :: right :: rest, [_, _], _ => cases hlength

/-! ### Natural splines -/

/-- Second derivatives of a natural spline: there are as many as nodes, the first and the last one are zero, and at each
    inner node they account for the change of slope there. -/
structure IsNatural (k : Knots α) (m : List α) : Prop where
  length_eq : m.length = k.xs.length
  first : m.getD 0 0 = 0
  last : m.getD k.last 0 = 0
  bends : ∀ i, i + 2 < k.xs.length →
    (k.x (i + 1) - k.x i) * m.getD i 0 + 2 * (k.x (i + 2) - k.x i) * m.getD (i + 1) 0
        + (k.x (i + 2) - k.x (i + 1)) * m.getD (i + 2) 0 =
      6 * ((k.y (i + 2) - k.y (i + 1)) / (k.x (i + 2) - k.x (i + 1)) - (k.y (i + 1) - k.y i) / (k.x (i + 1) - k.x i))

/-- The nodes with their values. -/
def points (k : Knots α) : List (α × α) := k.xs.zip k.ys

section
variable (k : Knots α)

theorem length_points : (points k).length = k.xs.length := by
  rw [points, List.length_zip, ← k.length_eq, min_self]

theorem points_increasing : (points k).Pairwise fun p q => p.1 < q.1 := by
  rw [← List.pairwise_map (f := Prod.fst) (R := fun x y : α => x < y), points, List.map_fst_zip k.length_eq.le]
  exact isIncreasing_iff.mp k.increasing

theorem getD_points {i : Nat} (hi : i < k.xs.length) : (points k).getD i 0 = (k.x i, k.y i) := by
  have hi' : i < k.ys.length := k.length_eq ▸ hi
  rw [List.getD_eq_getElem _ _ (by rwa [length_points]), Knots.x, Knots.y, List.getD_eq_getElem _ _ hi,
    List.getD_eq_getElem _ _ hi']
  exact List.getElem_zip

theorem exists_points : ∃ left node rest, points k = left :: node :: rest := by
  have htwo := k.two_le
  rw [← length_points] at htwo
  match points k, htwo with
  | left :: node :: rest, _ => exact ⟨left, node, rest, rfl⟩

/-- The equations of the inner nodes, in a list and one by one. -/
theorem solves_points_iff {m : List α} (hlength : m.length = k.xs.length) :
    Solves (points k) m ↔ ∀ i, i + 2 < k.xs.length →
      Bends (k.x i, k.y i) (k.x (i + 1), k.y (i + 1)) (k.x (i + 2), k.y (i + 2)) (m.getD i 0) (m.getD (i + 1) 0)
        (m.getD (i + 2) 0) := by
  rw [solves_iff_getD (hlength.trans (length_points k).symm), length_points]
  refine forall_congr' fun i => imp_congr_right fun hi => ?_
  rw [getD_points k (by omega), getD_points k (by omega), getD_points k hi]

variable {k} in
theorem getD_last {l c : α} {later : List α} (hlength : (l :: c :: later).length = k.xs.length) :
    (l :: c :: later).getD k.last 0 = (c :: later).getLastD 0 := by
  rw [Knots.last, ← hlength, List.getD_eq_getElem?_getD, ← List.getLast?_eq_getElem?, ← List.getLastD_eq_getLast?,
    List.getLastD_cons, List.getLastD_cons, List.getLastD_cons]

/-- The second derivatives that the sweep and the way back compute are those of the natural spline, and no others are. -/
theorem isNatural_iff [ExactArithmetic α] {m : List α} : IsNatural k m ↔ m = curvatures k := by
  obtain ⟨left, node, rest, hpoints⟩ := exists_points k
  have hincreasing := points_increasing k
  have hsystem {m : List α} := solves_points_iff k (m := m)
  have hcurvatures : curvatures k = 0 :: backSubstitute (sweep ⟨0, 0⟩ (points k)) := by
    change (0 * _ + 0) :: _ = _
    rw [zero_mul, add_zero]
    rfl
  have hlength : rest.length + 2 = k.xs.length := by rw [← length_points, hpoints]; rfl
  rw [hcurvatures]
  rw [hpoints] at hincreasing hsystem ⊢
  have hsolves {c : α} {later : List α} (h : later.length = rest.length) :=
    solves_iff (c := c) Row.damped_zero hincreasing h (show (0 : α) = 0 * c + 0 by rw [zero_mul, add_zero])
  constructor
  · intro h
    obtain ⟨l, m, rfl⟩ := List.exists_cons_of_length_eq_add_one (h.length_eq.trans hlength.symm)
    obtain ⟨c, later, rfl⟩ := List.exists_cons_of_length_eq_add_one (Nat.succ.inj (h.length_eq.trans hlength.symm))
    obtain rfl : l = 0 := h.first
    have hlater : later.length = rest.length := Nat.succ.inj (Nat.succ.inj (h.length_eq.trans hlength.symm))
    refine congrArg (0 :: ·) ((hsolves hlater).mp ⟨(hsystem h.length_eq).mpr h.bends, ?_⟩)
    rw [← getD_last h.length_eq]
    exact h.last
  · rintro rfl
    have hback : (backSubstitute (sweep ⟨0, 0⟩ (left :: node :: rest))).length = rest.length + 1 := by
      rw [length_backSubstitute, sweep_eq_map, List.length_map, length_eliminations]
      rfl
    obtain ⟨c, later, hlater⟩ := List.exists_cons_of_length_eq_add_one hback
    rw [hlater] at hback ⊢
    obtain ⟨hnodes, hlast⟩ := (hsolves (Nat.succ.inj hback)).mpr hlater.symm
    have hall : (0 :: c :: later).length = k.xs.length := (congrArg Nat.succ hback).trans hlength
    exact ⟨hall, rfl, (getD_last hall).trans hlast, (hsystem hall).mp hnodes⟩

end

/-! ### Cubics -/

/-- The cubic of segment `i`, given the second derivatives `m` at the nodes. -/
noncomputable def cubic (k : Knots α) (m : List α) (i : Nat) : α[X] :=
  let a := C (k.width i)⁻¹ * (C (k.x (i + 1)) - X)
  let b := C (k.width i)⁻¹ * (X - C (k.x i))
  a * C (k.y i) + b * C (k.y (i + 1)) +
    ((a * a * a - a) * C (m.getD i 0) + (b * b * b - b) * C (m.getD (i + 1) 0)) * C (k.width i * k.width i / (6 : Nat))

section
variable {k : Knots α} {m : List α} {i : Nat} {t : α}

theorem eval_cubic : (cubic k m i).eval t = leftShare k i t * k.y i + rightShare k i t * k.y (i + 1) +
    ((leftShare k i t * leftShare k i t * leftShare k i t - leftShare k i t) * m.getD i 0 +
      (rightShare k i t * rightShare k i t * rightShare k i t - rightShare k i t) * m.getD (i + 1) 0) *
        (k.width i * k.width i / 6) := by
  unfold cubic leftShare rightShare
  simp only [eval_add, eval_sub, eval_mul, eval_C, eval_X, Nat.cast_ofNat]
  rw [div_eq_inv_mul (k.x (i + 1) - t), div_eq_inv_mul (t - k.x i)]

theorem eval_derivative_cubic (hwidth : k.width i ≠ 0) : (cubic k m i).derivative.eval t =
    (k.y (i + 1) - k.y i) / k.width i - (3 * leftShare k i t * leftShare k i t - 1) / 6 * k.width i * m.getD i 0 +
      (3 * rightShare k i t * rightShare k i t - 1) / 6 * k.width i * m.getD (i + 1) 0 := by
  unfold cubic leftShare rightShare
  simp only [derivative_add, derivative_sub, derivative_mul, derivative_C, derivative_X, eval_add, eval_sub, eval_mul,
    eval_C, eval_X, eval_zero, eval_one]
  field_simp
  ring

/-- The second derivative goes straight from that at one node to that at the next. -/
theorem eval_derivative_derivative_cubic (hwidth : k.width i ≠ 0) :
    (cubic k m i).derivative.derivative.eval t = Knots.line k.x (fun j => m.getD j 0) i t := by
  have hline : Knots.line k.x (fun j => m.getD j 0) i t =
      m.getD i 0 + (t - k.x i) * ((m.getD (i + 1) 0 - m.getD i 0) / k.width i) := rfl
  rw [hline]
  unfold cubic
  simp only [derivative_add, derivative_sub, derivative_mul, derivative_C, derivative_X, derivative_zero,
    derivative_one, eval_add, eval_sub, eval_mul, eval_C, eval_X, eval_zero, eval_one]
  have hright : k.x (i + 1) = k.x i + k.width i := (add_sub_cancel _ _).symm
  rw [hright]
  field_simp
  ring

theorem shares_left (hwidth : k.width i ≠ 0) : leftShare k i (k.x i) = 1 ∧ rightShare k i (k.x i) = 0 := by
  unfold leftShare rightShare
  exact ⟨div_self hwidth, by rw [sub_self, zero_div]⟩

theorem shares_right (hwidth : k.width i ≠ 0) :
    leftShare k i (k.x (i + 1)) = 0 ∧ rightShare k i (k.x (i + 1)) = 1 := by
  unfold leftShare rightShare
  exact ⟨by rw [sub_self, zero_div], div_self hwidth⟩

/-- At the nodes on both sides a cubic has the values there. -/
theorem eval_cubic_ends (hwidth : k.width i ≠ 0) :
    (cubic k m i).eval (k.x i) = k.y i ∧ (cubic k m i).eval (k.x (i + 1)) = k.y (i + 1) := by
  constructor
  · rw [eval_cubic, (shares_left hwidth).1, (shares_left hwidth).2]
    ring
  · rw [eval_cubic, (shares_right hwidth).1, (shares_right hwidth).2]
    ring

section
variable [ExactArithmetic α]

theorem value_eq_eval (k : Knots α) (m : List α) (t : α) : value k m t = (cubic k m (k.segment t)).eval t := by
  rw [eval_cubic]
  unfold value
  dsimp only
  rw [ExactArithmetic.six_eq, mul_div_assoc]

theorem slope_eq_eval (k : Knots α) (m : List α) (t : α) :
    slope k m t = (cubic k m (k.segment t)).derivative.eval t := by
  rw [eval_derivative_cubic (k.width_pos t).ne']
  unfold slope
  dsimp only
  rw [ExactArithmetic.three_eq, ExactArithmetic.six_eq]

end

/-- Two functions given by polynomials meet at a point, with equal slopes and equal second derivatives. -/
structure MeetsSmoothly (p q : α[X]) (t : α) : Prop where
  value : p.eval t = q.eval t
  slope : p.derivative.eval t = q.derivative.eval t
  curvature : p.derivative.derivative.eval t = q.derivative.derivative.eval t

/-- With the second derivatives of the natural spline the cubics on both sides of an inner node meet there smoothly. -/
theorem IsNatural.meetsSmoothly (h : IsNatural k m) (hi : i + 2 < k.xs.length) :
    MeetsSmoothly (cubic k m i) (cubic k m (i + 1)) (k.x (i + 1)) := by
  have hwidth : k.width i ≠ 0 := (sub_pos.mpr (k.x_lt (Nat.lt_succ_self i) (by omega))).ne'
  have hwidth' : k.width (i + 1) ≠ 0 := (sub_pos.mpr (k.x_lt (Nat.lt_succ_self (i + 1)) hi)).ne'
  refine ⟨?_, ?_, ?_⟩
  · rw [(eval_cubic_ends hwidth).2, (eval_cubic_ends hwidth').1]
  · have hbend := h.bends i hi
    have hspan : k.x (i + 2) - k.x i = k.width i + k.width (i + 1) := (sub_add_sub_cancel' _ _ _).symm
    rw [hspan, ← Knots.width, ← Knots.width] at hbend
    rw [eval_derivative_cubic hwidth, eval_derivative_cubic hwidth', (shares_right hwidth).1, (shares_right hwidth).2,
      (shares_left hwidth').1, (shares_left hwidth').2]
    linarith
  · rw [eval_derivative_derivative_cubic hwidth, eval_derivative_derivative_cubic hwidth', Knots.line_left,
      Knots.line_right (k.x_lt (Nat.lt_succ_self i) (by omega))]

end

/-- A spline can be built over any nodes that increase. The sweep divides by no zero, and all its pivots exceed three
    halves; what it computes are the second derivatives of the natural spline and nothing else. So the spline passes
    through its nodes, its slope is the derivative of the cubic that gives its value, and the cubics on both sides of an
    inner node meet there smoothly. -/
theorem natural_spline [ExactScalar α] {xs ys : List α} (two_le : 2 ≤ xs.length) (length_eq : xs.length = ys.length)
    (increasing : xs.Pairwise (· < ·)) :
    ∃ k : Knots α, k.xs = xs ∧ k.ys = ys ∧ build xs ys = .ok (interpolant k) ∧
      ((eliminations ⟨0, 0⟩ (xs.zip ys)).length = xs.length - 2 ∧
        curvatures k = backSubstitute (⟨0, 0⟩ :: (eliminations ⟨0, 0⟩ (xs.zip ys)).map Elimination.row) ∧
        ∀ e ∈ eliminations ⟨0, 0⟩ (xs.zip ys), 3 / 2 < e.pivot ∧ e.DividesByNonzero) ∧
      (∀ m, IsNatural k m ↔ m = curvatures k) ∧
      (∀ i < xs.length, (interpolant k).value (k.x i) = k.y i) ∧
      (∀ t, (interpolant k).value t = (cubic k (curvatures k) (k.segment t)).eval t ∧
        (interpolant k).slope t = (cubic k (curvatures k) (k.segment t)).derivative.eval t) ∧
      ∀ i, i + 2 < xs.length →
        MeetsSmoothly (cubic k (curvatures k) i) (cubic k (curvatures k) (i + 1)) (k.x (i + 1)) := by
  obtain ⟨k, hk, rfl, rfl⟩ := Knots.make_of_pairwise two_le length_eq increasing
  have hnatural : IsNatural k (curvatures k) := (isNatural_iff k).mpr rfl
  refine ⟨k, rfl, rfl, by rw [build_eq, hk]; rfl, ⟨?_, ?_, ?_⟩, fun m => isNatural_iff k, fun i hi => value_at_node _ hi,
    fun t => ⟨value_eq_eval k _ t, slope_eq_eval k _ t⟩, fun i hi => hnatural.meetsSmoothly hi⟩
  · rw [length_eliminations]
    exact congrArg (· - 2) (length_points k)
  · rw [← sweep_eq_map]
    rfl
  · exact pivots_large Row.damped_zero (points_increasing k)

/-- Squares at four nodes: the second derivatives of the natural spline solve two equations. -/
theorem natural_spline_squares :
    ∃ f : Interpolant ℚ, build [0, 1, 2, 3] [0, 1, 4, 9] = .ok f ∧ f.value 2 = 4 ∧
      ∃ k, f = interpolant k ∧ curvatures k = [0, 12 / 5, 12 / 5, 0] := by
  have hlength : ([0, 1, 2, 3] : List ℚ).length = ([0, 1, 4, 9] : List ℚ).length := rfl
  obtain ⟨k, hxs, hys, hbuild, -, hnatural, hnodes, -⟩ := natural_spline (by decide) hlength (by decide +kernel)
  have hx (i : Nat) : k.x i = ([0, 1, 2, 3] : List ℚ).getD i 0 := by rw [Knots.x, hxs]
  have hy (i : Nat) : k.y i = ([0, 1, 4, 9] : List ℚ).getD i 0 := by rw [Knots.y, hys]
  refine ⟨_, hbuild, ?_, k, rfl, ((hnatural _).mp ⟨?_, rfl, ?_, fun i hi => ?_⟩).symm⟩
  · have hnode := hnodes 2 (by decide)
    rw [hx, hy] at hnode
    exact hnode
  · rw [hxs]
    rfl
  · rw [Knots.last, hxs]
    rfl
  · rw [hxs] at hi
    simp only [hx, hy]
    obtain rfl | rfl : i = 0 ∨ i = 1 := by
      have hlt : i + 2 < 4 := hi
      omega
    · norm_num
    · norm_num

end TermStructure.CubicSpline
