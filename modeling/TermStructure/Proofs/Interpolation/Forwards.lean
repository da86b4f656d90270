import Mathlib.Algebra.BigOperators.Group.Finset.Basic
import TermStructure.Proofs.Interpolation.Nodes

/-!
# Forwards

On each of its segments a log-linear curve has one forward rate. Between any two times the logarithm falls by what the
forwards make on the parts of the segments between them, where the first and the last segment go on beyond the nodes.
-/

namespace TermStructure.LogLinear

variable {α : Type} [ScalarField α] {k : Knots α} {i : Nat} {a b t : α}

/-- The forward of a segment: how fast the logarithm of the values falls from its first node to its second one. -/
def forward (xs ys : List α) (i : Nat) : α :=
  (Scalar.ln (ys.getD i 0) - Scalar.ln (ys.getD (i + 1) 0)) / (xs.getD (i + 1) 0 - xs.getD i 0)

/-- How much of `[a, b]` is in a segment. Nothing is before the first segment, and nothing is after the last one. -/
def overlap (xs : List α) (i : Nat) (a b : α) : α :=
  let start := if i = 0 then a else max a (xs.getD i 0)
  let finish := if i + 2 = xs.length then b else min b (xs.getD (i + 1) 0)
  max 0 (finish - start)

/-- A rate from `a` to `b` averages the forwards of the segments, each for as much of `[a, b]` as is in its segment. -/
structure Averages (xs ys : List α) (a b rate : α) : Prop where
  total : (b - a) * rate = ∑ i ∈ Finset.range (xs.length - 1), forward xs ys i * overlap xs i a b
  flat (i : Nat) : i + 1 < xs.length → i = 0 ∨ xs.getD i 0 ≤ a → i + 2 = xs.length ∨ b ≤ xs.getD (i + 1) 0 →
    rate = forward xs ys i

/-! ### The time in a segment -/

/-- The time in a segment that is nearest to `t`. -/
def nearest (k : Knots α) (i : Nat) (t : α) : α :=
  let later := if i = 0 then t else max t (k.x i)
  if i + 2 = k.xs.length then later else min later (k.x (i + 1))

theorem nearest_inside (hleft : i = 0 ∨ k.x i ≤ t) (hright : i + 2 = k.xs.length ∨ t ≤ k.x (i + 1)) :
    nearest k i t = t := by
  have hlater : (if i = 0 then t else max t (k.x i)) = t := by
    split
    · rfl
    · rename_i hfirst
      exact max_eq_left (hleft.resolve_left hfirst)
  unfold nearest
  dsimp only
  rw [hlater]
  split
  · rfl
  · rename_i hlast
    exact min_eq_left (hright.resolve_left hlast)

theorem nearest_before (hi : i + 1 < k.xs.length) (hfirst : i ≠ 0) (ht : t ≤ k.x i) : nearest k i t = k.x i := by
  unfold nearest
  dsimp only
  rw [if_neg hfirst, max_eq_right ht]
  split
  · rfl
  · exact min_eq_left (k.x_lt (Nat.lt_succ_self i) hi).le

theorem nearest_after (hlast : i + 2 ≠ k.xs.length) (ht : k.x (i + 1) ≤ t) : nearest k i t = k.x (i + 1) := by
  unfold nearest
  dsimp only
  rw [if_neg hlast]
  refine min_eq_right ?_
  split
  · exact ht
  · exact ht.trans (le_max_left _ _)

/-- The part of an interval between two bounds reaches from the number between them nearest to its beginning to the one
    nearest to its end. -/
theorem max_sub_eq_nearest {low high : α} (hbounds : low ≤ high) (hab : a ≤ b) :
    max 0 (min b high - max a low) = min (max b low) high - min (max a low) high := by
  rcases le_total high (max a low) with hbeyond | hwithin
  · -- The interval begins where the bounds end, and nothing of it is between them.
    rw [min_eq_right hbeyond, min_eq_right (hbeyond.trans (max_le_max_right low hab)), sub_self]
    exact max_eq_left (sub_nonpos.mpr ((min_le_right b high).trans hbeyond))
  · have hend : a ≤ min b high := le_min hab ((le_max_left a low).trans hwithin)
    have hnearest : min (max b low) high = max (max a low) (min b high) := by
      rw [max_assoc, max_comm low, ← max_assoc, max_eq_right hend, max_min_distrib_right, max_eq_left hbounds]
    rw [min_eq_left hwithin, hnearest, ← max_sub_sub_right, sub_self]

/-- What is in a segment reaches from the time nearest to the beginning to the one nearest to the end. -/
theorem overlap_eq (hi : i + 1 < k.xs.length) (hab : a ≤ b) :
    overlap k.xs i a b = nearest k i b - nearest k i a := by
  have hwidth : k.x i < k.x (i + 1) := k.x_lt (Nat.lt_succ_self i) hi
  unfold overlap nearest
  change max 0 ((if i + 2 = k.xs.length then b else min b (k.x (i + 1))) - if i = 0 then a else max a (k.x i)) = _
  by_cases hfirst : i = 0
  · by_cases hlast : i + 2 = k.xs.length
    · simp only [if_pos hfirst, if_pos hlast]
      exact max_eq_right (sub_nonneg.mpr hab)
    · simp only [if_pos hfirst, if_neg hlast]
      have h := max_sub_eq_nearest (min_le_right a (k.x (i + 1))) hab
      rwa [max_eq_left (min_le_left a _), max_eq_left ((min_le_left a _).trans hab)] at h
  · by_cases hlast : i + 2 = k.xs.length
    · simp only [if_neg hfirst, if_pos hlast]
      have h := max_sub_eq_nearest (le_max_right b (k.x i)) hab
      rwa [min_eq_left (le_max_left b _), min_self, min_eq_left (max_le_max_right _ hab)] at h
    · simp only [if_neg hfirst, if_neg hlast]
      exact max_sub_eq_nearest hwidth.le hab

/-! ### The fall of the logarithm -/

/-- The logarithm of the curve. -/
def logAt (k : Knots α) (t : α) : α := Knots.line k.x (logValue k) (k.segment t) t

theorem value_eq_exp (k : Knots α) (t : α) : value k t = Scalar.exp (logAt k t) := rfl

theorem forward_mul_width (hi : i + 1 < k.xs.length) :
    forward k.xs k.ys i * (k.x (i + 1) - k.x i) = logValue k i - logValue k (i + 1) :=
  div_mul_cancel₀ _ (sub_pos.mpr (k.x_lt (Nat.lt_succ_self i) hi)).ne'

theorem line_eq (k : Knots α) (i : Nat) (t : α) :
    Knots.line k.x (logValue k) i t = logValue k i - forward k.xs k.ys i * (t - k.x i) := by
  change _ = _ - (logValue k i - logValue k (i + 1)) / (k.x (i + 1) - k.x i) * (t - k.x i)
  unfold Knots.line
  ring

/-- Over the first `n` segments the forwards make the fall from the first node to a time, or to the node that ends these
    segments if the time is later. -/
theorem sum_forward_nearest (k : Knots α) (t : α) {n : Nat} (hn : n ≤ k.last) :
    ∑ i ∈ Finset.range n, forward k.xs k.ys i * (nearest k i t - k.x i)
      = logValue k 0 - if n ≤ k.segment t then logValue k n else logAt k t := by
  obtain ⟨hi, hleft, hright⟩ := k.segment_spec t
  induction n with
  | zero => rw [Finset.sum_range_zero, if_pos (Nat.zero_le _), sub_self]
  | succ n ih =>
    have hsegment : n + 1 < k.xs.length := Nat.lt_of_le_of_lt hn k.last_lt
    rw [Finset.sum_range_succ, ih (Nat.le_of_succ_le hn)]
    rcases Nat.lt_trichotomy n (k.segment t) with hbefore | rfl | hafter
    · -- The time comes after the segment.
      have hnode : k.x (n + 1) ≤ t := (k.x_le hbefore (by omega)).trans (hleft.resolve_left (by omega))
      rw [if_pos hbefore.le, if_pos (show n + 1 ≤ k.segment t from hbefore), nearest_after (by omega) hnode,
        forward_mul_width hsegment]
      ring
    · rw [if_pos le_rfl, if_neg (Nat.not_succ_le_self _), nearest_inside hleft (hright.imp_right le_of_lt), logAt, line_eq]
      ring
    · -- The time comes before the segment.
      have hnode : t ≤ k.x n := (hright.resolve_left (by omega)).le.trans (k.x_le hafter (by omega))
      rw [if_neg (by omega), if_neg (by omega), nearest_before hsegment (by omega) hnode, sub_self, mul_zero, add_zero]

/-- Between two times the logarithm falls by what the forwards make on the segments between. -/
theorem logAt_sub (k : Knots α) (hab : a ≤ b) :
    logAt k a - logAt k b = ∑ i ∈ Finset.range (k.xs.length - 1), forward k.xs k.ys i * overlap k.xs i a b := by
  have hfall (t : α) : ∑ i ∈ Finset.range k.last, forward k.xs k.ys i * (nearest k i t - k.x i)
      = logValue k 0 - logAt k t := by
    have hlast := k.segment_lt_last t
    rw [sum_forward_nearest k t le_rfl, if_neg (by omega)]
  have hoverlaps : ∀ i ∈ Finset.range k.last, forward k.xs k.ys i * overlap k.xs i a b
      = forward k.xs k.ys i * (nearest k i b - k.x i) - forward k.xs k.ys i * (nearest k i a - k.x i) := by
    intro i hi
    have hlast := k.last_lt
    rw [overlap_eq (by have := Finset.mem_range.mp hi; omega) hab]
    ring
  change _ = ∑ i ∈ Finset.range k.last, _
  rw [Finset.sum_congr rfl hoverlaps, Finset.sum_sub_distrib, hfall, hfall]
  ring

/-- Inside a segment, or beyond the nodes next to it, the logarithm falls at its forward. -/
theorem logAt_sub_inside (hi : i + 1 < k.xs.length) (hab : a ≤ b) (hleft : i = 0 ∨ k.x i ≤ a)
    (hright : i + 2 = k.xs.length ∨ b ≤ k.x (i + 1)) :
    logAt k a - logAt k b = (b - a) * forward k.xs k.ys i := by
  unfold logAt
  rw [Knots.line_of_encloses hi hleft (hright.imp_right hab.trans),
    Knots.line_of_encloses hi (hleft.imp_right (·.trans hab)) hright, line_eq, line_eq]
  ring

theorem averages [LawfulProducts α] (k : Knots α) (hab : a < b) :
    Averages k.xs k.ys a b (Scalar.ln (value k a / value k b) / (b - a)) := by
  have hlength : b - a ≠ 0 := (sub_pos.mpr hab).ne'
  rw [value_eq_exp, value_eq_exp, ln_exp_div_exp]
  refine ⟨?_, fun i hi hleft hright => ?_⟩
  · rw [mul_div_cancel₀ _ hlength]
    exact logAt_sub k hab.le
  · rw [logAt_sub_inside hi hab.le hleft hright, mul_div_cancel_left₀ _ hlength]

end TermStructure.LogLinear
