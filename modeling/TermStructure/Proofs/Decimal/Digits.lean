import Mathlib.Algebra.Group.Nat.Defs
import TermStructure.Decimal.Digits

/-!
# Rows of digits

A natural number is read back from its digits, zeros in front change nothing, and a number below a power of ten has no
more digits than the power has zeros.
-/

namespace TermStructure.Decimal

theorem isDigit_digitChar : ∀ d < 10, isDigit (digitChar d) = true := by decide

theorem digitValue_digitChar : ∀ d < 10, digitValue (digitChar d) = d := by decide

theorem isDigit_digits (n : Nat) : ∀ c ∈ digits n, isDigit c = true := by
  fun_induction digits n with
  | case1 n hn =>
    intro c hc
    rw [List.mem_singleton.mp hc]
    exact isDigit_digitChar n hn
  | case2 n hn ih =>
    intro c hc
    rcases List.mem_append.mp hc with hc | hc
    · exact ih c hc
    · rw [List.mem_singleton.mp hc]
      exact isDigit_digitChar _ (Nat.mod_lt _ (by decide))

theorem ofDigits_digits (n : Nat) : ofDigits (digits n) = n := by
  fun_induction digits n with
  | case1 n hn =>
    have hvalue := digitValue_digitChar n hn
    simp [ofDigits, hvalue]
  | case2 n hn ih =>
    have hvalue := digitValue_digitChar (n % 10) (Nat.mod_lt _ (by decide))
    unfold ofDigits at ih ⊢
    rw [List.foldl_append, ih, List.foldl_cons, List.foldl_nil, hvalue]
    omega

/-- Only zero starts with a zero. -/
theorem digits_eq (n : Nat) : n = 0 ∨ ∃ c rest, digits n = c :: rest ∧ c ≠ '0' := by
  fun_induction digits n with
  | case1 n hn =>
    have hzero : ∀ n < 10, n ≠ 0 → digitChar n ≠ '0' := by decide
    by_cases h : n = 0
    · exact .inl h
    · exact .inr ⟨_, [], rfl, hzero n hn h⟩
  | case2 n hn ih =>
    rcases ih with hzero | ⟨c, rest, hdigits, hc⟩
    · omega
    · rw [hdigits]
      exact .inr ⟨c, _, rfl, hc⟩

theorem digits_ne_nil (n : Nat) : digits n ≠ [] := by
  rw [digits]
  split
  · exact List.cons_ne_nil _ _
  · exact List.append_ne_nil_of_right_ne_nil _ (List.cons_ne_nil _ _)

theorem length_digits_le {n k : Nat} (hn : n < 10 ^ (k + 1)) : (digits n).length ≤ k + 1 := by
  induction k generalizing n with
  | zero =>
    rw [digits, if_pos (by omega)]
    exact Nat.le_refl _
  | succ k ih =>
    rw [digits]
    split
    · rw [List.length_singleton]
      omega
    · have hshort := ih (Nat.div_lt_of_lt_mul (Nat.pow_succ' ▸ hn) : n / 10 < 10 ^ (k + 1))
      rw [List.length_append, List.length_singleton]
      omega

variable (width n : Nat)

theorem isDigit_padded : ∀ c ∈ padded width n, isDigit c = true := by
  intro c hc
  rcases List.mem_append.mp hc with hc | hc
  · rw [List.eq_of_mem_replicate hc]
    rfl
  · exact isDigit_digits n c hc

theorem ofDigits_padded : ofDigits (padded width n) = n := by
  have hzeros (k : Nat) : (List.replicate k '0').foldl (fun n c => 10 * n + digitValue c) 0 = 0 := by
    induction k with
    | zero => rfl
    | succ k ih => exact ih
  unfold padded ofDigits
  rw [List.foldl_append, hzeros]
  exact ofDigits_digits n

theorem padded_ne_nil : padded width n ≠ [] := List.append_ne_nil_of_right_ne_nil _ (digits_ne_nil n)

theorem length_padded (h : (digits n).length ≤ width) : (padded width n).length = width := by
  unfold padded
  rw [List.length_append, List.length_replicate, Nat.sub_add_cancel h]

end TermStructure.Decimal
