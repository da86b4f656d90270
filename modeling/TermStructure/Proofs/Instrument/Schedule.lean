import TermStructure.Proofs.Calendar.Months
import TermStructure.Proofs.Instrument.Readings
import TermStructure.Proofs.Bootstrap.Stages

/-!
# Schedules

The payments of a swap come one after another, from after its start to its maturity, so every period of its
fixed leg has a positive length.
-/

namespace TermStructure.Swap

variable {start maturity date : Date} {months k : Nat}

theorem monthIndex_roll (hsmall : months * k < 2147483648) (h : roll start months k = .ok date) :
    date.monthIndex = start.monthIndex + (months * k : Nat) := by
  unfold roll at h
  rw [Date.count32_of_lt (by omega) (by exact_mod_cast hsmall)] at h
  exact Date.monthIndex_addMonths (Date.fitsCount_natCast hsmall) h

/-- The rolls before the late one are in the calendar, so their count of months has not wrapped around. -/
theorem monthIndex_of_firstLateRoll {tries late : Nat} (hk : 1 ≤ k) (hsmall : months * k < 2147483648)
    (h : firstLateRoll start maturity months tries k = .ok late) {j : Nat} (hkj : k ≤ j) (hj : j < late)
    (hroll : roll start months j = .ok date) : date.monthIndex = start.monthIndex + (months * j : Nat) := by
  induction tries generalizing k with
  | zero =>
    cases h
    omega
  | succ tries ih =>
    unfold firstLateRoll at h
    split at h
    · cases h
    · rename_i reached hreached
      split at h
      · cases h
        omega
      · have hindex := monthIndex_roll hsmall hreached
        rcases Nat.eq_or_lt_of_le hkj with rfl | hlater
        · exact monthIndex_roll hsmall hroll
        · have hnext : months * (k + 1) < 2147483648 := by
            obtain ⟨hlow, -⟩ := start.monthIndex_bounds
            obtain ⟨-, hhigh⟩ := reached.monthIndex_bounds
            have hmonths : months ≤ months * k := Nat.le_mul_of_pos_right months hk
            rw [Nat.mul_add_one]
            omega
          exact ih (Nat.succ_pos k) hnext h hlater

/-- The dates of a swap increase from its start to its maturity. -/
theorem schedule_increasing {payments : List Date} (hperiod : start < maturity) (hpos : 0 < months)
    (hsmall : months < 2147483648) (h : schedule start maturity months = .ok payments) :
    (start :: payments).Pairwise (· < ·) ∧ maturity ∈ payments := by
  obtain ⟨late, hlate, rfl⟩ := schedule_ok h
  have hfirst : months * 1 < 2147483648 := by rwa [Nat.mul_one]
  have hindex {k : Nat} {date : Date} (hk : 1 ≤ k) (hkl : k < late) (hroll : roll start months k = .ok date) :
      date.monthIndex = start.monthIndex + (months * k : Nat) :=
    monthIndex_of_firstLateRoll (Nat.le_refl 1) hfirst hlate hk hkl hroll
  refine ⟨List.pairwise_cons.mpr ⟨fun date hdate => ?_, List.pairwise_append.mpr ⟨?_, List.pairwise_singleton _ _, ?_⟩⟩,
    List.mem_append_right _ (List.mem_singleton_self _)⟩
  · rcases List.mem_append.mp hdate with hdate | hdate
    · obtain ⟨k, hk, hkl, hroll⟩ := roll_of_mem hdate
      refine Date.lt_of_monthIndex_lt ?_
      have hmonths : 0 < months * k := Nat.mul_pos hpos hk
      rw [hindex hk hkl hroll]
      omega
    · rw [List.mem_singleton.mp hdate]
      exact hperiod
  · rw [List.pairwise_filterMap]
    refine List.Pairwise.imp_of_mem ?_ List.pairwise_lt_range'
    intro j k hj hk hjk date hdate later hlater
    obtain ⟨hj1, hj2⟩ := List.mem_range'_1.mp hj
    obtain ⟨hk1, hk2⟩ := List.mem_range'_1.mp hk
    refine Date.lt_of_monthIndex_lt ?_
    have hmonths : months * j < months * k := Nat.mul_lt_mul_of_pos_left hjk hpos
    rw [hindex hj1 (by omega) (ok_of_toOption hdate), hindex hk1 (by omega) (ok_of_toOption hlater)]
    omega
  · intro date hdate last hlast
    obtain ⟨k, hk, hkl, hroll⟩ := roll_of_mem hdate
    rw [List.mem_singleton.mp hlast]
    exact roll_lt_of_firstLateRoll hlate hk hkl hroll

theorem make_increasing {dayCount : DayCount} {s : Swap} (h : make start maturity months dayCount = .ok s) :
    (s.start :: s.payments).Pairwise (· < ·) ∧ s.maturity ∈ s.payments := by
  unfold make at h
  split at h
  · cases h
  · rename_i hperiod
    split at h
    · cases h
    · rename_i hmonths
      split at h
      · rename_i payments hs
        cases h
        rw [not_or, Nat.not_le] at hmonths
        exact schedule_increasing hperiod (Nat.pos_of_ne_zero hmonths.1) hmonths.2 hs
      · cases h

section
variable {α : Type} {s : Swap}

theorem length_accruals [Scalar α] (s : Swap) : (s.accruals : List α).length = s.payments.length := by
  unfold accruals
  rw [List.length_zipWith, List.length_cons]
  omega

/-- Every period has its length, so there is one that ends at each payment. -/
theorem exists_accrual [Scalar α] (hdate : date ∈ s.payments) :
    ∃ accrual : α, (date, accrual) ∈ s.payments.zip s.accruals := by
  obtain ⟨i, hi, rfl⟩ := List.mem_iff_getElem.mp hdate
  have hzip : i < (s.payments.zip (s.accruals : List α)).length := by
    rw [List.length_zip, length_accruals]
    omega
  have hmem := List.getElem_mem hzip
  rw [List.getElem_zip] at hmem
  exact ⟨_, hmem⟩

/-- If the dates increase, every period has a positive length. -/
theorem accrual_pos [ScalarField α] [ExactScalar α] (hdates : (s.start :: s.payments).Pairwise (· < ·))
    {payment : Date × α} (hpayment : payment ∈ s.payments.zip s.accruals) :
    s.start < payment.1 ∧ 0 < payment.2 := by
  obtain ⟨i, hi, rfl⟩ := List.mem_iff_getElem.mp hpayment
  rw [List.length_zip, length_accruals, Nat.min_self] at hi
  rw [List.getElem_zip]
  refine ⟨List.rel_of_pairwise_cons hdates (List.getElem_mem hi), ?_⟩
  have hbefore : i < (s.start :: s.payments).length := Nat.lt_succ_of_lt hi
  have hearlier : (s.start :: s.payments)[i] < s.payments[i] :=
    List.pairwise_iff_getElem.mp hdates i (i + 1) _ (Nat.succ_lt_succ hi) (Nat.lt_succ_self i)
  unfold accruals
  rw [List.getElem_zipWith]
  exact s.dayCount.yearFraction_pos hearlier

end

end TermStructure.Swap
