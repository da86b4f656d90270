import TermStructure.Proofs.Instrument.Schedule

/-!
# Rolls

The dates of a swap are rolled from its start until one does not come before its maturity. A roll before that
lies in the calendar, so the counts of months stay far below what 32 bits hold, and the rolling comes to an end: at a
date, or where the calendar does. The periods between the dates add up to the time from the start to the maturity.
-/

namespace TermStructure

/-- Year fractions add up as their days do. -/
theorem sum_yearFraction {α : Type} [ScalarField α] [ExactScalar α] (days : List Int) (basis : Nat) :
    (days.map fun d => (Scalar.yearFraction d basis : α)).sum = Scalar.yearFraction days.sum basis := by
  induction days with
  | nil =>
    rw [List.map_nil, List.sum_nil, List.sum_nil, ExactScalar.yearFraction_eq, Int.cast_zero, zero_div]
  | cons d days ih =>
    rw [List.map_cons, List.sum_cons, List.sum_cons, ih, ExactScalar.yearFraction_eq, ExactScalar.yearFraction_eq,
      ExactScalar.yearFraction_eq, Int.cast_add, add_div]

namespace Swap

variable {start maturity date : Date} {months k m tries : Nat}

/-! ### Rolling -/

/-- The roll comes before maturity. -/
def Early (start maturity : Date) (months k : Nat) : Prop :=
  ∃ date, start.addMonths (months * k : Nat) = .ok date ∧ date < maturity

/-- The rolling ends at the `m`-th date, which is the first not to come before maturity. -/
structure EndsAt (start maturity : Date) (months m : Nat) : Prop where
  pos : 0 < m
  small : months * m < 2147483648
  early : ∀ k, 0 < k → k < m → Early start maturity months k
  late : ∃ date, start.addMonths (months * m : Nat) = .ok date ∧ maturity ≤ date

/-- The rolling leaves the calendar at the `m`-th date, which would be the first not to come before maturity. -/
structure LeavesAt (start maturity : Date) (months m : Nat) (e : CalendarError) : Prop where
  pos : 0 < m
  small : months * m < 2147483648
  early : ∀ k, 0 < k → k < m → Early start maturity months k
  late : maturity.monthIndex < start.monthIndex + (months * m : Nat)
  beyond : lastYear < (start.monthIndex + (months * m : Nat)) / 12
  error : start.addMonths (months * m : Nat) = .error e

theorem roll_of_small (start : Date) (h : months * k < 2147483648) :
    roll start months k = start.addMonths (months * k : Nat) := by
  unfold roll
  rw [Date.count32_of_lt (by omega) (by exact_mod_cast h)]
  norm_cast

theorem monthsSpanned_eq (hperiod : start < maturity) :
    (monthsSpanned start maturity : Int) = maturity.monthIndex - start.monthIndex + 1 := by
  have hle := Date.monthIndex_le_of_lt hperiod
  unfold monthsSpanned
  unfold Date.monthIndex at hle ⊢
  omega

/-- A roll before maturity takes fewer months than lie between the dates. -/
theorem Early.lt_monthsSpanned (hperiod : start < maturity) (hsmall : months * k < 2147483648)
    (h : Early start maturity months k) : months * k < monthsSpanned start maturity := by
  obtain ⟨date, hdate, hearly⟩ := h
  have hindex := Date.monthIndex_addMonths (Date.fitsCount_natCast hsmall) hdate
  have hspan := monthsSpanned_eq hperiod
  by_contra hle
  exact hearly (Date.le_of_not_le (Date.lt_of_monthIndex_lt (by omega)))

/-- The rolling goes on from the `k`-th date to the end: no more dates come before maturity than there are tries. -/
theorem firstLateRoll_ends (hperiod : start < maturity) (hpos : 0 < months) (hk : 0 < k)
    (hsmall : months * k < 2147483648) (hspent : months * (k - 1) < monthsSpanned start maturity)
    (htries : monthsSpanned start maturity < k + tries) :
    ∃ m, k ≤ m ∧ months * m < 2147483648 ∧ (∀ j, k ≤ j → j < m → Early start maturity months j) ∧
      ((∃ date, start.addMonths (months * m : Nat) = .ok date ∧ maturity ≤ date) ∧
          firstLateRoll start maturity months tries k = .ok m ∨
        ∃ e, start.addMonths (months * m : Nat) = .error e ∧
          firstLateRoll start maturity months tries k = .error e) := by
  induction tries generalizing k with
  | zero =>
    have hless : k - 1 ≤ months * (k - 1) := Nat.le_mul_of_pos_left _ hpos
    omega
  | succ tries ih =>
    unfold firstLateRoll
    rw [roll_of_small start hsmall]
    cases hroll : start.addMonths (months * k : Nat) with
    | error e => exact ⟨k, le_rfl, hsmall, fun j hkj hj => by omega, .inr ⟨e, hroll, rfl⟩⟩
    | ok date =>
      dsimp only
      by_cases hlate : date ≥ maturity
      · rw [if_pos hlate]
        exact ⟨k, le_rfl, hsmall, fun j hkj hj => by omega, .inl ⟨⟨date, hroll, hlate⟩, rfl⟩⟩
      · rw [if_neg hlate]
        have hearly : Early start maturity months k := ⟨date, hroll, hlate⟩
        have hspent := hearly.lt_monthsSpanned hperiod hsmall
        have hnext : months * (k + 1) < 2147483648 := by
          have hmonths : months ≤ months * k := Nat.le_mul_of_pos_right months hk
          obtain ⟨hlow, -⟩ := start.monthIndex_bounds
          obtain ⟨-, hhigh⟩ := maturity.monthIndex_bounds
          have hspan := monthsSpanned_eq hperiod
          rw [Nat.mul_add_one]
          omega
        obtain ⟨m, hm, hsmall, hall, hends⟩ := ih k.succ_pos hnext hspent (by omega)
        refine ⟨m, by omega, hsmall, fun j hkj hj => ?_, hends⟩
        rcases Nat.eq_or_lt_of_le hkj with rfl | hlater
        · exact hearly
        · exact hall j hlater hj

/-- The end does not depend on the tries, if there are as many as dates. -/
theorem EndsAt.firstLateRoll_eq (h : EndsAt start maturity months m) (hk : 0 < k) (hkm : k ≤ m)
    (htries : m ≤ k + tries) : firstLateRoll start maturity months tries k = .ok m := by
  induction tries generalizing k with
  | zero =>
    obtain rfl : k = m := by omega
    rfl
  | succ tries ih =>
    have hsmall : months * k < 2147483648 := (Nat.mul_le_mul_left months hkm).trans_lt h.small
    unfold firstLateRoll
    rw [roll_of_small start hsmall]
    rcases Nat.eq_or_lt_of_le hkm with rfl | hearlier
    · obtain ⟨date, hdate, hlate⟩ := h.late
      rw [hdate]
      exact if_pos hlate
    · obtain ⟨date, hdate, hearly⟩ := h.early k hk hearlier
      rw [hdate]
      exact (if_neg hearly).trans (ih k.succ_pos hearlier (by omega))

/-- The rolling of a swap comes to one of its two ends. -/
theorem rolling_ends (hperiod : start < maturity) (hpos : 0 < months) (hsmall : months < 2147483648) :
    (∃ m, EndsAt start maturity months m ∧
        firstLateRoll start maturity months (monthsSpanned start maturity) 1 = .ok m) ∨
      ∃ m e, LeavesAt start maturity months m e ∧
        firstLateRoll start maturity months (monthsSpanned start maturity) 1 = .error e := by
  have hspan := monthsSpanned_eq hperiod
  have hle := Date.monthIndex_le_of_lt hperiod
  have htries : monthsSpanned start maturity < 1 + monthsSpanned start maturity := Nat.lt_add_of_pos_left Nat.one_pos
  obtain ⟨m, hm, hm', hearly, hends⟩ :=
    firstLateRoll_ends hperiod hpos Nat.one_pos (by omega) (by omega) htries
  rcases hends with ⟨hlate, hresult⟩ | ⟨e, he, hresult⟩
  · exact .inl ⟨m, ⟨hm, hm', fun k hk => hearly k hk, hlate⟩, hresult⟩
  · have hbeyond := Date.lastYear_lt_of_addMonths hm' he
    have hlate : maturity.monthIndex < start.monthIndex + (months * m : Nat) := by
      obtain ⟨-, hmaturity⟩ := maturity.monthIndex_bounds
      unfold lastYear at hbeyond
      omega
    exact .inr ⟨m, e, ⟨hm, hm', fun k hk => hearly k hk, hlate, hbeyond, he⟩, hresult⟩

/-! ### Payments -/

/-- The dates of a swap: rolled from the start, each of them from there, as long as they come before maturity, and
    maturity. -/
structure Scheduled (s : Swap) (months m : Nat) : Prop where
  ends : EndsAt s.start s.maturity months m
  settled : ∀ tries, m ≤ tries → firstLateRoll s.start s.maturity months tries 1 = .ok m
  increasing : (s.start :: s.payments).Pairwise (· < ·)
  count : s.payments.length = m
  last : s.payments.getLast? = some s.maturity
  rolled : ∀ k, 0 < k → k < m →
    ∃ date, s.start.addMonths (months * k : Nat) = .ok date ∧ s.payments[k - 1]? = some date

/-- The dates before the end, in order. -/
theorem EndsAt.rolls (h : EndsAt start maturity months m) :
    ∃ dates, (List.range' 1 (m - 1)).filterMap (fun k => (roll start months k).toOption) = dates ∧
      dates.length = m - 1 ∧ ∀ k, 0 < k → k < m →
        ∃ date, start.addMonths (months * k : Nat) = .ok date ∧ dates[k - 1]? = some date := by
  have hroll {k : Nat} (hk : 0 < k) (hkm : k < m) :
      ∃ date, start.addMonths (months * k : Nat) = .ok date ∧ (roll start months k).toOption = some date := by
    obtain ⟨date, hdate, -⟩ := h.early k hk hkm
    rw [roll_of_small start ((Nat.mul_le_mul_left months hkm.le).trans_lt h.small), hdate]
    exact ⟨date, rfl, rfl⟩
  have hmap : (List.range' 1 (m - 1)).filterMap (fun k => (roll start months k).toOption) =
      (List.range' 1 (m - 1)).map fun k => ((roll start months k).toOption).getD default := by
    refine List.filterMap_eq_map_iff_forall_eq_some.mpr fun k hk => ?_
    obtain ⟨hk1, hk2⟩ := List.mem_range'_1.mp hk
    obtain ⟨date, -, hdate⟩ := hroll (k := k) (by omega) (by omega)
    rw [hdate, Option.getD_some]
  refine ⟨_, hmap, by rw [List.length_map, List.length_range'], fun k hk hkm => ?_⟩
  obtain ⟨date, hdate, hoption⟩ := hroll hk hkm
  refine ⟨date, hdate, ?_⟩
  have hplace : (List.range' 1 (m - 1))[k - 1]? = some k := by
    rw [List.getElem?_range' (by omega)]
    congr 1
    omega
  rw [List.getElem?_map, hplace, Option.map_some, hoption, Option.getD_some]

theorem terms_of_make {dayCount : DayCount} {s : Swap} (h : make start maturity months dayCount = .ok s) :
    start < maturity ∧ 0 < months ∧ months < 2147483648 := by
  unfold make at h
  split at h
  · cases h
  · rename_i hperiod
    split at h
    · cases h
    · rename_i hmonths
      exact ⟨hperiod, by omega, by omega⟩

theorem make_eq (hperiod : start < maturity) (hpos : 0 < months) (hsmall : months < 2147483648) (dayCount : DayCount) :
    make start maturity months dayCount =
      match schedule start maturity months with
      | .ok payments => .ok ⟨start, maturity, dayCount, payments⟩
      | .error e => .error (.dates e) := by
  have hmonths : ¬(months = 0 ∨ months ≥ 2147483648) := by omega
  unfold make
  exact (if_neg hperiod).trans (if_neg hmonths)

theorem schedule_of_ends (hends : EndsAt start maturity months m)
    (h : firstLateRoll start maturity months (monthsSpanned start maturity) 1 = .ok m) :
    ∃ dates, schedule start maturity months = .ok (dates ++ [maturity]) ∧ dates.length = m - 1 ∧
      ∀ k, 0 < k → k < m → ∃ date, start.addMonths (months * k : Nat) = .ok date ∧ dates[k - 1]? = some date := by
  obtain ⟨dates, hdates, hcount, hrolled⟩ := hends.rolls
  refine ⟨dates, ?_, hcount, hrolled⟩
  unfold schedule
  rw [h]
  exact congrArg (fun dates => Except.ok (dates ++ [maturity])) hdates

/-- A swap that is made has a schedule. -/
theorem scheduled_of_make {dayCount : DayCount} {s : Swap} (h : make start maturity months dayCount = .ok s) :
    s.start = start ∧ s.maturity = maturity ∧ s.dayCount = dayCount ∧ ∃ m, s.Scheduled months m := by
  have hincreasing := (make_increasing h).1
  obtain ⟨hperiod, hpos, hsmall⟩ := terms_of_make h
  rw [make_eq hperiod hpos hsmall] at h
  rcases rolling_ends hperiod hpos hsmall with ⟨m, hends, hresult⟩ | ⟨m, e, -, hresult⟩
  · obtain ⟨dates, hschedule, hcount, hrolled⟩ := schedule_of_ends hends hresult
    rw [hschedule] at h
    cases h
    refine ⟨rfl, rfl, rfl, m, hends, fun tries htries => ?_, hincreasing, ?_, List.getLast?_concat, fun k hk hkm => ?_⟩
    · exact hends.firstLateRoll_eq Nat.one_pos hends.pos (by omega)
    · have hm := hends.pos
      rw [List.length_append, List.length_singleton, hcount]
      omega
    · obtain ⟨date, hdate, hplace⟩ := hrolled k hk hkm
      exact ⟨date, hdate, by rw [List.getElem?_append_left (by omega), hplace]⟩
  · unfold schedule at h
    rw [hresult] at h
    cases h

/-- A swap with proper terms is not made only if its dates leave the calendar. -/
theorem leaves_of_make_error (hperiod : start < maturity) (hpos : 0 < months) (hsmall : months < 2147483648)
    {dayCount : DayCount} {error : SwapError} (h : make start maturity months dayCount = .error error) :
    ∃ m e, error = .dates e ∧ LeavesAt start maturity months m e := by
  rw [make_eq hperiod hpos hsmall] at h
  rcases rolling_ends hperiod hpos hsmall with ⟨m, hends, hresult⟩ | ⟨m, e, hleaves, hresult⟩
  · obtain ⟨dates, hschedule, -⟩ := schedule_of_ends hends hresult
    rw [hschedule] at h
    cases h
  · unfold schedule at h
    rw [hresult] at h
    cases h
    exact ⟨m, e, rfl, hleaves⟩

/-! ### Periods -/

/-- The days of each period of the fixed leg. -/
def periods (s : Swap) : List Int := List.zipWith Date.daysUntil (s.start :: s.payments) s.payments

theorem accruals_eq {α : Type} [Scalar α] (s : Swap) :
    (s.accruals : List α) = s.periods.map fun days => Scalar.yearFraction days s.dayCount.basis := by
  unfold accruals periods
  rw [List.map_zipWith]
  rfl

theorem sum_daysUntil (start : Date) (dates : List Date) :
    (List.zipWith Date.daysUntil (start :: dates) dates).sum = start.daysUntil (dates.getLastD start) := by
  induction dates generalizing start with
  | nil => exact (Int.sub_self _).symm
  | cons date dates ih =>
    rw [List.zipWith_cons_cons, List.sum_cons, ih, List.getLastD_cons]
    unfold Date.daysUntil
    omega

theorem daysUntil_pos_of_isChain {dates : List Date} (h : (start :: dates).IsChain (· < ·)) :
    ∀ days ∈ List.zipWith Date.daysUntil (start :: dates) dates, 0 < days := by
  induction dates generalizing start with
  | nil => exact nofun
  | cons date dates ih =>
    obtain ⟨hlt, hrest⟩ := List.isChain_cons_cons.mp h
    rw [List.zipWith_cons_cons, List.forall_mem_cons]
    exact ⟨Int.sub_pos.mpr (Date.number_lt hlt), ih hrest⟩

/-- The periods of the fixed leg: each has some days, and they make up the time from start to maturity. -/
structure Accrued (s : Swap) : Prop where
  count : s.periods.length = s.payments.length
  positive : ∀ days ∈ s.periods, 0 < days
  total : s.periods.sum = s.start.daysUntil s.maturity

theorem Scheduled.accrued {s : Swap} (h : s.Scheduled months m) : s.Accrued where
  count := by
    unfold periods
    rw [List.length_zipWith, List.length_cons]
    omega
  positive := daysUntil_pos_of_isChain h.increasing.isChain
  total := by
    unfold periods
    rw [sum_daysUntil, List.getLastD_eq_getLast?, h.last]
    rfl

end Swap

/-- A swap is made with a schedule of some number of periods, however many tries the rolling is granted: its payments
    increase from after the start to maturity, and all but the last are rolled from the start by whole periods. In years
    every period is positive, and in exact arithmetic they add up to the time from start to maturity. A swap with proper
    terms is not made only if the first roll that would not come before maturity lies after the calendar. -/
theorem swap_schedule {α : Type} [ScalarField α] [ExactScalar α] (start maturity : Date) (months : Nat)
    (dayCount : DayCount) :
    (∀ s, Swap.make start maturity months dayCount = .ok s →
      s.start = start ∧ s.maturity = maturity ∧ s.dayCount = dayCount ∧ (∃ m, s.Scheduled months m) ∧ s.Accrued ∧
        (∀ (β : Type) [Scalar β],
          (s.accruals : List β) = s.periods.map fun days => Scalar.yearFraction days s.dayCount.basis) ∧
        (∀ accrual ∈ (s.accruals : List α), 0 < accrual) ∧
        (s.accruals : List α).sum = dayCount.yearFraction start maturity) ∧
    (start < maturity → 1 ≤ months → months ≤ 2147483647 → ∀ error,
      Swap.make start maturity months dayCount = .error error →
        ∃ m e, error = .dates e ∧ Swap.LeavesAt start maturity months m e) := by
  refine ⟨fun s hs => ?_, fun hperiod hpos hsmall error herror => ?_⟩
  · obtain ⟨rfl, rfl, rfl, m, hscheduled⟩ := Swap.scheduled_of_make hs
    have haccrued := hscheduled.accrued
    refine ⟨rfl, rfl, rfl, ⟨m, hscheduled⟩, haccrued, fun _ _ => s.accruals_eq, ?_, ?_⟩
    · rw [Swap.accruals_eq, List.forall_mem_map]
      intro days hdays
      rw [ExactScalar.yearFraction_eq]
      exact div_pos (Int.cast_pos.mpr (haccrued.positive days hdays)) (Nat.cast_pos.mpr s.dayCount.basis_pos)
    · rw [Swap.accruals_eq, sum_yearFraction, haccrued.total]
      rfl
  · exact Swap.leaves_of_make_error hperiod hpos (by omega) herror

/-- A swap over two months and a half from the end of January. -/
def monthEnds : Swap where
  start := ⟨2025, 1, 31, by decide⟩
  maturity := ⟨2025, 4, 15, by decide⟩
  dayCount := .act360
  payments := [⟨2025, 2, 28, by decide⟩, ⟨2025, 3, 31, by decide⟩, ⟨2025, 4, 15, by decide⟩]

/-- From the end of January a swap goes through the ends of months, and at the end of the calendar none is made. -/
theorem swap_schedule_monthEnds :
    monthEnds.Scheduled 1 3 ∧ (monthEnds.accruals : List ℚ).sum = 74 / 360 ∧
      ∃ m e, Swap.LeavesAt ⟨262142, 10, 31, by decide⟩ ⟨262142, 12, 31, by decide⟩ 4 m e := by
  obtain ⟨hmade, -⟩ := swap_schedule (α := ℚ) monthEnds.start monthEnds.maturity 1 .act360
  obtain ⟨-, hrefused⟩ :=
    swap_schedule (α := ℚ) ⟨262142, 10, 31, by decide⟩ ⟨262142, 12, 31, by decide⟩ 4 .act360
  obtain ⟨-, -, -, ⟨m, hscheduled⟩, -, -, -, htotal⟩ := hmade monthEnds rfl
  obtain rfl : 3 = m := hscheduled.count
  obtain ⟨m, e, -, hleaves⟩ := hrefused (by decide) (by decide) (by decide)
    (.dates (.invalidDate (.missing 262143 2 28))) rfl
  refine ⟨hscheduled, ?_, m, e, hleaves⟩
  rw [htotal]
  decide +kernel

end TermStructure
