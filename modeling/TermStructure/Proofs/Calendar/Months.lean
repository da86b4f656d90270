import TermStructure.Calendar.Text
import TermStructure.Proofs.Calendar.Order

/-!
# Adding months

Months are counted through the years. Adding some to a date adds them to its count: 32-bit counts wrap around
far beyond the calendar, so a sum that wraps is refused. Whatever is not refused lies in the month that was counted, on
the same day or on the last one of a shorter month, so the order of dates is kept and more months lead further.
-/

namespace TermStructure.Date

variable {a b d e : Date}

/-! ### Counting months -/

/-- The number of the month of a date, counted through the years. -/
def monthIndex (d : Date) : Int := d.year * 12 + d.month - 1

theorem eq_of_monthIndex_eq (h : a.monthIndex = b.monthIndex) : a.year = b.year ∧ a.month = b.month := by
  obtain ⟨ha, ha', -, -⟩ := a.month_bounds
  obtain ⟨hb, hb', -, -⟩ := b.month_bounds
  unfold monthIndex at h
  omega

theorem lt_of_monthIndex_lt (h : a.monthIndex < b.monthIndex) : a < b := by
  obtain ⟨ha, -, -, -⟩ := a.month_bounds
  obtain ⟨-, hb, -, -⟩ := b.month_bounds
  unfold monthIndex at h
  rw [lt_iff]
  omega

theorem monthIndex_le_of_lt (h : a < b) : a.monthIndex ≤ b.monthIndex := by
  by_contra hlt
  exact lt_of_monthIndex_lt (not_le.mp hlt) (le_of_not_le h)

/-- Of two dates in one month the one on the earlier day comes first. -/
theorem le_iff_of_monthIndex_eq (h : a.monthIndex = b.monthIndex) : a ≤ b ↔ a.day ≤ b.day := by
  obtain ⟨hyear, hmonth⟩ := eq_of_monthIndex_eq h
  rw [le_iff]
  omega

theorem monthIndex_bounds (d : Date) : -3145716 ≤ d.monthIndex ∧ d.monthIndex ≤ 3145715 := by
  obtain ⟨hfirst, hlast⟩ := d.isDay.1
  obtain ⟨hlow, hhigh, -, -⟩ := d.month_bounds
  unfold firstYear at hfirst
  unfold lastYear at hlast
  unfold monthIndex
  omega

/-! ### Counts of 32 bits -/

theorem fitsCount_iff {n : Int} : fitsCount n = true ↔ -2147483648 ≤ n ∧ n < 2147483648 := by
  unfold fitsCount
  rw [Bool.and_eq_true, decide_eq_true_iff, decide_eq_true_iff]

theorem fitsCount_natCast {n : Nat} (hn : n < 2147483648) : fitsCount n = true := fitsCount_iff.mpr (by omega)

theorem count32_of_lt {n : Int} (hlow : -2147483648 ≤ n) (hhigh : n < 2147483648) : count32 n = n := by
  unfold count32 Int.bmod
  dsimp only
  omega

/-- A month index that wraps around lies outside of the calendar, and so it does afterwards. -/
theorem count32_monthIndex (d : Date) {n : Int} (hn : fitsCount n = true) :
    count32 (d.monthIndex + n) = d.monthIndex + n ∨
      ¬IsYear ((d.monthIndex + n) / 12) ∧ ¬IsYear (count32 (d.monthIndex + n) / 12) := by
  obtain ⟨hlow, hhigh⟩ := d.monthIndex_bounds
  obtain ⟨hn, hn'⟩ := fitsCount_iff.mp hn
  unfold IsYear firstYear lastYear count32 Int.bmod
  dsimp only
  omega

/-- So does a year that wraps around. -/
theorem count32_year (d : Date) {n : Int} (hn : fitsCount n = true) :
    count32 (d.year + n) = d.year + n ∨ ¬IsYear (d.year + n) ∧ ¬IsYear (count32 (d.year + n)) := by
  obtain ⟨hlow, hhigh⟩ := d.isDay.1
  obtain ⟨hn, hn'⟩ := fitsCount_iff.mp hn
  unfold firstYear at hlow
  unfold lastYear at hhigh
  unfold IsYear firstYear lastYear count32 Int.bmod
  dsimp only
  omega

/-! ### Months that are reached -/

theorem monthLength_pos (year : Int) {month : Nat} (hlow : 1 ≤ month) (hhigh : month ≤ 12) : 1 ≤ monthLength year month := by
  unfold monthLength
  split
  case h_12 => split <;> decide
  case h_13 => grind
  all_goals decide

theorem ofParts_of_isDay {year : Int} {month day : Nat} (h : IsDay year month day) :
    ofParts year month day = .ok ⟨year, month, day, h⟩ := by
  unfold ofParts ofParts?
  rw [dif_pos h]

theorem isDay_cutDay (d : Date) {year : Int} {month : Nat} (hyear : IsYear year) (hlow : 1 ≤ month)
    (hhigh : month ≤ 12) : IsDay year month (cutDay d.day year month) := by
  obtain ⟨-, -, hday, -⟩ := d.month_bounds
  unfold cutDay
  rw [if_pos hyear]
  exact ⟨hyear, le_min hday (monthLength_pos year hlow hhigh), min_le_right _ _⟩

/-- There is no such date, which is said. -/
def IsRefused (r : Except CalendarError Date) : Prop := ∃ fault, r = .error (.invalidDate fault)

theorem IsRefused.ne_ok {r : Except CalendarError Date} (h : IsRefused r) : r ≠ .ok d := by
  rintro rfl
  obtain ⟨fault, h⟩ := h
  cases h

theorem isRefused_ofParts {year : Int} {month day : Nat} (h : ¬IsYear year) : IsRefused (ofParts year month day) := by
  unfold ofParts ofParts?
  rw [dif_neg fun hday => h hday.1]
  exact ⟨_, rfl⟩

/-- The date lies in the month with an index, on a given day or on the last one of a shorter month. -/
structure LandsOn (e : Date) (index : Int) (day : Nat) : Prop where
  year_eq : e.year = index / 12
  month_eq : (e.month : Int) = index % 12 + 1
  day_eq : e.day = min day (monthLength e.year e.month)

theorem LandsOn.monthIndex_eq {index : Int} {day : Nat} (h : e.LandsOn index day) : e.monthIndex = index := by
  unfold monthIndex
  rw [h.year_eq, h.month_eq]
  omega

/-- Just the date that lands there is answered, if its year is in the calendar. -/
structure Reaches (r : Except CalendarError Date) (index : Int) (day : Nat) : Prop where
  lands : IsYear (index / 12) → ∃ e, r = .ok e ∧ e.LandsOn index day
  refused : ¬IsYear (index / 12) → IsRefused r

theorem reaches_ofParts (d : Date) (index : Int) :
    Reaches (ofParts (index / 12) (index % 12 + 1).toNat (cutDay d.day (index / 12) (index % 12 + 1).toNat)) index d.day where
  lands hyear := by
    have hmonth : 1 ≤ (index % 12 + 1).toNat ∧ (index % 12 + 1).toNat ≤ 12 := by omega
    have hday := d.isDay_cutDay hyear hmonth.1 hmonth.2
    refine ⟨_, ofParts_of_isDay hday, rfl, ?_, congrArg (min d.day) (if_pos hyear)⟩
    dsimp only
    omega
  refused hyear := isRefused_ofParts hyear

theorem Reaches.of_ok {r : Except CalendarError Date} {index : Int} {day : Nat} (h : Reaches r index day)
    (hr : r = .ok e) : e.LandsOn index day := by
  by_cases hyear : IsYear (index / 12)
  · obtain ⟨e', he', hlands⟩ := h.lands hyear
    cases hr.symm.trans he'
    exact hlands
  · exact absurd hr (h.refused hyear).ne_ok

theorem addMonths_eq (d : Date) (n : Int) :
    d.addMonths n =
      let total := count32 (d.monthIndex + n)
      ofParts (total / 12) (total % 12 + 1).toNat (cutDay d.day (total / 12) (total % 12 + 1).toNat) := rfl

theorem addMonths_reaches (d : Date) {n : Int} (hn : fitsCount n = true) :
    Reaches (d.addMonths n) (d.monthIndex + n) d.day := by
  rw [addMonths_eq]
  rcases d.count32_monthIndex hn with hkept | ⟨hyear, hwrapped⟩
  · rw [hkept]
    exact d.reaches_ofParts _
  · exact ⟨fun h => absurd h hyear, fun _ => isRefused_ofParts hwrapped⟩

/-- Years are added as twelve months each. -/
theorem addYears_reaches (d : Date) {n : Int} (hn : fitsCount n = true) :
    Reaches (d.addYears n) (d.monthIndex + 12 * n) d.day := by
  obtain ⟨hlow, hhigh, -, -⟩ := d.month_bounds
  have hyear : (d.monthIndex + 12 * n) / 12 = d.year + n := by
    unfold monthIndex
    omega
  have hmonth : ((d.monthIndex + 12 * n) % 12 + 1).toNat = d.month := by
    unfold monthIndex
    omega
  change Reaches (ofParts (count32 (d.year + n)) d.month _) _ _
  rcases d.count32_year hn with hkept | ⟨houtside, hwrapped⟩
  · rw [hkept, ← hyear]
    exact hmonth ▸ d.reaches_ofParts _
  · rw [← hyear] at houtside
    exact ⟨fun h => absurd h houtside, fun _ => isRefused_ofParts hwrapped⟩

/-! ### The order of what is reached -/

theorem monthIndex_addMonths {n : Int} (hn : fitsCount n = true) (h : d.addMonths n = .ok e) :
    e.monthIndex = d.monthIndex + n :=
  ((d.addMonths_reaches hn).of_ok h).monthIndex_eq

/-- A month that is not reached lies outside of the calendar. -/
theorem not_isYear_of_addMonths {n : Int} (hn : fitsCount n = true) {error : CalendarError}
    (h : d.addMonths n = .error error) : ¬IsYear ((d.monthIndex + n) / 12) := by
  intro hyear
  obtain ⟨e, he, -⟩ := (d.addMonths_reaches hn).lands hyear
  cases he.symm.trans h

/-- Months that are counted forward leave the calendar at its end. -/
theorem lastYear_lt_of_addMonths {n : Nat} (hn : n < 2147483648) {error : CalendarError}
    (h : d.addMonths n = .error error) : lastYear < (d.monthIndex + n) / 12 := by
  have hyear := not_isYear_of_addMonths (fitsCount_natCast hn) h
  obtain ⟨hlow, -⟩ := d.monthIndex_bounds
  unfold IsYear firstYear at hyear
  omega

/-- Months added to an earlier date do not lead further. -/
theorem addMonths_le {n : Int} (hn : fitsCount n = true) {a' b' : Date} (h : a ≤ b) (ha : a.addMonths n = .ok a')
    (hb : b.addMonths n = .ok b') : a' ≤ b' := by
  have ha := (a.addMonths_reaches hn).of_ok ha
  have hb := (b.addMonths_reaches hn).of_ok hb
  have hindices : a.monthIndex ≤ b.monthIndex := by
    rcases lt_or_eq_of_le h with hlt | rfl
    · exact monthIndex_le_of_lt hlt
    · exact Int.le_refl _
  rcases Int.lt_or_eq_of_le hindices with hlt | heq
  · refine (lt_of_monthIndex_lt ?_).le
    rw [ha.monthIndex_eq, hb.monthIndex_eq]
    omega
  · -- The days are cut to the length of the same month.
    have hsame : a'.monthIndex = b'.monthIndex := by rw [ha.monthIndex_eq, hb.monthIndex_eq, heq]
    obtain ⟨hyear, hmonth⟩ := eq_of_monthIndex_eq hsame
    rw [le_iff_of_monthIndex_eq hsame, ha.day_eq, hb.day_eq, hyear, hmonth]
    exact min_le_min_right _ ((le_iff_of_monthIndex_eq heq).mp h)

/-- More months lead further. -/
theorem addMonths_lt {m n : Int} (hm : fitsCount m = true) (hn : fitsCount n = true) (h : m < n) {e' : Date}
    (he : d.addMonths m = .ok e) (he' : d.addMonths n = .ok e') : e < e' := by
  refine lt_of_monthIndex_lt ?_
  rw [monthIndex_addMonths hm he, monthIndex_addMonths hn he']
  omega

/-- At most one date lands in a month on a given day. -/
theorem LandsOn.unique {index : Int} {day : Nat} (ha : a.LandsOn index day) (hb : b.LandsOn index day) : a = b := by
  have hsame := ha.monthIndex_eq.trans hb.monthIndex_eq.symm
  obtain ⟨hyear, hmonth⟩ := eq_of_monthIndex_eq hsame
  have hday : a.day = b.day := by rw [ha.day_eq, hb.day_eq, hyear, hmonth]
  exact Date.ext hyear hmonth hday

/-- Years are added as months are, or refused if their months are more than a count holds. -/
theorem addYears_eq_addMonths (d : Date) {n : Int} (hn : fitsCount n = true) :
    (fitsCount (12 * n) = true →
      (∃ e, d.addYears n = .ok e ∧ d.addMonths (12 * n) = .ok e) ∨
        IsRefused (d.addYears n) ∧ IsRefused (d.addMonths (12 * n))) ∧
    (fitsCount (12 * n) = false → IsRefused (d.addYears n)) := by
  have hyears := d.addYears_reaches hn
  constructor
  · intro hmonths
    have hmonths := d.addMonths_reaches hmonths
    by_cases hyear : IsYear ((d.monthIndex + 12 * n) / 12)
    · obtain ⟨e, he, hlands⟩ := hyears.lands hyear
      obtain ⟨e', he', hlands'⟩ := hmonths.lands hyear
      obtain rfl := hlands.unique hlands'
      exact .inl ⟨e, he, he'⟩
    · exact .inr ⟨hyears.refused hyear, hmonths.refused hyear⟩
  · intro hmany
    refine hyears.refused fun hyear => ?_
    obtain ⟨hlow, hhigh⟩ := d.monthIndex_bounds
    have hfew : fitsCount (12 * n) = true := by
      unfold IsYear firstYear lastYear at hyear
      rw [fitsCount_iff]
      omega
    rw [hfew] at hmany
    cases hmany

/-- A date to which months are added is answered just if the month that is counted lies in a year of the calendar: it is
    the date in that month on the same day, or on the last one of a shorter month. Otherwise it is said that there is no
    such date, also where the counts wrap around. So later dates do not come to lie before earlier ones, and more months
    lead further. Years are added as twelve months each, and none are added if their months are more than a count holds. -/
theorem month_arithmetic (d : Date) :
    (∀ n, fitsCount n = true → Reaches (d.addMonths n) (d.monthIndex + n) d.day) ∧
    (∀ n, fitsCount n = true → ∀ a b a' b' : Date, a ≤ b → a.addMonths n = .ok a' → b.addMonths n = .ok b' → a' ≤ b') ∧
    (∀ m n, fitsCount m = true → fitsCount n = true → m < n →
      ∀ e e', d.addMonths m = .ok e → d.addMonths n = .ok e' → e < e') ∧
    ∀ n, fitsCount n = true →
      (fitsCount (12 * n) = true →
        (∃ e, d.addYears n = .ok e ∧ d.addMonths (12 * n) = .ok e) ∨
          IsRefused (d.addYears n) ∧ IsRefused (d.addMonths (12 * n))) ∧
      (fitsCount (12 * n) = false → IsRefused (d.addYears n)) :=
  ⟨fun _ hn => d.addMonths_reaches hn, fun _ hn _ _ _ _ => addMonths_le hn,
    fun _ _ hm hn h _ _ => addMonths_lt hm hn h, fun _ hn => d.addYears_eq_addMonths hn⟩

/-- A leap day. -/
def leapDay : Date := ⟨2024, 2, 29, by decide⟩

/-- The last day of the calendar. -/
def lastDay : Date := ⟨lastYear, 12, 31, by decide⟩

/-- A month after the last two days of a January, a month after the calendar, and years after a leap day. -/
theorem month_arithmetic_monthEnds :
    leapDay.LandsOn (24288 + 1) 31 ∧ IsRefused (lastDay.addMonths 1) ∧ leapDay ≤ leapDay ∧
      leapDay < ⟨2024, 3, 31, by decide⟩ ∧
      (∃ e, leapDay.addYears 1 = .ok e ∧ leapDay.addMonths 12 = .ok e) ∧ IsRefused (leapDay.addYears 178956971) := by
  have hjanuary := month_arithmetic ⟨2024, 1, 31, by decide⟩
  have hreached := hjanuary.1 1 (by decide)
  have hbeyond := (month_arithmetic lastDay).1 1 (by decide)
  have hle := hjanuary.2.1 1 (by decide) ⟨2024, 1, 30, by decide⟩ ⟨2024, 1, 31, by decide⟩ leapDay leapDay
    (by decide) (by decide +kernel) (by decide +kernel)
  have hlt := hjanuary.2.2.1 1 2 (by decide) (by decide) (by decide) leapDay ⟨2024, 3, 31, by decide⟩
    (by decide +kernel) (by decide +kernel)
  have hyears := (month_arithmetic leapDay).2.2.2
  refine ⟨hreached.of_ok (by decide +kernel), hbeyond.refused (by decide), hle, hlt, ?_,
    (hyears 178956971 (by decide)).2 (by decide)⟩
  rcases (hyears 1 (by decide)).1 (by decide) with hsame | ⟨hrefused, -⟩
  · exact hsame
  · have hyear : leapDay.addYears 1 = .ok ⟨2025, 2, 28, by decide⟩ := by decide +kernel
    exact absurd hyear hrefused.ne_ok

end TermStructure.Date
