import TermStructure.Proofs.Scalar.Exact
import TermStructure.Curve.Reading

/-!
# The order of dates

Dates are ordered by their parts and numbered by their days, and the two agree. So in exact arithmetic a
later date has a later time, whatever the day count.
-/

namespace TermStructure

namespace Date

variable {a b : Date}

/-- The first day of a year of the calendar. -/
def newYear (year : Int) : Date := (ofParts? year 1 1).getD default

theorem le_iff : a ≤ b ↔ a.year < b.year ∨ a.year = b.year ∧ (a.month < b.month ∨ a.month = b.month ∧ a.day ≤ b.day) := by
  change a.le b = true ↔ _
  simp [le]

theorem le_total (a b : Date) : a ≤ b ∨ b ≤ a := by
  rw [le_iff, le_iff]
  omega

theorem le_of_not_le (h : ¬b ≤ a) : a ≤ b := (le_total a b).resolve_right h

theorem le_antisymm (hab : a ≤ b) (hba : b ≤ a) : a = b := by
  rw [le_iff] at hab hba
  obtain ⟨y, m, d, _⟩ := a
  obtain ⟨y', m', d', _⟩ := b
  dsimp only at hab hba
  obtain ⟨rfl, rfl, rfl⟩ : y = y' ∧ m = m' ∧ d = d' := by omega
  rfl

instance : LinearOrder Date where
  le_refl a := le_iff.mpr (.inr ⟨rfl, .inr ⟨rfl, Nat.le_refl _⟩⟩)
  le_trans a b c hab hbc := by
    rw [le_iff] at hab hbc ⊢
    omega
  le_antisymm _ _ := le_antisymm
  le_total := le_total
  lt_iff_le_not_ge _ _ := ⟨fun h => ⟨le_of_not_le h, h⟩, And.right⟩
  toDecidableLE := inferInstance
  toDecidableEq := inferInstance
  toDecidableLT := inferInstance

theorem month_bounds (d : Date) : 1 ≤ d.month ∧ d.month ≤ 12 ∧ 1 ≤ d.day ∧ d.day ≤ monthLength d.year d.month := by
  obtain ⟨year, month, day, -, hday, hlen⟩ := d
  dsimp only
  have hpos : monthLength year month ≠ 0 := by omega
  rcases month with _ | _ | _ | _ | _ | _ | _ | _ | _ | _ | _ | _ | _ | month
  case zero => exact absurd rfl hpos
  case succ.succ.succ.succ.succ.succ.succ.succ.succ.succ.succ.succ.succ => exact absurd rfl hpos
  all_goals exact ⟨by omega, by omega, hday, hlen⟩

/-- The days of a year. -/
def yearLength (year : Int) : Nat := if isLeapYear year then 366 else 365

theorem daysBeforeYear_succ (year : Int) : daysBeforeYear (year + 1) = daysBeforeYear year + yearLength year := by
  unfold daysBeforeYear yearLength isLeapYear
  split
  · rename_i h
    simp only [Bool.and_eq_true, Bool.or_eq_true, beq_iff_eq, bne_iff_ne] at h
    omega
  · rename_i h
    simp only [Bool.and_eq_true, Bool.or_eq_true, beq_iff_eq, bne_iff_ne] at h
    omega

theorem daysBeforeYear_mono {y z : Int} (h : y ≤ z) : daysBeforeYear y ≤ daysBeforeYear z := by
  unfold daysBeforeYear
  omega

theorem daysBeforeMonth_mono (year : Int) {m n : Nat} (h : m ≤ n) : daysBeforeMonth year m ≤ daysBeforeMonth year n := by
  induction n with
  | zero => rw [Nat.le_zero.mp h]
  | succ n ih =>
    rcases Nat.le_succ_iff.mp h with h | rfl
    · exact Nat.le_trans (ih h) (Nat.le_add_right _ _)
    · exact Nat.le_refl _

theorem daysBeforeMonth_thirteen (year : Int) : daysBeforeMonth year 13 = yearLength year := by
  unfold yearLength
  simp only [daysBeforeMonth, monthLength]
  split <;> rfl

/-- The day of a year. -/
def yearDay (d : Date) : Nat := daysBeforeMonth d.year d.month + d.day

theorem number_eq (d : Date) : d.number = daysBeforeYear d.year + d.yearDay := by
  unfold number yearDay
  push_cast
  ring

theorem yearDay_le (d : Date) : d.yearDay ≤ yearLength d.year := by
  obtain ⟨-, hm, -, hd⟩ := d.month_bounds
  rw [← daysBeforeMonth_thirteen]
  have hle : daysBeforeMonth d.year (d.month + 1) ≤ daysBeforeMonth d.year 13 := daysBeforeMonth_mono _ (by omega)
  have hsucc : daysBeforeMonth d.year (d.month + 1) = daysBeforeMonth d.year d.month + monthLength d.year d.month := rfl
  unfold yearDay
  omega

theorem yearDay_mono (hy : a.year = b.year) (h : a.month < b.month ∨ a.month = b.month ∧ a.day ≤ b.day) :
    a.yearDay ≤ b.yearDay := by
  unfold yearDay
  rw [hy]
  rcases h with h | ⟨h, hd⟩
  · obtain ⟨-, -, -, hd⟩ := a.month_bounds
    have hle := daysBeforeMonth_mono b.year (show a.month + 1 ≤ b.month from h)
    have hsucc : daysBeforeMonth b.year (a.month + 1) = daysBeforeMonth b.year a.month + monthLength b.year a.month := rfl
    rw [hy] at hd
    omega
  · rw [h]
    omega

theorem lt_iff : a < b ↔ a.year < b.year ∨ a.year = b.year ∧ (a.month < b.month ∨ a.month = b.month ∧ a.day < b.day) := by
  change ¬b ≤ a ↔ _
  rw [le_iff]
  omega

theorem yearDay_lt (hy : a.year = b.year) (h : a.month < b.month ∨ a.month = b.month ∧ a.day < b.day) :
    a.yearDay < b.yearDay := by
  rcases h with h | ⟨h, hd⟩
  · obtain ⟨-, -, hday, -⟩ := b.month_bounds
    obtain ⟨-, -, -, hlen⟩ := a.month_bounds
    have hle := daysBeforeMonth_mono b.year (show a.month + 1 ≤ b.month from h)
    have hsucc : daysBeforeMonth b.year (a.month + 1) = daysBeforeMonth b.year a.month + monthLength b.year a.month := rfl
    unfold yearDay
    rw [hy] at hlen ⊢
    omega
  · unfold yearDay
    rw [hy, h]
    omega

/-- An earlier date has a smaller number. -/
theorem number_le (h : a ≤ b) : a.number ≤ b.number := by
  rw [number_eq, number_eq]
  rcases le_iff.mp h with h | ⟨hy, h⟩
  · have hle := daysBeforeYear_mono (show a.year + 1 ≤ b.year from h)
    rw [daysBeforeYear_succ] at hle
    have hday := a.yearDay_le
    omega
  · have hday := yearDay_mono hy h
    rw [hy]
    omega

theorem number_lt (h : a < b) : a.number < b.number := by
  rw [number_eq, number_eq]
  rcases lt_iff.mp h with h | ⟨hy, h⟩
  · have hle := daysBeforeYear_mono (show a.year + 1 ≤ b.year from h)
    rw [daysBeforeYear_succ] at hle
    have hday := a.yearDay_le
    obtain ⟨-, -, hfirst, -⟩ := b.month_bounds
    have hpos : 1 ≤ b.yearDay := Nat.le_add_left_of_le hfirst
    omega
  · have hday := yearDay_lt hy h
    rw [hy]
    omega

end Date

section
variable {α : Type} [ScalarField α] [ExactScalar α]

/-- A later date has a later time. -/
theorem Frame.time_le (f : Frame) {a b : Date} (h : a ≤ b) : (f.time a : α) ≤ f.time b := by
  unfold Frame.time DayCount.yearFraction
  rw [ExactScalar.yearFraction_eq, ExactScalar.yearFraction_eq]
  have hbasis : (0 : α) ≤ f.dayCount.basis := Nat.cast_nonneg _
  have hdays : f.reference.daysUntil a ≤ f.reference.daysUntil b := by
    unfold Date.daysUntil
    have := Date.number_le h
    omega
  have hcast : ((f.reference.daysUntil a : Int) : α) ≤ (f.reference.daysUntil b : Int) := Int.cast_le.mpr hdays
  gcongr

/-- No date from the reference date on has a negative time. -/
theorem Frame.time_nonneg (f : Frame) {d : Date} (h : f.reference ≤ d) : (0 : α) ≤ f.time d := by
  unfold Frame.time DayCount.yearFraction
  rw [ExactScalar.yearFraction_eq]
  have hdays : 0 ≤ f.reference.daysUntil d := Int.sub_nonneg.mpr (Date.number_le h)
  exact div_nonneg (Int.cast_nonneg hdays) (Nat.cast_nonneg _)

theorem DayCount.basis_pos (c : DayCount) : 0 < c.basis := by
  cases c <;> exact Nat.succ_pos _

theorem DayCount.basis_le (c : DayCount) : c.basis ≤ 365 := by
  cases c <;> decide

theorem Frame.time_lt (f : Frame) {a b : Date} (h : a < b) : (f.time a : α) < f.time b := by
  unfold Frame.time DayCount.yearFraction
  rw [ExactScalar.yearFraction_eq, ExactScalar.yearFraction_eq]
  have hbasis : (0 : α) < f.dayCount.basis := Nat.cast_pos.mpr f.dayCount.basis_pos
  have hdays : f.reference.daysUntil a < f.reference.daysUntil b := by
    unfold Date.daysUntil
    have := Date.number_lt h
    omega
  have hcast : ((f.reference.daysUntil a : Int) : α) < (f.reference.daysUntil b : Int) := Int.cast_lt.mpr hdays
  gcongr

theorem Frame.time_strictMono (f : Frame) : StrictMono (f.time : Date → α) := fun _ _ h => f.time_lt h

/-- Dates that differ are at least a day apart, which no spacing of pillars comes near to. -/
theorem Frame.minSpacing_lt_of_lt (f : Frame) {a b : Date} (h : a < b) :
    (1e-10 : α) < f.time b - f.time a := by
  unfold Frame.time DayCount.yearFraction
  rw [ExactScalar.yearFraction_eq, ExactScalar.yearFraction_eq, ExactScalar.ofScientific_eq, if_pos rfl, ← sub_div,
    ← Int.cast_sub]
  have hdays : 1 ≤ f.reference.daysUntil b - f.reference.daysUntil a := by
    unfold Date.daysUntil
    have := Date.number_lt h
    omega
  have hcast : (1 : α) ≤ ((f.reference.daysUntil b - f.reference.daysUntil a : Int) : α) := by exact_mod_cast hdays
  have hbasis : (f.dayCount.basis : α) ≤ 365 := by exact_mod_cast f.dayCount.basis_le
  have hpos : (0 : α) < f.dayCount.basis := Nat.cast_pos.mpr f.dayCount.basis_pos
  rw [lt_div_iff₀ hpos]
  calc ((1 : Nat) : α) / 10 ^ 10 * f.dayCount.basis
    _ ≤ ((1 : Nat) : α) / 10 ^ 10 * 365 := by gcongr
    _ < 1 := by norm_num
    _ ≤ _ := hcast

/-- A period that ends after it starts has a positive length. -/
theorem DayCount.yearFraction_pos (c : DayCount) {a b : Date} (h : a < b) : (0 : α) < c.yearFraction a b := by
  unfold yearFraction
  rw [ExactScalar.yearFraction_eq]
  have hbasis : (0 : α) < c.basis := Nat.cast_pos.mpr c.basis_pos
  have hdays : 0 < a.daysUntil b := by
    unfold Date.daysUntil
    have := Date.number_lt h
    omega
  have hcast : (0 : α) < ((a.daysUntil b : Int) : α) := Int.cast_pos.mpr hdays
  positivity

end

end TermStructure
