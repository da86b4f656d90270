import TermStructure.Proofs.Interpolation.LastNode
import TermStructure.Proofs.Instrument.Schedule

/-!
# Quotes that fall

On discount factors that respond to the last of them, the quote that an instrument of the library implies
falls as that one grows. For a swap both the value of the floating leg and the annuity change; what decides is
that an earlier discount factor grows in a smaller proportion than a later one.
-/

namespace TermStructure

variable {α : Type} [ScalarField α]

/-- On curves with given discount factors up to the time `final` the computation has a result, which falls as
    the last of them grows. -/
def Reading.Falls (r : Reading α α) (D : α → α → α) (final : α) : Prop :=
  ∃ quote : α → α,
    (∀ x, 0 < x → ∀ A : Probe α → Except (CurveError α) α,
      (∀ t, 0 ≤ t → t ≤ final → A (.discount t) = .ok (D x t)) → r.run A = .ok (quote x)) ∧
    ∀ x y, 0 < x → x < y → quote y < quote x

variable {D : α → α → α} {final : α} {f : Frame}

omit [ScalarField α] in
theorem Reading.run_discount {A : Probe α → Except (CurveError α) α} {t y : α} (h : A (.discount t) = .ok y) :
    (discount t).run A = .ok y := h

omit [ScalarField α] in
theorem Reading.run_foldlM {β δ : Type} {A : Probe α → Except (CurveError α) α} {g : β → δ → Reading α β}
    {h : β → δ → β} {ds : List δ} (hstep : ∀ b, ∀ d ∈ ds, (g b d).run A = .ok (h b d)) (b : β) :
    (ds.foldlM g b).run A = .ok (ds.foldl h b) := by
  induction ds generalizing b with
  | nil => rfl
  | cons d rest ih =>
    rw [List.foldlM_cons, run_bind, hstep b d List.mem_cons_self]
    exact ih (fun b d hd => hstep b d (List.mem_cons_of_mem _ hd)) (h b d)

/-! ### Zero rates -/

theorem ZeroRate.run_implied (z : ZeroRate) {A : Probe α → Except (CurveError α) α} {d : α}
    (hpos : (0 : α) < f.time z.pillar) (hA : A (.discount (f.time z.pillar)) = .ok d) :
    (z.instrument.implied f).run A = .ok (-Scalar.ln d / f.time z.pillar) := by
  unfold instrument Reading.zeroRate
  dsimp only
  rw [if_pos hpos, Reading.run_bind, Reading.run_discount hA]
  rfl

theorem ZeroRate.falls [LawfulLn α] (z : ZeroRate) (hD : Responds D (f.time z.pillar)) (hpos : (0 : α) < f.time z.pillar) :
    (z.instrument.implied f : Reading α α).Falls D (f.time z.pillar) := by
  refine ⟨fun x => -Scalar.ln x / f.time z.pillar, fun x hx A hA => ?_, fun x y hx hxy => ?_⟩
  · have hanswer := hA _ hpos.le (le_refl _)
    rw [hD.last hx] at hanswer
    exact z.run_implied hpos hanswer
  · have hln := ln_lt_ln hx hxy
    dsimp only
    gcongr

/-! ### Deposits -/

theorem Deposit.falls [ExactScalar α] (d : Deposit) (hD : Responds D (f.time d.finish)) (hperiod : d.start < d.finish)
    (hstart : f.reference ≤ d.start) : (d.rate f : Reading α α).Falls D (f.time d.finish) := by
  have hbefore : (f.time d.start : α) < f.time d.finish := f.time_lt hperiod
  have hfirst : (0 : α) ≤ f.time d.start := f.time_nonneg hstart
  refine ⟨fun x => (D x (f.time d.start) / x - 1) / d.accrual, fun x hx A hA => ?_, fun x y hx hxy => ?_⟩
  · have hanswer := hA _ hfirst hbefore.le
    have hanswer' := hA _ (hfirst.trans hbefore.le) (le_refl _)
    rw [hD.last hx] at hanswer'
    unfold rate Reading.discountAt
    rw [Reading.run_bind, Reading.run_discount hanswer]
    change Reading.run A _ = _
    rw [Reading.run_bind, Reading.run_discount hanswer']
    rfl
  · have haccrual : (0 : α) < d.accrual := d.dayCount.yearFraction_pos hperiod
    have hratio : D y (f.time d.start) / y < D x (f.time d.start) / x :=
      (div_lt_div_iff₀ (hx.trans hxy) hx).mpr (hD.strict hx hxy hfirst hbefore)
    dsimp only
    gcongr

/-! ### Swaps -/

namespace Swap

/-- The annuity on given discount factors. -/
def annuityOn (s : Swap) (f : Frame) (D : α → α) : α :=
  ((s.payments.zip s.accruals).map fun payment => payment.2 * D (f.time payment.1)).sum

theorem run_annuity (s : Swap) {A : Probe α → Except (CurveError α) α} {D : α → α}
    (hA : ∀ date ∈ s.payments, A (.discount (f.time date)) = .ok (D (f.time date))) :
    (s.annuity f).run A = .ok (s.annuityOn f D) := by
  have hstep (total : α) (payment : Date × α) (hpayment : payment ∈ s.payments.zip s.accruals) :
      (do
        let d ← Reading.discountAt f payment.1
        return total + payment.2 * d : Reading α α).run A
        = .ok (total + payment.2 * D (f.time payment.1)) := by
    rw [Reading.discountAt, Reading.run_bind, Reading.run_discount (hA _ (List.of_mem_zip hpayment).1)]
    rfl
  have hrun := Reading.run_foldlM hstep 0
  unfold annuity annuityOn
  rw [List.sum_eq_foldl, List.foldl_map]
  exact hrun

section
variable [ExactScalar α] {s : Swap} (hdates : (s.start :: s.payments).Pairwise (· < ·))
include hdates

theorem annuityOn_pos {D : α → α} (hne : s.payments ≠ []) (hD : ∀ date ∈ s.payments, 0 < D (f.time date)) :
    0 < s.annuityOn f D := by
  obtain ⟨accrual, hsome⟩ := exists_accrual (α := α) (List.head_mem hne)
  refine List.sum_pos _ (fun value hvalue => ?_) (List.ne_nil_of_mem (List.mem_map_of_mem hsome))
  obtain ⟨payment, hpayment, rfl⟩ := List.mem_map.mp hvalue
  exact mul_pos (accrual_pos hdates hpayment).2 (hD _ (List.of_mem_zip hpayment).1)

variable (hD : Responds D (f.time s.maturity)) (hlast : s.maturity ∈ s.payments)
  (hbound : ∀ date ∈ s.payments, date ≤ s.maturity) (hstart : f.reference ≤ s.start)
include hD hlast hbound hstart

/-- Payment by payment, the floating leg falls short of growing with the fixed one. -/
theorem floating_mul_annuityOn_lt {x y : α} (hx : 0 < x) (hxy : x < y) :
    (D y (f.time s.start) - y) * s.annuityOn f (D x) < (D x (f.time s.start) - x) * s.annuityOn f (D y) := by
  have hfirst : (0 : α) ≤ f.time s.start := f.time_nonneg hstart
  have hafter {date : Date} (hdate : date ∈ s.payments) : (f.time s.start : α) < f.time date :=
    f.time_lt (List.rel_of_pairwise_cons hdates hdate)
  obtain ⟨final, hfinal⟩ := exists_accrual (α := α) hlast
  unfold annuityOn
  rw [← List.sum_map_mul_left, ← List.sum_map_mul_left]
  refine List.sum_lt_sum _ _ (fun payment hpayment => ?_) ⟨(s.maturity, final), hfinal, ?_⟩
  · obtain ⟨-, haccrual⟩ := accrual_pos hdates hpayment
    obtain ⟨hdate, -⟩ := List.of_mem_zip hpayment
    have hbefore : (f.time payment.1 : α) ≤ f.time s.maturity := f.time_le (hbound _ hdate)
    have hstarts := hD.mono hx hxy hfirst (hafter hdate).le hbefore
    have hends := hD.mono hx hxy (hfirst.trans (hafter hdate).le) hbefore (le_refl _)
    rw [hD.last hx, hD.last (hx.trans hxy)] at hends
    have hle : (D y (f.time s.start) - y) * D x (f.time payment.1) ≤
        (D x (f.time s.start) - x) * D y (f.time payment.1) := by
      linarith
    rw [mul_left_comm, mul_left_comm (D x (f.time s.start) - x)]
    exact mul_le_mul_of_nonneg_left hle haccrual.le
  · obtain ⟨-, haccrual⟩ := accrual_pos hdates hfinal
    have hstrict := hD.strict hx hxy hfirst (hafter hlast)
    have hlt : (D y (f.time s.start) - y) * x < (D x (f.time s.start) - x) * y := by
      linarith
    dsimp only
    rw [hD.last hx, hD.last (hx.trans hxy), mul_left_comm, mul_left_comm (D x (f.time s.start) - x)]
    exact mul_lt_mul_of_pos_left hlt haccrual

theorem falls : (s.rate f : Reading α α).Falls D (f.time s.maturity) := by
  have hfirst : (0 : α) ≤ f.time s.start := f.time_nonneg hstart
  have hafter {date : Date} (hdate : date ∈ s.payments) : (0 : α) ≤ f.time date :=
    hfirst.trans (f.time_lt (List.rel_of_pairwise_cons hdates hdate)).le
  have hwithin {date : Date} (hdate : date ∈ s.payments) : (f.time date : α) ≤ f.time s.maturity :=
    f.time_le (hbound _ hdate)
  have hperiod : (f.time s.start : α) ≤ f.time s.maturity :=
    (f.time_lt (List.rel_of_pairwise_cons hdates hlast)).le
  have hannuity {x : α} (hx : 0 < x) : 0 < s.annuityOn f (D x) :=
    annuityOn_pos hdates (List.ne_nil_of_mem hlast) fun date hdate => hD.pos hx (hafter hdate) (hwithin hdate)
  refine ⟨fun x => (D x (f.time s.start) - x) / s.annuityOn f (D x), fun x hx A hA => ?_, fun x y hx hxy => ?_⟩
  · have hanswer := hA _ hfirst hperiod
    have hanswer' := hA _ (hfirst.trans hperiod) (le_refl _)
    rw [hD.last hx] at hanswer'
    have hrun := s.run_annuity fun date hdate => hA _ (hafter hdate) (hwithin hdate)
    unfold rate Reading.discountAt
    rw [Reading.run_bind, Reading.run_discount hanswer]
    change Reading.run A _ = _
    rw [Reading.run_bind, Reading.run_discount hanswer']
    change Reading.run A _ = _
    rw [Reading.run_bind, hrun]
    rfl
  · have hlt := floating_mul_annuityOn_lt hdates hD hlast hbound hstart hx hxy
    exact (div_lt_div_iff₀ (hannuity (hx.trans hxy)) (hannuity hx)).mpr hlt

end

end Swap

/-! ### Products -/

/-- The product starts on the given date or later, if it has a start. -/
def Product.StartsFrom (reference : Date) : Product α → Prop
  | zeroRate _ => True
  | deposit d => reference ≤ d.start
  | swap s => reference ≤ s.start
  | other _ => True

/-- The quote that a product of the library implies falls. -/
theorem Product.IsStandard.falls [ExactScalar α] [LawfulLn α] {p : Product α} (h : p.IsStandard)
    (hstart : p.StartsFrom f.reference) (hpos : (0 : α) < f.time p.instrument.pillar)
    (hD : Responds D (f.time p.instrument.pillar)) :
    (p.instrument.implied f).Falls D (f.time p.instrument.pillar) := by
  cases h with
  | zeroRate z => exact z.falls hD hpos
  | deposit h => exact Deposit.falls _ hD (Deposit.make_increasing h) hstart
  | swap h =>
    obtain ⟨hdates, hlast⟩ := Swap.make_increasing h
    obtain ⟨-, hbound⟩ := Swap.make_ok h
    exact Swap.falls hdates hD hlast hbound hstart

end TermStructure
