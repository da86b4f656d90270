import TermStructure.Proofs.Calendar.Order
import TermStructure.Instrument.Product

/-!
# What instruments read

The instruments of the library read a curve up to the time of their pillar and no further, and an error
they meet is what they end with.
-/

namespace TermStructure

namespace Reading

variable {α β γ : Type} {P : Probe α → Prop} {r : Reading α β} {A B : Probe α → Except (CurveError α) α}

theorem run_bind (A : Probe α → Except (CurveError α) α) (r : Reading α β) (f : β → Reading α γ) :
    (r >>= f).run A = r.run A >>= fun b => (f b).run A := by
  change (r.bind f).run A = _
  induction r with
  | done result => cases result <;> rfl
  | ask p next ih => exact ih (A p)

/-- Whatever is answered, only certain questions are asked, and the first error ends the computation. -/
def Plain (P : Probe α → Prop) : Reading α β → Prop
  | .done _ => True
  | .ask p next => P p ∧ (∀ e, next (.error e) = .done (.error e)) ∧ ∀ y, (next (.ok y)).Plain P

theorem Plain.bind (hr : r.Plain P) {f : β → Reading α γ} (hf : ∀ b, (f b).Plain P) : (r >>= f).Plain P := by
  change (r.bind f).Plain P
  induction r with
  | done result =>
    cases result with
    | error e => trivial
    | ok b => exact hf b
  | ask p next ih =>
    obtain ⟨hp, herror, hok⟩ := hr
    refine ⟨hp, fun e => ?_, fun y => ih _ (hok y)⟩
    dsimp only
    rw [herror e]
    rfl

theorem plain_pure (b : β) : (pure b : Reading α β).Plain P := trivial

theorem plain_discount {t : α} (h : P (.discount t)) : (discount t).Plain P := ⟨h, fun _ => rfl, fun _ => trivial⟩

theorem plain_foldlM {δ : Type} {f : β → δ → Reading α β} {ds : List δ} (hf : ∀ b, ∀ d ∈ ds, (f b d).Plain P) (b : β) :
    (ds.foldlM f b).Plain P := by
  induction ds generalizing b with
  | nil => exact plain_pure b
  | cons d rest ih =>
    rw [List.foldlM_cons]
    refine (hf b d List.mem_cons_self).bind fun c => ?_
    exact ih (fun b d hd => hf b d (List.mem_cons_of_mem _ hd)) c

/-- Curves that answer what is asked alike are read alike. -/
theorem Plain.run_congr (hr : r.Plain P) (h : ∀ p, P p → A p = B p) : r.run A = r.run B := by
  induction r with
  | done result => rfl
  | ask p next ih =>
    obtain ⟨hp, herror, hok⟩ := hr
    rw [run, run, ← h p hp]
    cases A p with
    | error e => rw [herror e]; rfl
    | ok y => exact ih _ (hok y)

/-- A curve that refuses some questions which another one answers is read like that one, or is refused. -/
theorem Plain.run_refused (hr : r.Plain P)
    (h : ∀ p, A p = B p ∨ ∃ t low high, A p = .error (.extrapolation t low high)) :
    r.run A = r.run B ∨ ∃ t low high, r.run A = .error (.extrapolation t low high) := by
  induction r with
  | done result => exact .inl rfl
  | ask p next ih =>
    obtain ⟨-, herror, hok⟩ := hr
    rw [run, run]
    rcases h p with hp | ⟨t, low, high, hp⟩
    · rw [← hp]
      cases A p with
      | error e => rw [herror e]; exact .inl rfl
      | ok y => exact ih _ (hok y)
    · rw [hp, herror]
      exact .inr ⟨t, low, high, rfl⟩

/-- Whatever is answered, the computation ends with a result, or with an error of some sort that is an answer
    or its own. -/
def Reports (E : CurveError α → Prop) : Reading α β → Prop
  | .done (.ok _) => True
  | .done (.error e) => E e
  | .ask _ next => (∀ y, (next (.ok y)).Reports E) ∧ ∀ e, E e → (next (.error e)).Reports E

variable {E : CurveError α → Prop}

theorem reports_pure (b : β) : (pure b : Reading α β).Reports E := trivial

theorem reports_value (t : α) : (value t).Reports E := ⟨fun _ => trivial, fun _ he => he⟩

theorem reports_discount (t : α) : (discount t).Reports E := ⟨fun _ => trivial, fun _ he => he⟩

theorem Reports.bind (hr : r.Reports E) {f : β → Reading α γ} (hf : ∀ b, (f b).Reports E) : (r >>= f).Reports E := by
  change (r.bind f).Reports E
  induction r with
  | done result =>
    cases result with
    | error e => exact hr
    | ok b => exact hf b
  | ask p next ih => exact ⟨fun y => ih _ (hr.1 y), fun e he => ih _ (hr.2 e he)⟩

theorem reports_foldlM {δ : Type} {f : β → δ → Reading α β} (hf : ∀ b d, (f b d).Reports E) (ds : List δ) (b : β) :
    (ds.foldlM f b).Reports E := by
  induction ds generalizing b with
  | nil => exact reports_pure b
  | cons d rest ih =>
    rw [List.foldlM_cons]
    exact (hf b d).bind ih

theorem Reports.run (hr : r.Reports E) (hA : ∀ p e, A p = .error e → E e) {e : CurveError α}
    (he : r.run A = .error e) : E e := by
  induction r with
  | done result =>
    change result = .error e at he
    subst he
    exact hr
  | ask p next ih =>
    change (next (A p)).run A = .error e at he
    cases hp : A p with
    | ok y =>
      rw [hp] at he
      exact ih _ (hr.1 y) he
    | error e' =>
      rw [hp] at he
      exact ih _ (hr.2 e' (hA p e' hp)) he

end Reading

/-! ### Payment dates -/

namespace Swap

theorem roll_lt_of_firstLateRoll {start maturity : Date} {months tries k late : Nat}
    (h : firstLateRoll start maturity months tries k = .ok late) {j : Nat} (hk : k ≤ j) (hj : j < late) {date : Date}
    (hr : roll start months j = .ok date) : ¬maturity ≤ date := by
  induction tries generalizing k with
  | zero =>
    cases h
    omega
  | succ tries ih =>
    unfold firstLateRoll at h
    split at h
    · cases h
    · rename_i d hd
      split at h
      · cases h
        omega
      · rename_i hlate
        rcases Nat.eq_or_lt_of_le hk with rfl | hk
        · rw [hd] at hr
          cases hr
          exact hlate
        · exact ih h hk

/-- The payments are the rolls before the first late one, and maturity. -/
theorem schedule_ok {start maturity : Date} {months : Nat} {payments : List Date}
    (h : schedule start maturity months = .ok payments) :
    ∃ late, firstLateRoll start maturity months (monthsSpanned start maturity) 1 = .ok late ∧
      payments = (List.range' 1 (late - 1)).filterMap (fun k => (roll start months k).toOption) ++ [maturity] := by
  unfold schedule at h
  cases hl : firstLateRoll start maturity months (monthsSpanned start maturity) 1 with
  | error e =>
    rw [hl] at h
    cases h
  | ok late =>
    rw [hl] at h
    exact ⟨late, rfl, (Except.ok.inj h).symm⟩

theorem roll_of_mem {start date : Date} {months late : Nat}
    (h : date ∈ (List.range' 1 (late - 1)).filterMap fun k => (roll start months k).toOption) :
    ∃ k, 1 ≤ k ∧ k < late ∧ roll start months k = .ok date := by
  obtain ⟨k, hk, hroll⟩ := List.mem_filterMap.mp h
  obtain ⟨hk1, hk2⟩ := List.mem_range'_1.mp hk
  cases hr : roll start months k with
  | error e =>
    rw [hr] at hroll
    cases hroll
  | ok d =>
    rw [hr] at hroll
    cases hroll
    exact ⟨k, hk1, by omega, hr⟩

/-- No payment is after maturity. -/
theorem payment_le {start maturity : Date} {months : Nat} {payments : List Date}
    (h : schedule start maturity months = .ok payments) : ∀ date ∈ payments, date ≤ maturity := by
  intro date hdate
  obtain ⟨late, hlate, rfl⟩ := schedule_ok h
  rcases List.mem_append.mp hdate with hd | hd
  · obtain ⟨k, hk1, hk2, hroll⟩ := roll_of_mem hd
    exact Date.le_of_not_le (roll_lt_of_firstLateRoll hlate hk1 hk2 hroll)
  · exact (List.mem_singleton.mp hd).le

theorem make_ok {start maturity : Date} {months : Nat} {dayCount : DayCount} {s : Swap}
    (h : make start maturity months dayCount = .ok s) :
    s.start ≤ s.maturity ∧ ∀ date ∈ s.payments, date ≤ s.maturity := by
  unfold make at h
  split at h
  · cases h
  · rename_i hperiod
    split at h
    · cases h
    · split at h
      · rename_i payments hs
        cases h
        exact ⟨Date.le_of_not_le hperiod, payment_le hs⟩
      · cases h

end Swap

theorem Deposit.make_increasing {start finish : Date} {dayCount : DayCount} {d : Deposit}
    (h : make start finish dayCount = .ok d) : d.start < d.finish := by
  unfold make at h
  split at h
  · cases h
  · rename_i hperiod
    cases h
    exact hperiod

theorem Deposit.make_ok {start finish : Date} {dayCount : DayCount} {d : Deposit}
    (h : make start finish dayCount = .ok d) : d.start ≤ d.finish :=
  Date.le_of_not_le (make_increasing h)

/-! ### Products -/

/-- A product of the library, made as the library makes it. -/
inductive Product.IsStandard {α : Type} : Product α → Prop where
  | zeroRate (z : ZeroRate) : IsStandard (.zeroRate z)
  | deposit {start finish : Date} {dayCount : DayCount} {d : Deposit} (h : Deposit.make start finish dayCount = .ok d) :
      IsStandard (.deposit d)
  | swap {start maturity : Date} {months : Nat} {dayCount : DayCount} {s : Swap}
      (h : Swap.make start maturity months dayCount = .ok s) : IsStandard (.swap s)

theorem Product.IsStandard.latest {α : Type} [Scalar α] {p : Product α} (h : p.IsStandard) :
    p.instrument.latest = p.instrument.pillar := by
  cases h <;> rfl

section
variable {α : Type} [Scalar α] {E : CurveError α → Prop}

/-- A product of the library has no errors of its own. -/
theorem Product.IsStandard.reports {p : Product α} (h : p.IsStandard) (f : Frame) :
    (p.instrument.implied f).Reports E := by
  cases h with
  | zeroRate z => exact (Reading.reports_discount _).bind fun _ => Reading.reports_pure _
  | deposit h =>
    exact (Reading.reports_discount _).bind fun _ => (Reading.reports_discount _).bind fun _ => Reading.reports_pure _
  | @swap _ _ _ _ s h =>
    have hannuity : (s.annuity f : Reading α α).Reports E := by
      refine Reading.reports_foldlM (fun total payment => ?_) _ _
      exact (Reading.reports_discount _).bind fun _ => Reading.reports_pure _
    exact (Reading.reports_discount _).bind fun _ => (Reading.reports_discount _).bind fun _ =>
      hannuity.bind fun _ => Reading.reports_pure _

theorem Helper.reports_quoteError {h : Helper α} {f : Frame} (himplied : (h.instrument.implied f).Reports E)
    (hquote : ∀ e, h.marketQuote = .error e → E e) : (h.quoteError f).Reports E := by
  refine himplied.bind fun implied => Reading.Reports.bind ?_ fun market => Reading.reports_pure _
  cases hm : h.marketQuote with
  | ok q => trivial
  | error e => exact hquote e hm

end

section
variable {α : Type} [ScalarField α] [ExactScalar α]

/-- A product of the library reads the curve at its pillar at the latest. -/
theorem Product.IsStandard.plain {p : Product α} (h : p.IsStandard) {f : Frame}
    (hpos : (0 : α) < f.time p.instrument.pillar) :
    (p.instrument.implied f).Plain fun q => q.time ≤ f.time p.instrument.pillar := by
  have hat {bound date : Date} (hd : date ≤ bound) :
      (Reading.discountAt f date : Reading α α).Plain fun q => q.time ≤ f.time bound :=
    Reading.plain_discount (f.time_le hd)
  cases h with
  | zeroRate z =>
    have hpos : (f.time z.pillar : α) > 0 := hpos
    refine Reading.Plain.bind (Reading.plain_discount ?_) fun _ => Reading.plain_pure _
    rw [if_pos hpos]
    exact le_refl _
  | @deposit _ _ _ d h =>
    have hle := Deposit.make_ok h
    refine (hat hle).bind fun _ => (hat ?_).bind fun _ => Reading.plain_pure _
    exact (Date.le_total d.finish d.finish).elim id id
  | @swap _ _ _ _ s h =>
    obtain ⟨hle, hpayments⟩ := Swap.make_ok h
    refine (hat hle).bind fun _ => (hat ?_).bind fun _ => Reading.Plain.bind ?_ fun _ => Reading.plain_pure _
    · exact (Date.le_total s.maturity s.maturity).elim id id
    · refine Reading.plain_foldlM (fun total (date, accrual) hd => ?_) 0
      exact (hat (hpayments date (List.of_mem_zip hd).1)).bind fun _ => Reading.plain_pure _

end

end TermStructure
