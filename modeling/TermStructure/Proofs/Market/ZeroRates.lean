import TermStructure.Proofs.Market.ForwardRates

/-!
# Zero rates

A zero rate is read from a discount factor, at its own time if that is later than time zero and at a time shortly after
zero otherwise. So it is refused where the discount factor is, but only at later times: at a time before zero, or at one
that is not a number, it is that of the short time.
-/

namespace TermStructure

variable {α : Type} [Scalar α]

/-- The time shortly after zero. -/
def shortTime : α := 1e-4

/-- Zero rates belong to discount factors: a rate is that of the factor at its time, or at a short time if its own is not
    later than zero. -/
structure ZeroRates (discount zero : α → Except (CurveError α) α) : Prop where
  later (t : α) : 0 < t → zero t = (discount t).map fun d => -Scalar.ln d / t
  otherwise (t : α) : ¬0 < t → zero t = (discount shortTime).map fun d => -Scalar.ln d / shortTime

/-- Discount factors are refused outside of the times from zero to `high`, and where there is no time. -/
def RefusesBeyond (discount : α → Except (CurveError α) α) (high : α) : Prop :=
  ∀ t e, NodeCurve.rangeRule false high t = .error e → discount t = .error e

theorem RefusesBeyond.outside {β : Type} [ScalarField β] [ExactScalar β] {discount : β → Except (CurveError β) β}
    {high t : β} (h : RefusesBeyond discount high) (ht : ¬(0 ≤ t ∧ t ≤ high)) :
    discount t = .error (.extrapolation t 0 high) := by
  refine h t _ ?_
  unfold NodeCurve.rangeRule
  rw [ExactScalar.isNaN_eq, if_neg Bool.false_ne_true, if_neg (by simpa using ht)]

theorem zeroRates_of_eq {discount zero : α → Except (CurveError α) α}
    (h : ∀ t, zero t = let s := if t > 0 then t else shortTime
      (discount s).map fun d => -Scalar.ln d / s) : ZeroRates discount zero where
  later t ht := by
    rw [h, if_pos ht]
  otherwise t ht := by
    rw [h, if_neg ht]

/-! ### Curves that are read -/

theorem NodeCurve.zeroRates (c : NodeCurve α) :
    ZeroRates (fun t => c.read (.discount t)) (fun t => c.read (.zeroRate t)) :=
  zeroRates_of_eq fun t => by
    unfold read Reading.zeroRate
    dsimp only
    rw [Reading.run_bind]
    rfl

theorem NodeCurve.refusesBeyond {c : NodeCurve α} {high : α} (h : c.Strict high) :
    RefusesBeyond (fun t => c.read (.discount t)) high := by
  intro t e hrule
  change c.answerWith c.extrapolates (.discount t) = _
  rw [h.refuses, h.answers, show (Probe.discount t).time = t from rfl, hrule]
  rfl

namespace PiecewiseCurve

variable {c d : PiecewiseCurve α} {quotes : QuoteId → Option α}

theorem zeroRates (c : PiecewiseCurve α) (quotes : QuoteId → Option α) :
    ZeroRates (fun t => (c.read quotes fun _ => .discount t).1) (fun t => (c.read quotes fun _ => .zeroRate t).1) :=
  zeroRates_of_eq fun t => by
    generalize hs : (if t > 0 then t else shortTime) = s
    have hdiscount : (c.read quotes fun _ => .discount s).1 = (c.answer quotes (.discount s)).1 := by
      simp only [PiecewiseCurve.read, Reading.discount, Reading.runOn]
    have hzero : (c.read quotes fun _ => .zeroRate t).1
        = ((Reading.done (c.answer quotes (.discount s)).1 >>= fun d => pure (-Scalar.ln d / s)).runOn
            (fun c p => c.answer quotes p) (c.answer quotes (.discount s)).2).1 := by
      rw [← hs]
      rfl
    dsimp only
    rw [hdiscount, hzero]
    cases (c.answer quotes (.discount s)).1 <;> rfl

theorem refusesBeyond {curve : NodeCurve α} {high : α} (hd : c.ensure quotes = (.ok (), d))
    (hstrict : c.extrapolates = false) (hcurve : d.committed.curve = some curve) (hcurve' : curve.Strict high) :
    RefusesBeyond (fun t => (c.read quotes fun _ => .discount t).1) high := by
  intro t e hrule
  dsimp only
  rw [read_of_ensure hd hcurve hcurve', hstrict]
  exact withinRange_of_error (p := .discount t) hrule

end PiecewiseCurve

/-- In exact arithmetic a discount factor is that of its zero rate. -/
theorem ZeroRates.discount_eq {β : Type} [ScalarField β] [LawfulInverse β] {discount zero : β → Except (CurveError β) β}
    (h : ZeroRates discount zero) {t v : β} (ht : 0 < t) (hdiscount : discount t = .ok v) (hv : 0 < v) :
    ∃ z, zero t = .ok z ∧ v = Scalar.exp (-z * t) := by
  refine ⟨-Scalar.ln v / t, ?_, ?_⟩
  · rw [h.later t ht, hdiscount]
    rfl
  · rw [neg_div, neg_neg, div_mul_cancel₀ _ ht.ne', LawfulInverse.exp_ln hv]

namespace Market

variable [LawfulOrder α] [LawfulDifference α] [LawfulComparison α]

/-- At times later than zero a zero rate is that of the discount factor at its time, so it is refused wherever the discount
    factor is, which is beyond the nodes if reads beyond them are not allowed; and in exact arithmetic the discount factor
    is that of the rate. At all other times, also before the nodes and where there is no time, it is that of a short
    time, although the discount factor is refused there. This is so for every curve over nodes and for every curve of a
    market, and for the range of curves whose nodes start at time zero. -/
theorem zero_rates_range {β : Type} [ScalarField β] [LawfulInverse β] :
    (∀ c : NodeCurve α,
      ZeroRates (fun t => c.read (.discount t)) (fun t => c.read (.zeroRate t)) ∧
      (c.extrapolates = false → c.interpolant.low = 0 → 0 ≤ c.interpolant.high →
        RefusesBeyond (fun t => c.read (.discount t)) c.interpolant.high)) ∧
    (∀ (m : Market α) (i : Nat) (c : PiecewiseCurve α), Reachable m → m.curves.get? i = some c →
      ∃ discount zero, (∀ t, (m.readCurve i fun _ => .discount t).map (·.1) = some (discount t)) ∧
        (∀ t, (m.readCurve i fun _ => .zeroRate t).map (·.1) = some (zero t)) ∧
        ZeroRates discount zero ∧
        ∀ d, c.scheme.KeepsNodes → c.extrapolates = false → c.ensure m.values = (.ok (), d) →
          RefusesBeyond discount d.committed.nodes.maxTime) ∧
    ∀ discount zero : β → Except (CurveError β) β, ZeroRates discount zero →
      ∀ t v, 0 < t → discount t = .ok v → 0 < v → ∃ z, zero t = .ok z ∧ v = Scalar.exp (-z * t) := by
  refine ⟨fun c => ⟨c.zeroRates, fun hrefuses hlow hhigh => ?_⟩, fun m i c hm hc => ?_,
    fun _ _ h _ _ => h.discount_eq⟩
  · exact NodeCurve.refusesBeyond (NodeCurve.strict_of_anchored hrefuses hlow hhigh)
  · have hread (r : Frame → Reading α α) : (m.readCurve i r).map (·.1) = some (c.read m.values r).1 := by
      simp only [readCurve, onCurve, hc, Option.map_some]
    refine ⟨_, _, fun _ => hread _, fun _ => hread _, c.zeroRates m.values, fun d hkeeps hrefuses hd => ?_⟩
    obtain ⟨curve, hcurve, hstrict⟩ :=
      (hm.recorded.settled i c hc).strict_of_keepsNodes (hm.orderly i c hc) hkeeps hd
    exact PiecewiseCurve.refusesBeyond hd hrefuses hcurve hstrict

/-- A year before the nodes of a curve the discount factor is refused, and the zero rate is not. -/
theorem zero_rates_range_before :
    (∃ c : NodeCurve ℝ, c.read (.zeroRate 2) = .error (.extrapolation 2 0 1) ∧
      c.read (.discount (-1)) = .error (.extrapolation (-1) 0 1) ∧ (c.read (.zeroRate (-1))).isOk = true ∧
      ∃ z, c.read (.zeroRate 1) = .ok z ∧ Real.exp (-1) = Real.exp (-z * 1)) ∧
    (aheadMarket.readCurve 0 fun _ => .discount (-1)).map (·.1) = some (.error (.extrapolation (-1) 0 1)) ∧
    (aheadMarket.readCurve 0 fun _ => .zeroRate (-1)).map (·.1) = some (.ok (1 / 100)) := by
  obtain ⟨hnodes, -, hexact⟩ := zero_rates_range (α := ℝ) (β := ℝ)
  obtain ⟨-, hmarket, -⟩ := zero_rates_range (α := ℚ) (β := ℝ)
  constructor
  · have hpositive : ∀ y ∈ [1, Real.exp (-1)], 0 < y := by simp [Real.exp_pos]
    obtain ⟨f, hf⟩ : ∃ f, Method.logLinear.build [0, 1] [1, Real.exp (-1)] = .ok f :=
      Method.build_of_increasing rfl (by decide) rfl (by simp) fun _ => hpositive
    obtain ⟨hxs, -⟩ := Method.build_ok hf
    have hlow : f.low = 0 := congrArg (·.headD 0) hxs
    have hhigh : f.high = 1 := congrArg (·.getLastD 0) hxs
    obtain ⟨hzero, hrange⟩ := hnodes ⟨parFrame, f, false⟩
    have hrefuses := hrange rfl hlow (hhigh ▸ zero_le_one)
    rw [hhigh] at hrefuses
    have hanswers {t : ℝ} (ht : 0 ≤ t) (ht' : t ≤ 1) : NodeCurve.read ⟨parFrame, f, false⟩ (.discount t) = .ok (f.value t) :=
      NodeCurve.answer_discount (c := ⟨parFrame, f, false⟩) rfl (.inr ⟨hlow.trans_le ht, ht'.trans_eq hhigh.symm⟩)
    refine ⟨⟨parFrame, f, false⟩, ?_, hrefuses.outside (by norm_num), ?_, ?_⟩
    · rw [hzero.later 2 two_pos, hrefuses.outside (by norm_num)]
      rfl
    · have hshort : (0 : ℝ) ≤ shortTime ∧ (shortTime : ℝ) ≤ 1 := by
        rw [shortTime, ExactScalar.ofScientific_eq, if_pos rfl]
        norm_num
      rw [hzero.otherwise (-1) (by norm_num), hanswers hshort.1 hshort.2]
      rfl
    · have hnode : f.value 1 = Real.exp (-1) := Method.value_at_node (i := 1) hf (by decide)
      refine hexact _ _ hzero 1 _ one_pos ?_ (Real.exp_pos _)
      rw [hanswers zero_le_one le_rfl, hnode]
  · have hr : Reachable aheadMarket := Leads.refl.acts (by decide +kernel)
    obtain ⟨c, hb⟩ := ok_of_isSome (by decide +kernel : aheadSpec.build.toOption.isSome = true)
    have hc : aheadMarket.curves.get? 0 = some c := get?_act_build _ hb
    have hscheme : c.scheme.KeepsNodes := by
      rw [build_eq hb]
      exact Method.backwardFlat.scheme_keepsNodes
    have hpolicy : c.extrapolates = false := by
      rw [build_eq hb]
      rfl
    have hsolved : (aheadMarket.curves.get? 0).all (fun c =>
        (c.ensure aheadMarket.values).1.toOption.isSome &&
          decide ((c.ensure aheadMarket.values).2.committed.nodes.maxTime = 1)) = true := by
      decide +kernel
    have hshort : ((aheadMarket.readCurve 0 fun _ => .discount shortTime).map (·.1)).bind (·.toOption)
        = some (-1 / 1000000) := by
      decide +kernel
    rw [hc, Option.all_some] at hsolved
    rcases hd : c.ensure aheadMarket.values with ⟨r | _, d⟩
    · rw [hd] at hsolved
      cases hsolved
    rw [hd] at hsolved
    have hmax : d.committed.nodes.maxTime = 1 := of_decide_eq_true ((Bool.and_eq_true _ _).mp hsolved).2
    obtain ⟨discount, zero, hdiscount, hzero, hrates, hrange⟩ := hmarket aheadMarket 0 c hr hc
    have hrefuses := hrange d hscheme hpolicy hd
    rw [hmax] at hrefuses
    constructor
    · rw [hdiscount, hrefuses.outside (by norm_num)]
    · rw [hdiscount, Option.bind_some] at hshort
      rw [hzero, hrates.otherwise (-1) (by norm_num), ok_of_toOption hshort]
      have hrate : -Scalar.ln (-1 / 1000000 : ℚ) / shortTime = 1 / 100 := by decide +kernel
      exact congrArg (some <| Except.ok ·) hrate

end Market

end TermStructure
