import TermStructure.Proofs.Instrument.Readings
import TermStructure.Proofs.Interpolation.Prefix
import TermStructure.Proofs.Bootstrap.Stages
import TermStructure.RootFinding.Brent

/-!
# Trial curves and the finished curve

With a local scheme the curve a pillar was solved on and the finished curve agree up to the pillar, and
the instruments of the library read no further. So what the check finds is what the search has seen, and
a first pass that was accurate at every pillar is published as it is.
-/

namespace TermStructure

/-! ### Reads -/

theorem NodeCurve.quoteError_ok {α : Type} [Scalar α] {c : NodeCurve α} {h : Helper α} {f : Frame} {y : α}
    (hy : c.read (h.quoteError f) = .ok y) :
    ∃ implied market, c.read (h.instrument.implied f) = .ok implied ∧ h.quote = some market ∧ y = implied - market := by
  unfold read Helper.quoteError at hy
  rw [Reading.run_bind] at hy
  obtain ⟨implied, hi, hy⟩ := ok_of_bind hy
  rw [Reading.run_bind] at hy
  obtain ⟨market, hm, hy⟩ := ok_of_bind hy
  cases hy
  refine ⟨implied, market, hi, ?_, rfl⟩
  unfold Reading.run Helper.marketQuote at hm
  cases hq : h.quote with
  | none =>
    rw [hq] at hm
    cases hm
  | some q =>
    rw [hq] at hm
    rw [Except.ok.inj hm]

section
variable {α : Type} [ScalarField α] [ExactScalar α]

namespace Interpolant

variable (f : Interpolant α) (a b t : α)

theorem checkRange_true : f.checkRange t true = .ok () := by
  rw [checkRange, ExactScalar.isNaN_eq, if_neg Bool.false_ne_true, Bool.true_or, if_pos rfl]

theorem checkRange_false : f.checkRange t false = f.checkRange t true ∨
    f.checkRange t false = .error (.extrapolation t f.low f.high) := by
  rw [checkRange_true, checkRange, ExactScalar.isNaN_eq, if_neg Bool.false_ne_true]
  split
  · exact .inl rfl
  · exact .inr rfl

theorem evaluate_false : f.evaluate t false = f.evaluate t true ∨
    f.evaluate t false = .error (.extrapolation t f.low f.high) := by
  unfold evaluate
  rcases f.checkRange_false t with h | h
  · rw [h]
    exact .inl rfl
  · rw [h]
    exact .inr rfl

theorem integrate_false : f.integrate a b false = f.integrate a b true ∨
    ∃ t, f.integrate a b false = .error (.extrapolation t f.low f.high) := by
  unfold integrate
  rcases f.checkRange_false a with ha | ha
  · rw [ha, f.checkRange_true a]
    rcases f.checkRange_false b with hb | hb
    · rw [hb]
      exact .inl rfl
    · rw [hb]
      exact .inr ⟨b, rfl⟩
  · rw [ha]
    exact .inr ⟨a, rfl⟩

end Interpolant

/-- A curve that does not answer beyond its nodes answers like one that does, or refuses. -/
theorem NodeCurve.answerWith_false (c : NodeCurve α) (p : Probe α) :
    c.answerWith false p = c.answerWith true p ∨
      ∃ t low high, c.answerWith false p = .error (.extrapolation t low high) := by
  have hvalue (t : α) : c.valueWith t false = c.valueWith t true ∨
      ∃ s low high, c.valueWith t false = .error (.extrapolation s low high) := by
    unfold valueWith
    rcases c.interpolant.evaluate_false t with h | h
    · rw [h]
      exact .inl rfl
    · rw [h]
      exact .inr ⟨_, _, _, rfl⟩
  cases p with
  | value t => exact hvalue t
  | discount t =>
    unfold answerWith discountWith
    cases c.frame.kind with
    | discount => exact hvalue t
    | survivalProbability => exact hvalue t
    | hazardRate =>
      dsimp only
      rcases c.interpolant.integrate_false 0 t with h | ⟨s, h⟩
      · rw [h]
        exact .inl rfl
      · rw [h]
        exact .inr ⟨_, _, _, rfl⟩

end

/-! ### Passes -/

namespace BootstrapPlan

section
variable {α : Type} [Scalar α] {plan : BootstrapPlan α} {pass : Pass α} {k : Nat} {p : Pillar α} {x y : α}

/-- Where a pillar was solved in an unseeded pass. -/
def siteIn (plan : BootstrapPlan α) (pass : Pass α) (k : Nat) (p : Pillar α) : PillarSite α :=
  ⟨plan, p, pass.values.take (k + 1), []⟩

/-- An unseeded pass solves each pillar after the roots of those before it. -/
theorem passFrom_ok {before : List α} {pillars : List (Pillar α)} (h : plan.passFrom before [] pillars = .ok pass) :
    ∃ roots, pass.values = before ++ roots ∧ roots.length = pillars.length ∧
      ∀ k p, pillars[k]? = some p → ∃ guess x, roots[k]? = some x ∧
        pass.solves[k]? = some (PillarSite.solve ⟨plan, p, before ++ roots.take k, []⟩ guess) ∧
        (PillarSite.solve ⟨plan, p, before ++ roots.take k, []⟩ guess).result = .ok x := by
  induction pillars generalizing before pass with
  | nil =>
    cases h
    exact ⟨[], by simp, rfl, fun k p hk => by simp at hk⟩
  | cons q rest ih =>
    unfold passFrom at h
    dsimp only at h
    split at h
    · cases h
    · rename_i x hx
      split at h
      · cases h
      · rename_i pass' hpass
        cases h
        obtain ⟨roots, hvalues, hlen, hall⟩ := ih hpass
        refine ⟨x :: roots, by simp [hvalues], by simp [hlen], fun k p hk => ?_⟩
        cases k with
        | zero =>
          cases hk
          rw [List.take_zero, List.append_nil]
          exact ⟨_, x, rfl, rfl, hx⟩
        | succ k =>
          obtain ⟨guess, z, hz, hsolve, hresult⟩ := hall k p hk
          exact ⟨guess, z, hz, by simpa using hsolve, by simpa using hresult⟩

/-- Each pillar of an unseeded pass was solved at its site, and its root is the value at its node. -/
theorem pass_ok (h : plan.pass [] = .ok pass) :
    pass.values.length = plan.times.length ∧ ∀ k p, plan.pillars[k]? = some p → ∃ guess x,
      pass.values[k + 1]? = some x ∧ pass.solves[k]? = some ((plan.siteIn pass k p).solve guess) ∧
      ((plan.siteIn pass k p).solve guess).result = .ok x := by
  obtain ⟨roots, hvalues, hlen, hall⟩ := passFrom_ok h
  refine ⟨by simp [hvalues, times, hlen], fun k p hk => ?_⟩
  obtain ⟨guess, x, hx, hsolve, hresult⟩ := hall k p hk
  have hsite : plan.siteIn pass k p = ⟨plan, p, [plan.frame.kind.anchorValue] ++ roots.take k, []⟩ := by
    simp [siteIn, hvalues]
  rw [hsite]
  exact ⟨guess, x, by simp [hvalues, hx], hsolve, hresult⟩

/-- The objective at the root accepted for a pillar, on the trial curve of the search that was accepted. -/
def acceptedError? (plan : BootstrapPlan α) (pass : Pass α) (k : Nat) (p : Pillar α) : Option α := do
  let solve ← pass.solves[k]?
  let attempt ← solve.attempts.getLast?
  let root ← solve.result.toOption
  ((plan.siteIn pass k p).objective attempt.extrapolates root).toOption

theorem objective_of_accepted (h : plan.pass [] = .ok pass) (hk : plan.pillars[k]? = some p)
    (hy : plan.acceptedError? pass k p = some y) :
    ∃ allow x, pass.values[k + 1]? = some x ∧ (plan.siteIn pass k p).objective allow x = .ok y := by
  obtain ⟨guess, x, hx, hsolve, hresult⟩ := (pass_ok h).2 k p hk
  obtain ⟨solve, hsolve', hy⟩ := Option.bind_eq_some_iff.mp hy
  obtain ⟨a, -, hy⟩ := Option.bind_eq_some_iff.mp hy
  obtain ⟨root, hroot, hy⟩ := Option.bind_eq_some_iff.mp hy
  cases hsolve.symm.trans hsolve'
  cases hresult.symm.trans (ok_of_toOption hroot)
  exact ⟨a.extrapolates, x, hx, ok_of_toOption hy⟩

theorem trialCurve_eq (hx : pass.values[k + 1]? = some x) :
    (plan.siteIn pass k p).trialCurve x = plan.curveOver (k + 1) (plan.times.take (k + 2)) (pass.values.take (k + 2)) := by
  obtain ⟨hlt, -⟩ := List.getElem?_eq_some_iff.mp hx
  have hlen : (pass.values.take (k + 1)).length = k + 1 := by
    rw [List.length_take]
    omega
  have htake : pass.values.take (k + 2) = pass.values.take (k + 1) ++ [x] := by
    rw [List.take_add_one, hx]
    rfl
  simp only [siteIn, PillarSite.trialCurve, PillarSite.index, hlen, htake, List.length_nil, Nat.add_zero]

theorem objective_ok {site : PillarSite α} {allow : Bool} (h : site.objective allow x = .ok y) :
    ∃ curve, site.trialCurve x = .ok curve ∧
      (curve.extrapolating allow).read (site.pillar.helper.quoteError site.plan.frame) = .ok y :=
  ok_of_bind h

theorem times_succ (hk : plan.pillars[k]? = some p) : plan.times[k + 1]? = some p.time := by
  unfold times
  rw [List.getElem?_cons_succ, List.getElem?_map, hk]
  rfl

/-- Pillars that are repriced one by one are repriced together. -/
theorem repriceFrom_of_reprice {curve : NodeCurve α} {index : Nat} {pillars : List (Pillar α)}
    (h : ∀ k p, pillars[k]? = some p → ∃ check, plan.reprice curve (index + k) p = .ok check ∧ check.passed = true) :
    ∃ checks, plan.repriceFrom curve index pillars = .ok checks ∧ ∀ check ∈ checks, check.passed = true := by
  induction pillars generalizing index with
  | nil => exact ⟨[], rfl, by simp⟩
  | cons p rest ih =>
    obtain ⟨check, hcheck, hpassed⟩ := h 0 p rfl
    obtain ⟨checks, hchecks, hall⟩ := ih fun k q hk => by
      rw [Nat.add_assoc, Nat.add_comm 1 k]
      exact h (k + 1) q hk
    refine ⟨check :: checks, ?_, by simpa using ⟨hpassed, hall⟩⟩
    rw [Nat.add_zero] at hcheck
    unfold repriceFrom
    rw [hcheck, hchecks]
    rfl

/-- A helper that does not declare that it reads beyond the nodes is repriced alike whether it does or not. -/
theorem reprice_of_implied {curve : NodeCurve α} {index : Nat} {market implied : α} (hd : plan.declares p = false)
    (hq : p.helper.quote = some market)
    (ht : (curve.extrapolating true).read (p.helper.instrument.implied curve.frame) = .ok implied)
    (hf : (curve.extrapolating false).read (p.helper.instrument.implied curve.frame) = .ok implied ∨
      ∃ t low high, (curve.extrapolating false).read (p.helper.instrument.implied curve.frame)
        = .error (.extrapolation t low high)) :
    plan.reprice curve index p
      = .ok (.make index p.helper.instrument.description market implied plan.config.accuracy) := by
  have heval (allow : Bool) :
      RepricingCheck.evaluate index p.helper (curve.extrapolating allow) plan.config.accuracy
        = ((curve.extrapolating allow).read (p.helper.instrument.implied curve.frame)).map
          (.make index p.helper.instrument.description market · plan.config.accuracy) :=
    RepricingCheck.evaluate_eq hq
  unfold declares at hd
  unfold reprice
  dsimp only
  rw [hd, heval, heval]
  dsimp only [NodeCurve.extrapolating] at ht hf ⊢
  rw [ht]
  rcases hf with hf | ⟨t, low, high, hf⟩
  · rw [hf]
    rfl
  · rw [hf]
    rfl

end

end BootstrapPlan

/-! ### Plans -/

section
variable {α : Type} [ScalarField α]

theorem Pillar.minSpacing_pos [ExactArithmetic α] : (0 : α) < minSpacing := by
  unfold minSpacing
  rw [ExactArithmetic.ofScientific_eq, if_pos rfl]
  positivity

theorem NodeStore.firstRepeat?_of_increasing {times : List α} (h : times.Pairwise (· < ·)) : firstRepeat? times = none := by
  induction times with
  | nil => rfl
  | cons t rest ih =>
    obtain ⟨ht, hrest⟩ := List.pairwise_cons.mp h
    cases rest with
    | nil => rfl
    | cons u rest =>
      unfold firstRepeat?
      rw [if_neg (not_le.mpr (ht u List.mem_cons_self))]
      exact ih hrest

/-- Nodes that start at time zero and increase are stored. -/
theorem NodeStore.ofSolution_of_increasing [ExactScalar α] {times values : List α}
    (h : (0 :: times).Pairwise (· < ·)) (hlen : (0 :: times).length = values.length) :
    ofSolution (0 :: times) values = .ok ⟨0 :: times, values⟩ := by
  have hzero : ((0 : α) != 0) = false := by
    rw [bne, (ExactScalar.beq_iff (0 : α) 0).mpr rfl]
    rfl
  unfold ofSolution
  rw [if_neg (by simp [hlen]), List.headD_cons, hzero, if_neg Bool.false_ne_true, firstRepeat?_of_increasing h]

/-- Each of the pillars that passed their check is later than the one before it. -/
theorem Pillar.increasing_of_check [ExactArithmetic α] {index : Nat} {previous : α} {pillars : List (Pillar α)}
    (h : check index previous pillars = .ok ()) : (previous :: pillars.map (·.time)).Pairwise (· < ·) := by
  rw [← List.isChain_iff_pairwise]
  induction pillars generalizing index previous with
  | nil => exact .singleton _
  | cons p rest ih =>
    obtain ⟨-, hspacing, hrest⟩ := check_cons h
    have hpos : (0 : α) < minSpacing := minSpacing_pos
    have hlt : previous < p.time := by linarith [not_le.mp hspacing]
    exact .cons_cons hlt (ih hrest)

namespace BootstrapPlan

theorem validate_default [ExactScalar α] : (default : BootstrapConfig α).validate = .ok () := by
  have haccuracy : (1e-12 : α) > 0 := by
    rw [ExactScalar.ofScientific_eq, if_pos rfl]
    positivity
  have hwidening : (10.0 : α) ≥ 1 := by
    rw [ExactScalar.ofScientific_eq, if_pos rfl]
    norm_num
  change (if !(Scalar.isFinite (1e-12 : α) && decide ((1e-12 : α) > 0)) then _ else if (100 : UInt32) = 0 then _ else
    if !(Scalar.isFinite (10.0 : α) && decide ((10.0 : α) ≥ 1)) then _ else _) = _
  rw [ExactScalar.isFinite_eq, ExactScalar.isFinite_eq, decide_eq_true haccuracy, decide_eq_true hwidening]
  rfl

/-- A single helper whose pillar lies ahead makes a plan. -/
theorem make_of_single [ExactScalar α] {config : BootstrapConfig α} (hvalid : config.validate = .ok ()) (frame : Frame)
    (m : Method) (h : Helper α) (solver : RootFinder α)
    (htime : Pillar.minSpacing < (frame.time h.instrument.pillar : α)) :
    make ⟨frame, m.scheme, [h]⟩ config solver = .ok ⟨frame, m.scheme, config, solver, [Pillar.make frame h]⟩ := by
  have hsort : Pillar.inOrder ([h].map (Pillar.make frame)) = [Pillar.make frame h] := List.mergeSort_singleton _
  have hpos : ¬(frame.time h.instrument.pillar : α) < 0 := not_lt.mpr (Pillar.minSpacing_pos.trans htime).le
  have hspacing : ¬(frame.time h.instrument.pillar - 0 : α) ≤ Pillar.minSpacing := by
    rw [sub_zero]
    exact not_le.mpr htime
  have hcheck : Pillar.check 1 0 [Pillar.make frame h] = .ok () := by
    change (if !Scalar.isFinite (frame.time h.instrument.pillar : α) ||
      decide ((frame.time h.instrument.pillar : α) < 0) then _ else
        if (frame.time h.instrument.pillar - 0 : α) ≤ Pillar.minSpacing then _ else _) = _
    rw [ExactScalar.isFinite_eq, decide_eq_false hpos, if_neg hspacing]
    rfl
  unfold make
  dsimp only
  rw [hvalid, hsort, hcheck]
  rfl

theorem make_singleton [ExactScalar α] (frame : Frame) (m : Method) (h : Helper α) (solver : RootFinder α)
    (htime : Pillar.minSpacing < (frame.time h.instrument.pillar : α)) :
    make ⟨frame, m.scheme, [h]⟩ default solver = .ok ⟨frame, m.scheme, default, solver, [Pillar.make frame h]⟩ :=
  make_of_single validate_default frame m h solver htime

/-- A plan for a local method and instruments of the library. Its pillars are in order, each at the time
    of the last date at which its instrument reads the curve. -/
structure IsLocal (plan : BootstrapPlan α) (m : Method) : Prop where
  scheme : plan.scheme = m.scheme
  method : m.isLocal = true
  supports : plan.frame.kind.supports m = true
  increasing : plan.times.Pairwise (· < ·)
  nonempty : plan.pillars ≠ []
  standard : ∀ p ∈ plan.pillars, p = Pillar.make plan.frame p.helper ∧
    ∃ product : Product α, product.IsStandard ∧ p.helper.instrument = product.instrument

variable {inputs : BootstrapInputs α} {config : BootstrapConfig α} {solver : RootFinder α} {plan : BootstrapPlan α}
  {m : Method} {pass : Pass α} {k : Nat} {p : Pillar α} {x y : α}

theorem isLocal_of_make [ExactScalar α] (hm : m.isLocal = true) (hscheme : inputs.scheme = m.scheme)
    (hkind : inputs.frame.kind.supports m = true)
    (hstandard : ∀ h ∈ inputs.helpers, ∃ product : Product α, product.IsStandard ∧ h.instrument = product.instrument)
    (h : make inputs config solver = .ok plan) : plan.IsLocal m := by
  obtain ⟨rfl, hcheck, hne, -⟩ := make_ok h
  refine ⟨hscheme, hm, hkind, Pillar.increasing_of_check hcheck, fun hnil => hne ?_, fun p hp => ?_⟩
  · have hlen := (List.mergeSort_perm (inputs.helpers.map (Pillar.make inputs.frame))
      fun a b => Scalar.totalLe a.time b.time).length_eq
    rw [show List.mergeSort _ _ = [] from hnil] at hlen
    simpa using hlen.symm
  · obtain ⟨h, hh, rfl⟩ := List.mem_map.mp (List.mem_mergeSort.mp hp)
    exact ⟨rfl, hstandard h hh⟩

namespace IsLocal

theorem time_pos (h : plan.IsLocal m) (hk : plan.pillars[k]? = some p) : 0 < p.time :=
  List.rel_of_pairwise_cons h.increasing (List.mem_map_of_mem (List.mem_of_getElem? hk))

theorem latest_eq (h : plan.IsLocal m) (hk : plan.pillars[k]? = some p) : p.latestTime = p.time := by
  obtain ⟨hmake, product, hproduct, hinstrument⟩ := h.standard p (List.mem_of_getElem? hk)
  rw [hmake]
  unfold Pillar.make
  dsimp only
  rw [hinstrument, hproduct.latest]
  unfold Date.later
  rw [ite_self]

theorem declares_eq (h : plan.IsLocal m) (hk : plan.pillars[k]? = some p) {f : Interpolant α} (hf : f.xs = plan.times)
    (hhigh : p.time ≤ f.high) : plan.declares p = false := by
  unfold declares
  rw [h.latest_eq hk]
  rw [Interpolant.high, hf] at hhigh
  exact decide_eq_false (not_lt.mpr hhigh)

/-- The last trial curve is the finished curve. -/
theorem finishedCurve_of_accepted (h : plan.IsLocal m) (hpass : plan.pass [] = .ok pass)
    (hall : ∀ k p, plan.pillars[k]? = some p → ∃ y, plan.acceptedError? pass k p = some y) :
    ∃ curve, plan.finishedCurve pass.values = .ok curve := by
  have hlen : 1 ≤ plan.pillars.length := List.length_pos_iff.mpr h.nonempty
  have hlast : plan.pillars[plan.pillars.length - 1]? = some (plan.pillars.getLast h.nonempty) := by
    rw [← List.getLast?_eq_getElem?, List.getLast?_eq_some_getLast h.nonempty]
  obtain ⟨y, hy⟩ := hall _ _ hlast
  obtain ⟨allow, x, hx, hy⟩ := objective_of_accepted hpass hlast hy
  obtain ⟨curve, hcurve, -⟩ := objective_ok hy
  have hvalues := (pass_ok hpass).1
  have htimes : plan.times.length = plan.pillars.length + 1 := by simp [times]
  rw [trialCurve_eq hx, List.take_of_length_le (by omega), List.take_of_length_le (by omega),
    Nat.sub_add_cancel hlen] at hcurve
  exact ⟨curve, hcurve⟩

/-- A local method needs no second pass. -/
theorem draft_eq (h : plan.IsLocal m) (hpass : plan.pass [] = .ok pass) : plan.draft = .ok ⟨pass, []⟩ := by
  have hglobal : plan.scheme.isGlobal = false := by
    rw [h.scheme]
    simpa [Method.isLocal, Method.scheme] using h.method
  unfold draft
  rw [hpass]
  change (if plan.scheme.isGlobal then _ else _) = _
  rw [hglobal]
  rfl

variable [ExactScalar α]

theorem plain (h : plan.IsLocal m) (hk : plan.pillars[k]? = some p) :
    (p.helper.instrument.implied plan.frame).Plain fun q => q.time ≤ p.time := by
  obtain ⟨hmake, product, hproduct, hinstrument⟩ := h.standard p (List.mem_of_getElem? hk)
  have hpos := h.time_pos hk
  rw [hmake] at hpos ⊢
  unfold Pillar.make at hpos ⊢
  dsimp only at hpos ⊢
  rw [hinstrument] at hpos ⊢
  exact hproduct.plain hpos

/-- A quote implied by a curve over the nodes up to its pillar is implied by the curve over all nodes. -/
theorem implied_eq (h : plan.IsLocal m) (hk : plan.pillars[k]? = some p) {f g : Interpolant α}
    (hagrees : g.Agrees f p.time (m != .logLinear)) (hlow : f.low ≤ 0) {allow : Bool} {implied : α}
    (hread : (NodeCurve.extrapolating ⟨plan.frame, g, false⟩ allow).read (p.helper.instrument.implied plan.frame)
      = .ok implied) :
    (NodeCurve.extrapolating ⟨plan.frame, f, false⟩ true).read (p.helper.instrument.implied plan.frame)
      = .ok implied := by
  have hplain := h.plain hk
  have hanswer (q : Probe α) (hq : q.time ≤ p.time) :
      NodeCurve.answerWith ⟨plan.frame, g, false⟩ true q = NodeCurve.answerWith ⟨plan.frame, f, false⟩ true q := by
    obtain ⟨z, hshort, hlong⟩ :=
      NodeCurve.answerWith_initial hagrees h.supports hlow (h.time_pos hk).le hq (fun _ => rfl) false false
    rw [hshort, hlong]
  refine Eq.trans (hplain.run_congr hanswer).symm ?_
  cases allow with
  | true => exact hread
  | false =>
    rcases hplain.run_refused (NodeCurve.answerWith_false ⟨plan.frame, g, false⟩) with hsame | ⟨t, low, high, hrefused⟩
    · exact hsame.symm.trans hread
    · cases hrefused.symm.trans hread

/-- What the objective was at the root of a pillar is what the check finds on the finished curve. -/
theorem reprice_of_objective (h : plan.IsLocal m) (hk : plan.pillars[k]? = some p) (hx : pass.values[k + 1]? = some x)
    {allow : Bool} (hy : (plan.siteIn pass k p).objective allow x = .ok y) {curve : NodeCurve α}
    (hcurve : plan.finishedCurve pass.values = .ok curve) :
    ∃ market implied, p.helper.quote = some market ∧ y = implied - market ∧ plan.reprice curve (k + 1) p
      = .ok (.make (k + 1) p.helper.instrument.description market implied plan.config.accuracy) := by
  obtain ⟨trial, htrial, hread⟩ := objective_ok hy
  obtain ⟨implied, market, himplied, hquote, rfl⟩ := NodeCurve.quoteError_ok hread
  obtain ⟨f, hf, rfl⟩ := curveOver_ok hcurve
  rw [trialCurve_eq hx] at htrial
  obtain ⟨g, hg, rfl⟩ := curveOver_ok htrial
  -- The trial curve is the curve over the first nodes of the finished one.
  rw [h.scheme] at hf hg
  obtain ⟨hn, htime⟩ := List.getElem?_eq_some_iff.mp (times_succ hk)
  obtain ⟨g', hg', hxs, hagrees⟩ := Method.build_initial h.method hf (Nat.le_add_left 1 k) hn
  rw [List.getD_eq_getElem _ _ hn, htime] at hagrees
  cases hg.symm.trans hg'
  have hlow : f.low ≤ 0 := by
    rw [Interpolant.low, hxs]
    exact le_refl _
  have hlong := h.implied_eq hk hagrees hlow himplied
  refine ⟨market, implied, hquote, rfl, reprice_of_implied (h.declares_eq hk hxs hagrees.longHigh) hquote hlong ?_⟩
  rcases (h.plain hk).run_refused (NodeCurve.answerWith_false ⟨plan.frame, f, false⟩) with hsame | hrefused
  · exact .inl (hsame.trans hlong)
  · exact .inr hrefused

/-- If the search was accurate at every pillar, the check passes. -/
theorem globalCheck_of_accepted (h : plan.IsLocal m) (hpass : plan.pass [] = .ok pass)
    (hall : ∀ k p, plan.pillars[k]? = some p →
      ∃ y, plan.acceptedError? pass k p = some y ∧ Scalar.abs y ≤ plan.config.accuracy) :
    ∃ curve report, plan.globalCheck pass.values = .ok (curve, report) ∧ report.allPassed = true := by
  obtain ⟨curve, hcurve⟩ := h.finishedCurve_of_accepted hpass fun k p hk => (hall k p hk).imp fun _ hy => hy.1
  have hreprice (k : Nat) (p : Pillar α) (hk : plan.pillars[k]? = some p) :
      ∃ check, plan.reprice curve (1 + k) p = .ok check ∧ check.passed = true := by
    obtain ⟨y, hy, hle⟩ := hall k p hk
    obtain ⟨allow, x, hx, hy⟩ := objective_of_accepted hpass hk hy
    obtain ⟨market, implied, -, rfl, hcheck⟩ := h.reprice_of_objective hk hx hy hcurve
    rw [Nat.add_comm]
    exact ⟨_, hcheck, decide_eq_true hle⟩
  obtain ⟨checks, hchecks, hpassed⟩ := repriceFrom_of_reprice hreprice
  refine ⟨curve, .make checks, ?_, List.all_eq_true.mpr hpassed⟩
  unfold globalCheck
  rw [hcurve]
  change (plan.repriceFrom curve 1 plan.pillars >>= fun checks => pure (curve, RepricingReport.make checks)) = _
  rw [hchecks]
  rfl

theorem publish_eq (h : plan.IsLocal m) (hpass : plan.pass [] = .ok pass) (curve : NodeCurve α)
    (report : Option (RepricingReport α)) : plan.publish ⟨pass, []⟩ curve report
      = .ok ⟨⟨plan.times, pass.values⟩, plan.pillarDates, curve, report, 1, pass.evaluations⟩ := by
  have hstore : NodeStore.ofSolution plan.times pass.values = .ok ⟨plan.times, pass.values⟩ :=
    NodeStore.ofSolution_of_increasing h.increasing (pass_ok hpass).1.symm
  unfold publish
  rw [hstore]
  rfl

/-- A first pass that passes the check is published, and there is no other. -/
theorem run_of_globalCheck (h : plan.IsLocal m) (hpass : plan.pass [] = .ok pass) {curve : NodeCurve α}
    {report : RepricingReport α} (hcheck : plan.globalCheck pass.values = .ok (curve, report))
    (hpassed : report.allPassed = true) :
    plan.run = .ok ⟨⟨plan.times, pass.values⟩, plan.pillarDates, curve,
      if plan.config.globalCheck then some report else none, 1, pass.evaluations⟩ := by
  unfold run
  rw [h.draft_eq hpass]
  change (if plan.config.globalCheck then _ else _) = _
  split
  · change (plan.globalCheck pass.values >>= _) = _
    rw [hcheck]
    obtain ⟨-, checks, -, rfl⟩ := globalCheck_ok hcheck
    dsimp only [bind, Except.bind]
    rw [RepricingReport.failure?_eq_none_iff.mpr hpassed]
    exact h.publish_eq hpass curve _
  · change (plan.finishedCurve pass.values >>= _) = _
    rw [(globalCheck_ok hcheck).1]
    exact h.publish_eq hpass curve none

end IsLocal

end BootstrapPlan

/-- With a local method and a kind of curve it supports, a curve over the first nodes answers up to the
    last of them what the curve over all nodes does. So for instruments of the library the check after an
    unseeded first pass finds the residuals that the searches accepted, and if all of these are within the
    accuracy, the check passes and the first pass is published. -/
theorem trial_curve_agrees [ExactScalar α] {m : Method} (hm : m.isLocal = true) {frame : Frame}
    (hkind : frame.kind.supports m = true) :
    (∀ xs ys : List α, xs.Pairwise (· < ·) → xs.length = ys.length → (m = .logLinear → ∀ y ∈ ys, 0 < y) →
      xs.headD 0 ≤ 0 → ∀ k, 1 ≤ k → k < xs.length → 0 ≤ xs.getD k 0 →
      ∃ f g, m.build xs ys = .ok f ∧ m.build (xs.take (k + 1)) (ys.take (k + 1)) = .ok g ∧
        ∀ (p : Probe α) (allow : Bool), p.time ≤ xs.getD k 0 → (p.time < 0 → allow = true) →
          ∃ y, NodeCurve.answerWith ⟨frame, g, false⟩ allow p = .ok y ∧
            NodeCurve.answerWith ⟨frame, f, false⟩ allow p = .ok y) ∧
    ∀ (inputs : BootstrapInputs α) (config : BootstrapConfig α) (solver : RootFinder α) (plan : BootstrapPlan α)
      (pass : Pass α), inputs.frame = frame → inputs.scheme = m.scheme →
      (∀ h ∈ inputs.helpers, ∃ product : Product α, product.IsStandard ∧ h.instrument = product.instrument) →
      BootstrapPlan.make inputs config solver = .ok plan → plan.pass [] = .ok pass →
      (∀ k p y, plan.pillars[k]? = some p → plan.acceptedError? pass k p = some y →
        ∀ curve, plan.finishedCurve pass.values = .ok curve →
          ∃ check, plan.reprice curve (k + 1) p = .ok check ∧ check.residual = y) ∧
      ((∀ k p, plan.pillars[k]? = some p →
          ∃ y, plan.acceptedError? pass k p = some y ∧ Scalar.abs y ≤ config.accuracy) →
        ∃ curve report o, plan.globalCheck pass.values = .ok (curve, report) ∧ report.allPassed = true ∧
          plan.run = .ok o ∧ o.passes = 1 ∧ o.evaluations = pass.evaluations ∧
          o.nodes = ⟨plan.times, pass.values⟩ ∧ o.curve = curve) := by
  refine ⟨fun xs ys hxs hlen hpositive hlow k hpos hk hbound => ?_,
    fun inputs config solver plan pass hframe hscheme hstandard hmake hpass => ?_⟩
  · obtain ⟨f, hf⟩ := Method.build_of_increasing hm (by omega) hlen hxs hpositive
    obtain ⟨g, hg, hfxs, hagrees⟩ := Method.build_initial hm hf hpos hk
    rw [← hfxs] at hlow
    exact ⟨f, g, hf, hg, fun p allow hp hallow =>
      NodeCurve.answerWith_initial hagrees hkind hlow hbound hp hallow false false⟩
  · rw [← hframe] at hkind
    have hlocal := BootstrapPlan.isLocal_of_make hm hscheme hkind hstandard hmake
    have hconfig : plan.config = config := by
      rw [(BootstrapPlan.make_ok hmake).1]
    refine ⟨fun k p y hk hy curve hcurve => ?_, fun hall => ?_⟩
    · obtain ⟨allow, x, hx, hobjective⟩ := BootstrapPlan.objective_of_accepted hpass hk hy
      obtain ⟨market, implied, -, rfl, hcheck⟩ := hlocal.reprice_of_objective hk hx hobjective hcurve
      exact ⟨_, hcheck, rfl⟩
    · rw [← hconfig] at hall
      obtain ⟨curve, report, hcheck, hpassed⟩ := hlocal.globalCheck_of_accepted hpass hall
      exact ⟨curve, report, _, hcheck, hpassed, hlocal.run_of_globalCheck hpass hcheck hpassed, rfl, rfl, rfl, rfl⟩

end

/-- The average hazard rate to one date. -/
def averageRate : Product ℚ := .zeroRate ⟨.newYear 2026⟩

/-- The average with its quote. -/
def averageHazard : Helper ℚ := ⟨averageRate.instrument, some (1 / 100)⟩

/-- A credit curve of one average hazard rate. -/
def averageInputs : BootstrapInputs ℚ where
  frame := ⟨.newYear 2025, .act365Fixed, .hazardRate⟩
  scheme := Method.backwardFlat.scheme
  helpers := [averageHazard]

/-- The plan for the credit curve. -/
def averagePlan : BootstrapPlan ℚ :=
  ⟨averageInputs.frame, averageInputs.scheme, default, Brent.finder default, [.make averageInputs.frame averageHazard]⟩

/-- The average hazard rate to a later date. -/
def laterHazard : Helper ℚ := ⟨(ZeroRate.mk (.newYear 2027)).instrument, some (1 / 50)⟩

/-- The plan for a credit curve of two average hazard rates. -/
def twoHazardPlan : BootstrapPlan ℚ :=
  { averagePlan with pillars := averagePlan.pillars ++ [.make averageInputs.frame laterHazard] }

theorem make_twoHazardPlan :
    BootstrapPlan.make { averageInputs with helpers := [averageHazard, laterHazard] } default (Brent.finder default) =
      .ok twoHazardPlan :=
  BootstrapPlan.make_of_pairwise rfl (ok_of_toOption (by decide +kernel)) (by decide) (List.cons_ne_nil _ _)
    (by decide +kernel) (ok_of_toOption (by decide +kernel))

/-- Both rates are met exactly when their nodes are solved. -/
theorem twoHazardPlan_accepted :
    ∃ pass, twoHazardPlan.pass [] = .ok pass ∧ pass.values = [0, 1 / 100, 3 / 100] ∧
      twoHazardPlan.acceptedError? pass 0 (.make averageInputs.frame averageHazard) = some 0 ∧
      twoHazardPlan.acceptedError? pass 1 (.make averageInputs.frame laterHazard) = some 0 := by
  have haccepted : ((twoHazardPlan.pass []).toOption.map fun pass => (pass.values,
      twoHazardPlan.acceptedError? pass 0 (.make averageInputs.frame averageHazard),
      twoHazardPlan.acceptedError? pass 1 (.make averageInputs.frame laterHazard))) =
        some ([0, 1 / 100, 3 / 100], some 0, some 0) := by
    decide +kernel
  obtain ⟨pass, hpass, hfields⟩ := Option.map_eq_some_iff.mp haccepted
  exact ⟨pass, ok_of_toOption hpass, by simpa only [Prod.mk.injEq] using hfields⟩

/-- The first of two hazard rates is repriced on the curve of both as it was on that of the first alone. -/
theorem trial_curve_agrees_average :
    (∃ f g, Method.backwardFlat.build [0, 1, 2] [1 / 100, 1 / 100, (1 / 50 : ℚ)] = .ok f ∧
      Method.backwardFlat.build [0, 1] [1 / 100, (1 / 100 : ℚ)] = .ok g ∧
      ∃ y, NodeCurve.answerWith ⟨averageInputs.frame, g, false⟩ true (.discount (-1)) = .ok y ∧
        NodeCurve.answerWith ⟨averageInputs.frame, f, false⟩ true (.discount (-1)) = .ok y) ∧
    BootstrapPlan.make { averageInputs with helpers := [averageHazard, laterHazard] } default (Brent.finder default) =
        .ok twoHazardPlan ∧
      ∃ o check, twoHazardPlan.run = .ok o ∧ o.passes = 1 ∧ o.nodes.values = [0, 1 / 100, 3 / 100] ∧
        twoHazardPlan.reprice o.curve 1 (.make averageInputs.frame averageHazard) = .ok check ∧ check.residual = 0 := by
  obtain ⟨hcurves, hruns⟩ := @trial_curve_agrees ℚ _ _ .backwardFlat rfl averageInputs.frame rfl
  refine ⟨?_, make_twoHazardPlan, ?_⟩
  · obtain ⟨f, g, hf, hg, hanswer⟩ := hcurves [0, 1, 2] [1 / 100, 1 / 100, 1 / 50] (by decide) rfl (by decide)
      (by decide) 1 (by decide) (by decide) (by decide)
    exact ⟨f, g, hf, hg, hanswer (.discount (-1)) true (by decide) fun _ => rfl⟩
  · obtain ⟨pass, hpass, hvalues, hfirst, hlater⟩ := twoHazardPlan_accepted
    have hstandard (h : Helper ℚ) (hh : h ∈ [averageHazard, laterHazard]) :
        ∃ product : Product ℚ, product.IsStandard ∧ h.instrument = product.instrument := by
      rcases List.mem_pair.mp hh with rfl | rfl
      · exact ⟨averageRate, .zeroRate _, rfl⟩
      · exact ⟨.zeroRate _, .zeroRate _, rfl⟩
    obtain ⟨hresiduals, hone⟩ := hruns { averageInputs with helpers := [averageHazard, laterHazard] } default
      (Brent.finder default) twoHazardPlan pass rfl rfl hstandard make_twoHazardPlan hpass
    obtain ⟨curve, report, o, hcheck, -, hrun, hpasses, -, hnodes, hcurve⟩ := hone fun k p hk => by
      match k with
      | 0 =>
        cases hk
        exact ⟨0, hfirst, by decide +kernel⟩
      | 1 =>
        cases hk
        exact ⟨0, hlater, by decide +kernel⟩
      | k + 2 => cases hk
    obtain ⟨check, hreprice, hzero⟩ := hresiduals 0 _ 0 rfl hfirst curve (BootstrapPlan.globalCheck_ok hcheck).1
    exact ⟨o, check, hrun, hpasses, by rw [hnodes, hvalues], by rw [hcurve, hreprice], hzero⟩

end TermStructure
