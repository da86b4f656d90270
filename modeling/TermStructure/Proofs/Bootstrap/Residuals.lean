import TermStructure.Proofs.Bootstrap.GlobalCheck
import TermStructure.Proofs.Bootstrap.Retries
import TermStructure.Proofs.RootFinding.Narrowing
import TermStructure.Proofs.Scalar.Comparisons
import TermStructure.RootFinding.Bisection

/-!
# Residuals of failed searches

A search that has spent its evaluations tells the least residual at two of its points, which need not be the least
that it has reached: bisection looks at the ends of the interval it was given, whatever it found between them, and
Brent's method at the last point and one before it. A pillar that fails reports what the last search there tells.
-/

namespace TermStructure

variable {α β : Type}

/-! ### Searches that fail -/

namespace Problem

section
variable {P : Problem α β} {R : List (α × β) → NumericError α → Prop} {samples : List (α × β)} {x x' y y' : α}
  {e : NumericError α}

/-- If a search fails that goes on after some samples, then in one of the ways of `R`. -/
def FailsBy (P : Problem α β) (R : List (α × β) → NumericError α → Prop) (samples : List (α × β)) (t : Search α) : Prop :=
  ∀ e, (t.run P.objective P.read).result = .error e → R (samples ++ (t.run P.objective P.read).samples) e

theorem failsBy_root (root : Root α) : P.FailsBy R samples (.done (.ok root)) := nofun

theorem failsBy_error (h : R samples e) : P.FailsBy R samples (.done (.error e)) := by
  intro e' he
  cases he
  rw [Search.run, List.append_nil]
  exact h

/-- A search fails at a point without a value, or as it does once it knows the value. -/
theorem failsBy_evaluate (hR : ∀ samples x, R samples (.nonFiniteValue x)) {next : α → Search α}
    (hnext : ∀ y, P.read (P.objective x) = some y → P.FailsBy R (samples ++ [(x, P.objective x)]) (next y)) :
    P.FailsBy R samples (.evaluate x next) := by
  intro e he
  cases hv : P.read (P.objective x) with
  | none =>
    rw [run_evaluate_none hv] at he
    cases he
    exact hR _ x
  | some y =>
    rw [run_evaluate_some hv] at he ⊢
    have hfails := hnext y hv e he
    rw [List.append_assoc] at hfails
    exact hfails

/-- A search breaks off where the ends of its interval are not in order, or fails as it does from a point. -/
theorem failsBy_reach (hR : R samples (.disordered P.within.lower P.within.upper)) {point : Option α}
    {next : α → Search α} (hnext : ∀ x, P.FailsBy R samples (next x)) :
    P.FailsBy R samples (.reach P.within point next) := by
  cases point with
  | none => exact failsBy_error hR
  | some x => exact hnext x

/-! ### The last point -/

/-- The point `x` was asked for last, and `x'` before. -/
structure Latest (P : Problem α β) (samples : List (α × β)) (x y x' y' : α) : Prop where
  value : P.read (P.objective x) = some y
  known : ∃ earlier, samples = earlier ++ [(x, P.objective x)] ∧ P.Known earlier x' y'

/-- One of the two points was asked for last, and the other one before. -/
def Recent (P : Problem α β) (samples : List (α × β)) (x y x' y' : α) : Prop :=
  P.Latest samples x y x' y' ∨ P.Latest samples x' y' x y

theorem Known.latest (h : P.Known samples x' y') (hy : P.read (P.objective x) = some y) :
    P.Latest (samples ++ [(x, P.objective x)]) x y x' y' :=
  ⟨hy, samples, rfl, h⟩

theorem Latest.last (h : P.Latest samples x y x' y') : P.Known samples x y := by
  obtain ⟨earlier, rfl, -⟩ := h.known
  exact P.known_append earlier h.value

theorem Latest.before (h : P.Latest samples x y x' y') : P.Known samples x' y' := by
  obtain ⟨earlier, rfl, hknown⟩ := h.known
  exact hknown.append _

theorem Recent.symm (h : P.Recent samples x y x' y') : P.Recent samples x' y' x y := Or.symm h

theorem Recent.left (h : P.Recent samples x y x' y') : P.Known samples x y := h.elim Latest.last Latest.before

theorem Recent.right (h : P.Recent samples x y x' y') : P.Known samples x' y' := h.symm.left

end

/-! ### What a residual tells -/

variable [Scalar α] {P : Problem α β} {samples : List (α × β)} {x x' y y' residual : α} {points : List α}

/-- The residual that is told is the least one at some of the points that were asked for. -/
structure Told (P : Problem α β) (samples : List (α × β)) (points : List α) (residual : α) : Prop where
  asked : ∀ x ∈ points, ∃ y, P.Known samples x y
  reached : ∃ x ∈ points, ∃ y, P.read (P.objective x) = some y ∧ residual = Scalar.abs y
  least : ∀ x ∈ points, ∀ y, P.read (P.objective x) = some y → ¬Scalar.abs y < residual

/-- The residual that is told is the least one at the last point and one before it. -/
def LastTold (P : Problem α β) (samples : List (α × β)) (residual : α) : Prop :=
  ∃ x y x' y', P.Latest samples x y x' y' ∧ P.Told samples [x, x'] residual

/-- No point that was asked for has a smaller residual. -/
def Least (P : Problem α β) (samples : List (α × β)) (residual : α) : Prop :=
  ∀ x y, P.Known samples x y → ¬Scalar.abs y < residual

theorem Told.swap (h : P.Told samples [x, x'] residual) : P.Told samples [x', x] residual := by
  have hmem (z : α) : z ∈ [x', x] ↔ z ∈ [x, x'] := by
    rw [List.mem_pair, List.mem_pair]
    exact or_comm
  obtain ⟨z, hz, hreached⟩ := h.reached
  exact ⟨fun w hw => h.asked w ((hmem w).mp hw), ⟨z, (hmem z).mpr hz, hreached⟩, fun w hw => h.least w ((hmem w).mp hw)⟩

theorem Recent.lastTold (h : P.Recent samples x y x' y') (htold : P.Told samples [x, x'] residual) :
    P.LastTold samples residual := by
  rcases h with h | h
  · exact ⟨x, y, x', y', h, htold⟩
  · exact ⟨x', y', x, y, h, htold.swap⟩

variable [LawfulSmaller α]

theorem told_of_not_lt (hx : P.Known samples x y) (hx' : P.Known samples x' y')
    (h : ¬Scalar.abs y' < Scalar.abs y) : P.Told samples [x, x'] (Scalar.abs y) := by
  refine ⟨?_, ⟨x, List.mem_cons_self, y, hx.value, rfl⟩, ?_⟩
  · rintro z hz
    rcases List.mem_pair.mp hz with rfl | rfl
    · exact ⟨y, hx⟩
    · exact ⟨y', hx'⟩
  · rintro z hz w hw
    rcases List.mem_pair.mp hz with rfl | rfl
    · obtain rfl : y = w := Option.some.inj (hx.value.symm.trans hw)
      exact LawfulSmaller.lt_irrefl _
    · obtain rfl : y' = w := Option.some.inj (hx'.value.symm.trans hw)
      exact h

theorem told_smaller (hx : P.Known samples x y) (hx' : P.Known samples x' y') :
    P.Told samples [x, x'] (Scalar.smaller (Scalar.abs y) (Scalar.abs y')) := by
  rcases LawfulSmaller.smaller_spec (Scalar.abs y) (Scalar.abs y') with ⟨heq, h⟩ | ⟨heq, h⟩
  · rw [heq]
    exact told_of_not_lt hx hx' h
  · rw [heq]
    exact (told_of_not_lt hx' hx h).swap

end Problem

section
variable [Scalar α]

open Problem

/-! ### Bisection -/

namespace Bisection

/-- How a bisection may fail. When its evaluations are spent it tells the least residual at the ends of the interval to
    search; and it refuses an interval of which it has seen the ends only. -/
inductive Failure (P : Problem α β) (samples : List (α × β)) : NumericError α → Prop where
  | exhausted {residual : α} (told : P.Told samples [P.within.lower, P.within.upper] residual) :
      Failure P samples (.convergenceFailed samples.length residual)
  | refused {fa fb : α} (left : P.Known samples P.within.lower fa) (right : P.Known samples P.within.upper fb)
      (only : samples.map (·.1) = [P.within.lower, P.within.upper]) :
      Failure P samples (.invalidBracket P.within.lower P.within.upper fa fb)
  | interrupted (x : α) : Failure P samples (.nonFiniteValue x)

variable [LawfulSmaller α] {P : Problem α β} {samples : List (α × β)} {left iterations : Nat}
  {atLower atUpper low high : α}

theorem halve_fails (hlower : P.Known samples P.within.lower atLower) (hupper : P.Known samples P.within.upper atUpper)
    (hcount : samples.length + left = P.settings.limit) :
    P.FailsBy (Failure P) samples
      (halve P.settings.limit P.settings.tolerance atLower atUpper left iterations low high) := by
  induction left generalizing samples iterations low high with
  | zero =>
    refine failsBy_error ?_
    rw [← hcount]
    exact .exhausted (told_smaller hlower hupper)
  | succ left ih =>
    refine failsBy_evaluate (fun _ => .interrupted) fun y _ => ?_
    have hcount : (samples ++ [(0.5 * (low + high), P.objective (0.5 * (low + high)))]).length + left =
        P.settings.limit := by
      rw [List.length_append, List.length_singleton, ← hcount]
      omega
    split
    · exact failsBy_root _
    · split
      · exact ih (hlower.append _) (hupper.append _) hcount
      · exact ih (hlower.append _) (hupper.append _) hcount

theorem search_fails (P : Problem α β) (guess : α) :
    P.FailsBy (Failure P) [] (search guess P.within P.settings) := by
  refine failsBy_evaluate (fun _ => .interrupted) fun fa hfa => ?_
  refine failsBy_evaluate (fun _ => .interrupted) fun fb hfb => ?_
  have hfa := (P.known_append [] hfa).append [(P.within.upper, P.objective P.within.upper)]
  have hfb := P.known_append [(P.within.lower, P.objective P.within.lower)] hfb
  split
  · exact failsBy_root _
  split
  · exact failsBy_root _
  split
  · exact failsBy_error (.refused hfa hfb rfl)
  · refine halve_fails hfa hfb ?_
    have hlimit : 2 ≤ P.settings.limit := Nat.le_max_right _ _
    simp only [List.nil_append, List.length_append, List.length_singleton]
    omega

end Bisection

/-! ### Brent's method -/

namespace Brent

/-- How Brent's method may fail. When its evaluations are spent it tells the least residual at two of its points, and it
    refuses an interval by the values at two of them. In either case one of the two is the last. -/
inductive Failure (P : Problem α β) (samples : List (α × β)) : NumericError α → Prop where
  | exhausted {residual : α} (told : P.LastTold samples residual) :
      Failure P samples (.convergenceFailed samples.length residual)
  | refused {a b fa fb : α} (recent : P.Recent samples a fa b fb) : Failure P samples (.invalidBracket a b fa fb)
  | interrupted (x : α) : Failure P samples (.nonFiniteValue x)
  | disordered : Failure P samples (.disordered P.within.lower P.within.upper)

/-- The points of a turn: the best one was asked for last, or the one before it in the first turn, in which the end is
    not another point yet. -/
structure State.Traced (P : Problem α β) (samples : List (α × β)) (s : State α) : Prop where
  turned : P.Recent samples s.a s.fa s.b s.fb
  opposed : P.Latest samples s.b s.fb s.c s.fc ∨ s.c = s.b ∧ s.fc = s.fb ∧ (s.fb > 0 ∨ s.fb < 0)

variable {P : Problem α β} {samples : List (α × β)} {left : Nat} {s : State α} {x y a fa b fb : α}

theorem traced_start [LawfulSign α] (h : P.Recent samples a fa b fb) (hsign : fa * fb < 0) :
    (State.start a fa b fb).Traced P samples :=
  ⟨h, .inr ⟨rfl, rfl, LawfulSign.signed_of_mul_neg hsign⟩⟩

/-- Once the end is another point than the best one, one of them was asked for last. -/
theorem State.Traced.oppose (h : s.Traced P samples) :
    P.Recent samples s.oppose.b s.oppose.fb s.oppose.c s.oppose.fc := by
  unfold State.oppose
  split
  · exact h.turned.symm
  · rename_i hdifferent
    rcases h.opposed with hlatest | ⟨-, hsame, hsign⟩
    · exact .inl hlatest
    · rw [hsame, and_self, and_self] at hdifferent
      exact absurd hsign hdifferent

theorem State.recent_orient (h : P.Recent samples s.b s.fb s.c s.fc) :
    P.Recent samples s.orient.b s.orient.fb s.orient.c s.orient.fc := by
  unfold State.orient
  split
  · exact h.symm
  · exact h

/-- The better of the two ends is the best point. -/
theorem State.not_lt_orient [LawfulSmaller α] (s : State α) : ¬Scalar.abs s.orient.fc < Scalar.abs s.orient.fb := by
  unfold State.orient
  split
  · rename_i hlt
    rcases LawfulSmaller.smaller_spec (Scalar.abs s.fb) (Scalar.abs s.fc) with ⟨-, h⟩ | ⟨-, h⟩
    · exact absurd hlt h
    · exact h
  · rename_i hnot
    exact hnot

theorem State.traced_advance (h : P.Recent samples s.b s.fb s.c s.fc) (hy : P.read (P.objective x) = some y) :
    (s.choose.advance x y).Traced P (samples ++ [(x, P.objective x)]) := by
  obtain ⟨d, e, heq⟩ := s.choose_eq
  rw [heq]
  exact ⟨.inr (h.left.latest hy), .inl (h.right.latest hy)⟩

variable [LawfulSmaller α]

theorem narrow_fails (h : s.Traced P samples) (hcount : samples.length + left = P.settings.limit) :
    P.FailsBy (Failure P) samples (narrow P.settings.limit P.settings.tolerance left s) := by
  induction left using Nat.strongRecOn generalizing samples s with
  | ind left ih =>
    have h := State.recent_orient h.oppose
    unfold narrow
    dsimp only
    split
    · exact failsBy_root _
    · split
      · refine failsBy_error ?_
        rw [← hcount]
        exact .exhausted (h.lastTold (told_of_not_lt h.left h.right (State.not_lt_orient _)))
      · rename_i left
        refine failsBy_evaluate (fun _ => .interrupted) fun y hy =>
          ih left left.lt_succ_self (State.traced_advance h hy) ?_
        rw [List.length_append, List.length_singleton, ← hcount]
        omega

variable [LawfulSign α]

theorem expand_fails (p : Brent α) (h : P.Recent samples a fa b fb)
    (hcount : samples.length + left = P.settings.limit) :
    P.FailsBy (Failure P) samples (p.expand P.within P.settings.limit P.settings.tolerance left a fa b fb) := by
  induction left using Nat.strongRecOn generalizing samples a fa b fb with
  | ind left ih =>
    unfold expand
    split
    · exact failsBy_root _
    split
    · exact failsBy_root _
    split
    · rename_i hsign
      exact narrow_fails (traced_start h hsign) hcount
    split
    · exact failsBy_error (.refused h)
    split
    · refine failsBy_error ?_
      rw [← hcount]
      exact .exhausted (h.lastTold (told_smaller h.left h.right))
    · rename_i left
      have hmore (z : α) : (samples ++ [(z, P.objective z)]).length + left = P.settings.limit := by
        rw [List.length_append, List.length_singleton, ← hcount]
        omega
      split
      · exact failsBy_reach .disordered fun a => failsBy_evaluate (fun _ => .interrupted) fun fa hfa =>
          ih left left.lt_succ_self (.inl (h.right.latest hfa)) (hmore _)
      · exact failsBy_reach .disordered fun b => failsBy_evaluate (fun _ => .interrupted) fun fb hfb =>
          ih left left.lt_succ_self (.inr (h.left.latest hfb)) (hmore _)

theorem search_fails (p : Brent α) (P : Problem α β) (guess : α) :
    P.FailsBy (Failure P) [] (p.search guess P.within P.settings) := by
  have hlimit : 2 ≤ P.settings.limit := Nat.le_max_right _ _
  unfold search
  dsimp only
  refine failsBy_reach .disordered fun x => failsBy_evaluate (fun _ => .interrupted) fun fx hfx => ?_
  have hfx := P.known_append [] hfx
  split
  · exact failsBy_root _
  split
  · refine failsBy_reach .disordered fun b => failsBy_evaluate (fun _ => .interrupted) fun fb hfb =>
      expand_fails p (.inr (hfx.latest hfb)) ?_
    simp only [List.nil_append, List.length_append, List.length_singleton]
    omega
  · refine failsBy_evaluate (fun _ => .interrupted) fun fa hfa => expand_fails p (.inl (hfx.latest hfa)) ?_
    simp only [List.nil_append, List.length_append, List.length_singleton]
    omega

end Brent

/-! ### Pillars -/

namespace PillarSite

variable {site : PillarSite α} {guess residual : α} {i : Nat} {a : Attempt α}

/-- What a pillar that fails reports: what a search on the wider interval tells, to which every point gave a value. By
    bisection that is the least residual of all if the interval was refused. -/
structure Reports (site : PillarSite α) (a : Attempt α) (residual : α) : Prop where
  wider : a.bracket = site.widened
  unbroken : a.Unbroken
  bisection : site.plan.solver = Bisection.finder →
    (site.problem a.bracket a.extrapolates).Told a.run.samples [a.bracket.lower, a.bracket.upper] residual
  refused : site.plan.solver = Bisection.finder → (∀ n r, a.run.result ≠ .error (.convergenceFailed n r)) →
    (site.problem a.bracket a.extrapolates).Least a.run.samples residual
  brent : ∀ p : Brent α, site.plan.solver = p.finder →
    (site.problem a.bracket a.extrapolates).LastTold a.run.samples residual

/-- A pillar that failed did so by the last of its searches. -/
theorem failed_of_solve (h : (site.solve guess).result = .error (.pillarFailure i residual)) :
    i = site.index ∧ ∃ a e, (site.solve guess).attempts.getLast? = some a ∧
      a = site.attempt guess site.widened a.extrapolates ∧ a.Unbroken ∧ a.run.result = .error e ∧
      e.lastResidual? = some residual := by
  have hproceeds : site.Proceeds guess site.looksAhead false (site.solve guess) := site.proceeds_solveFrom guess rfl
  obtain ⟨a, hlast, hends⟩ := hproceeds.ended
  have hsearched := hproceeds.searched a (List.mem_of_getLast? hlast)
  rw [h] at hends
  cases hends with
  | failed unbroken result _ told wider _ =>
    rw [wider] at hsearched
    exact ⟨rfl, a, _, hlast, hsearched, unbroken, result, told⟩

variable [LawfulSmaller α] {bracket : Bracket α} {allow : Bool} {e : NumericError α}

/-- A bisection that failed at a pillar looked at the ends of its interval, and at no other point if it was refused. -/
theorem told_of_bisection (hsolver : site.plan.solver = Bisection.finder)
    (hresult : (site.attempt guess bracket allow).run.result = .error e) (he : e.lastResidual? = some residual) :
    (site.problem bracket allow).Told (site.attempt guess bracket allow).run.samples [bracket.lower, bracket.upper]
        residual ∧
      ((∀ n r, e ≠ .convergenceFailed n r) →
        (site.problem bracket allow).Least (site.attempt guess bracket allow).run.samples residual) := by
  rw [attempt_run, hsolver] at hresult ⊢
  have hfails := Bisection.search_fails (site.problem bracket allow) guess e hresult
  change Bisection.Failure _ ((site.problem bracket allow).run Bisection.finder guess).samples e at hfails
  cases hfails with
  | exhausted told =>
    cases he
    exact ⟨told, fun hother => absurd rfl (hother _ _)⟩
  | refused left right only =>
    cases he
    have htold := Problem.told_smaller left right
    refine ⟨htold, fun _ x y hx => htold.least x ?_ y hx.value⟩
    rw [← only]
    exact List.mem_map_of_mem hx.asked
  | interrupted => cases he

theorem lastTold_of_brent [LawfulSign α] {p : Brent α} (hsolver : site.plan.solver = p.finder)
    (hresult : (site.attempt guess bracket allow).run.result = .error e) (he : e.lastResidual? = some residual) :
    (site.problem bracket allow).LastTold (site.attempt guess bracket allow).run.samples residual := by
  rw [attempt_run, hsolver] at hresult ⊢
  have hfails := p.search_fails (site.problem bracket allow) guess e hresult
  change Brent.Failure _ ((site.problem bracket allow).run p.finder guess).samples e at hfails
  cases hfails with
  | exhausted told =>
    cases he
    exact told
  | refused recent =>
    cases he
    exact recent.lastTold (Problem.told_smaller recent.left recent.right)
  | interrupted => cases he
  | disordered => cases he

theorem reports_of_failed [LawfulSign α]
    (hsearched : a = site.attempt guess site.widened a.extrapolates) (hunbroken : a.Unbroken)
    (hresult : a.run.result = .error e) (he : e.lastResidual? = some residual) : site.Reports a residual := by
  generalize a.extrapolates = allow at hsearched
  subst hsearched
  refine ⟨rfl, hunbroken, fun hsolver => (told_of_bisection hsolver hresult he).1, fun hsolver hother => ?_,
    fun p hsolver => lastTold_of_brent hsolver hresult he⟩
  refine (told_of_bisection hsolver hresult he).2 fun n r hsame => ?_
  rw [hsame] at hresult
  exact hother n r hresult

end PillarSite

/-- When its evaluations are spent, bisection tells the least residual at the two ends of the interval to search, and
    Brent's method that at the last point and one before it. What either of them found elsewhere is not looked at. A
    pillar that fails reports what the last search there tells. -/
theorem residuals_told [LawfulSmaller α] [LawfulSign α] (P : Problem α β) (site : PillarSite α) (guess residual : α) :
    (∀ n, (P.run Bisection.finder guess).result = .error (.convergenceFailed n residual) →
      n = (P.run Bisection.finder guess).samples.length ∧
        P.Told (P.run Bisection.finder guess).samples [P.within.lower, P.within.upper] residual) ∧
    (∀ (p : Brent α) n, (P.run p.finder guess).result = .error (.convergenceFailed n residual) →
      n = (P.run p.finder guess).samples.length ∧ P.LastTold (P.run p.finder guess).samples residual) ∧
    ∀ i, (site.solve guess).result = .error (.pillarFailure i residual) →
      i = site.index ∧ ∃ a, (site.solve guess).attempts.getLast? = some a ∧ site.Reports a residual := by
  refine ⟨fun n hresult => ?_, fun p n hresult => ?_, fun i hresult => ?_⟩
  · have hfails := Bisection.search_fails P guess _ hresult
    change Bisection.Failure P (P.run Bisection.finder guess).samples _ at hfails
    cases hfails with
    | exhausted told => exact ⟨rfl, told⟩
  · have hfails := p.search_fails P guess _ hresult
    change Brent.Failure P (P.run p.finder guess).samples _ at hfails
    cases hfails with
    | exhausted told => exact ⟨rfl, told⟩
  · obtain ⟨hindex, a, e, hlast, hsearched, hunbroken, hfailed, he⟩ := PillarSite.failed_of_solve hresult
    exact ⟨hindex, a, hlast, PillarSite.reports_of_failed hsearched hunbroken hfailed he⟩

end

/-- A line, of which four evaluations are granted. -/
def line : Problem ℚ ℚ where
  objective x := x - 3 / 10
  read := some
  within := ⟨0, 1⟩
  settings := ⟨1 / 1000, 4⟩

/-- A parabola, of which four evaluations are granted. -/
def parabola : Problem ℚ ℚ where
  objective x := x * x - 1
  read := some
  within := ⟨-3, 3⟩
  settings := ⟨1 / 1000, 4⟩

/-- A pillar for a hazard rate, with four evaluations for a search. -/
def hastySite : PillarSite ℚ :=
  let frame : Frame := ⟨.newYear 2025, .act365Fixed, .hazardRate⟩
  let pillar := Pillar.make frame (hazardAt (.newYear 2026) (.newYear 2026) (3 / 10))
  ⟨⟨frame, Method.linear.scheme, { (default : BootstrapConfig ℚ) with maxEvaluations := 4 }, Bisection.finder, [pillar]⟩,
    pillar, [0], []⟩

/-- Each time a point that was asked for has a smaller residual than the one that is told. -/
theorem residuals_told_overlooked :
    (line.Told (line.run Bisection.finder 0).samples [0, 1] (3 / 10) ∧
      ¬line.Least (line.run Bisection.finder 0).samples (3 / 10)) ∧
    (parabola.LastTold (parabola.run (Brent.finder default) (9 / 10)).samples (184 / 625) ∧
      ¬parabola.Least (parabola.run (Brent.finder default) (9 / 10)).samples (184 / 625)) ∧
    ∃ a, (hastySite.solve 0).attempts.getLast? = some a ∧ hastySite.Reports a (13 / 10) ∧
      ¬(hastySite.problem a.bracket a.extrapolates).Least a.run.samples (13 / 10) := by
  have hline : (line.run Bisection.finder 0).result = .error (.convergenceFailed 4 (3 / 10)) :=
    error_of_map (by decide +kernel : ((line.run Bisection.finder 0).result.map fun _ => ()) = _)
  have hparabola : (parabola.run (Brent.finder default) (9 / 10)).result = .error (.convergenceFailed 4 (184 / 625)) :=
    error_of_map (by decide +kernel : ((parabola.run (Brent.finder default) (9 / 10)).result.map fun _ => ()) = _)
  have hsite : (hastySite.solve 0).result = .error (.pillarFailure 1 (13 / 10)) :=
    error_of_map (by decide +kernel : ((hastySite.solve 0).result.map fun _ => ()) = _)
  refine ⟨⟨((residuals_told line hastySite 0 _).1 4 hline).2, fun hleast => ?_⟩,
    ⟨((residuals_told parabola hastySite _ _).2.1 default 4 hparabola).2, fun hleast => ?_⟩, ?_⟩
  · exact hleast (1 / 4) (-1 / 20) ⟨by decide +kernel, by decide +kernel⟩ (by decide +kernel)
  · exact hleast (249 / 250) (-499 / 62500) ⟨by decide +kernel, by decide +kernel⟩ (by decide +kernel)
  · obtain ⟨-, a, hlast, hreports⟩ := (residuals_told line hastySite _ _).2.2 1 hsite
    refine ⟨a, hlast, hreports, fun hleast => ?_⟩
    have hfound : (hastySite.solve 0).attempts.getLast?.all fun a => decide
        ((5 / 8, hastySite.objective a.extrapolates (5 / 8)) ∈ a.run.samples ∧
          PillarSite.finiteAnswer? (hastySite.objective a.extrapolates (5 / 8)) = some (13 / 40)) := by
      decide +kernel
    rw [hlast] at hfound
    obtain ⟨hasked, hvalue⟩ := of_decide_eq_true hfound
    exact hleast (5 / 8) (13 / 40) ⟨hasked, hvalue⟩ (by decide +kernel)

end TermStructure
