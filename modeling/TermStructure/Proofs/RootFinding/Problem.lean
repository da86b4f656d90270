import TermStructure.Proofs.Scalar.Exact
import TermStructure.RootFinding.Search

/-!
# Root finding problems

What a search knows from the samples it has made, and how it may end. A search is followed from any point
on: the samples made so far are what its invariants speak of, and one rule for each kind of node says how
a search from there ends.
-/

namespace TermStructure

/-- A root to be found: the objective, of whose answers `read` tells the finite value, the interval to
    search, and how. -/
structure Problem (α β : Type) where
  objective : α → β
  read : β → Option α
  within : Bracket α
  settings : SolverSettings α

namespace Problem

variable {α β : Type}

/-- What a way to search does from a guess. -/
def run (P : Problem α β) (finder : RootFinder α) (guess : α) : Run α β :=
  (finder.search guess P.within P.settings).run P.objective P.read

/-- The points that a search asks for. -/
def points (P : Problem α β) (t : Search α) : List α := (t.run P.objective P.read).samples.map fun q => q.1

theorem run_evaluate_some {P : Problem α β} {x y : α} {next : α → Search α} (hy : P.read (P.objective x) = some y) :
    (Search.evaluate x next).run P.objective P.read =
      ⟨(x, P.objective x) :: ((next y).run P.objective P.read).samples, ((next y).run P.objective P.read).result⟩ := by
  simp only [Search.evaluate, Search.run, hy]

theorem run_evaluate_none {P : Problem α β} {x : α} {next : α → Search α} (hy : P.read (P.objective x) = none) :
    (Search.evaluate x next).run P.objective P.read = ⟨[(x, P.objective x)], .error (.nonFiniteValue x)⟩ := by
  simp only [Search.evaluate, Search.run, hy]

/-- A search that comes to a root was told a value first. -/
theorem ok_of_evaluate {P : Problem α β} {x : α} {next : α → Search α} {r : Root α}
    (hr : ((Search.evaluate x next).run P.objective P.read).result = .ok r) :
    ∃ y, P.read (P.objective x) = some y ∧ ((next y).run P.objective P.read).result = .ok r := by
  cases hy : P.read (P.objective x) with
  | none =>
    rw [run_evaluate_none hy] at hr
    cases hr
  | some y =>
    rw [run_evaluate_some hy] at hr
    exact ⟨y, rfl, hr⟩

theorem points_evaluate_some {P : Problem α β} {x y : α} {next : α → Search α}
    (hy : P.read (P.objective x) = some y) : P.points (.evaluate x next) = x :: P.points (next y) := by
  unfold points
  rw [run_evaluate_some hy, List.map_cons]

theorem points_evaluate_none {P : Problem α β} {x : α} {next : α → Search α}
    (hy : P.read (P.objective x) = none) : P.points (.evaluate x next) = [x] := by
  unfold points
  rw [run_evaluate_none hy, List.map_singleton]

/-- Among the samples the objective was asked for at `x`, and it has the value `y` there. -/
structure Known (P : Problem α β) (samples : List (α × β)) (x y : α) : Prop where
  asked : (x, P.objective x) ∈ samples
  value : P.read (P.objective x) = some y

theorem Known.append {P : Problem α β} {samples : List (α × β)} {x y : α} (h : P.Known samples x y)
    (more : List (α × β)) : P.Known (samples ++ more) x y :=
  ⟨List.mem_append_left _ h.asked, h.value⟩

theorem known_append (P : Problem α β) (samples : List (α × β)) {x y : α} (hy : P.read (P.objective x) = some y) :
    P.Known (samples ++ [(x, P.objective x)]) x y :=
  ⟨List.mem_append_right _ (List.mem_singleton.mpr rfl), hy⟩

variable [ScalarField α]

/-- The interval is not empty and the tolerance is not negative. -/
structure IsProper (P : Problem α β) : Prop where
  lower_lt_upper : P.within.lower < P.within.upper
  tolerance_nonneg : 0 ≤ P.settings.tolerance

/-- The point lies in the interval to search. -/
def Inside (P : Problem α β) (x : α) : Prop := P.within.lower ≤ x ∧ x ≤ P.within.upper

/-- Two numbers that are not zero, of different sign. -/
def Opposite (u v : α) : Prop := 0 < u ∧ v < 0 ∨ u < 0 ∧ 0 < v

/-- The samples enclose a point: they show a change of sign over an interval of some width at most that the
    point lies in. -/
def Encloses (P : Problem α β) (samples : List (α × β)) (width x : α) : Prop :=
  ∃ low high atLow atHigh, P.Known samples low atLow ∧ P.Known samples high atHigh ∧ Opposite atLow atHigh ∧
    low ≤ x ∧ x ≤ high ∧ high - low ≤ width

/-- A root was asked for, and its residual is the value there. It is close to a root by its residual, or the
    samples enclose it. -/
structure Located (P : Problem α β) (width : α → α) (samples : List (α × β)) (r : Root α) : Prop where
  known : P.Known samples r.root r.residual
  close : |r.residual| ≤ P.settings.tolerance ∨ P.Encloses samples (width r.root) r.root

/-- The samples made so far, when `left` more may be made: all of them inside and of a finite value. -/
structure Record (P : Problem α β) (samples : List (α × β)) (left : Nat) : Prop where
  inside : ∀ s ∈ samples, P.Inside s.1
  finite : ∀ s ∈ samples, (P.read s.2).isSome
  count : samples.length + left = P.settings.limit

/-- What a search may conclude from its samples. -/
def Concludes (P : Problem α β) (width : α → α) (samples : List (α × β)) :
    Except (NumericError α) (Root α) → Prop
  | .ok r => P.Located width samples r ∧ r.evaluations = samples.length
  | .error e => ∀ x, e ≠ .nonFiniteValue x

/-- How a search may end: it concludes from samples of finite value, or it is interrupted by the first one
    that is not. -/
inductive Ending (P : Problem α β) (width : α → α) :
    List (α × β) → Except (NumericError α) (Root α) → Prop where
  | concluded {samples : List (α × β)} {left : Nat} {result : Except (NumericError α) (Root α)}
      (record : P.Record samples left) (concludes : P.Concludes width samples result) : Ending P width samples result
  | interrupted {samples : List (α × β)} {left : Nat} {x : α} (record : P.Record samples (left + 1))
      (inside : P.Inside x) (noValue : P.read (P.objective x) = none) :
      Ending P width (samples ++ [(x, P.objective x)]) (.error (.nonFiniteValue x))

/-- A search that goes on after some samples ends as it may. -/
def Ends (P : Problem α β) (width : α → α) (samples : List (α × β)) (t : Search α) : Prop :=
  P.Ending width (samples ++ (t.run P.objective P.read).samples) (t.run P.objective P.read).result

variable {P : Problem α β} {width : α → α} {samples : List (α × β)} {left : Nat} {x y : α}

theorem Record.known_inside (h : P.Record samples left) (hx : P.Known samples x y) : P.Inside x :=
  h.inside _ hx.asked

/-- The evaluations that are no longer left have been spent on the samples. -/
theorem Record.spent (h : P.Record samples left) : P.settings.limit - left = samples.length := by
  rw [← h.count]
  exact Nat.add_sub_cancel _ _

theorem Record.append (h : P.Record samples (left + 1)) (hx : P.Inside x)
    (hy : P.read (P.objective x) = some y) : P.Record (samples ++ [(x, P.objective x)]) left := by
  refine ⟨fun s hs => ?_, fun s hs => ?_, ?_⟩
  · rcases List.mem_append.mp hs with hs | hs
    · exact h.inside s hs
    · rw [List.mem_singleton.mp hs]
      exact hx
  · rcases List.mem_append.mp hs with hs | hs
    · exact h.finite s hs
    · rw [List.mem_singleton.mp hs, hy]
      rfl
  · rw [List.length_append, List.length_singleton, ← h.count]
    omega

/-- At the start two evaluations are granted, whatever the settings. -/
theorem record_nil (P : Problem α β) : P.Record [] (P.settings.limit - 2 + 1 + 1) := by
  have hle : 2 ≤ P.settings.limit := Nat.le_max_right _ _
  exact ⟨nofun, nofun, by rw [List.length_nil]; omega⟩

/-- A residual beyond the tolerance is not zero. -/
theorem IsProper.ne_zero (hP : P.IsProper) (hy : ¬|y| ≤ P.settings.tolerance) : y ≠ 0 := by
  rintro rfl
  rw [abs_zero] at hy
  exact hy hP.tolerance_nonneg

theorem ends_done {result : Except (NumericError α) (Root α)} (h : P.Record samples left)
    (hr : P.Concludes width samples result) : P.Ends width samples (.done result) := by
  unfold Ends Search.run
  rw [List.append_nil]
  exact .concluded h hr

/-- A search may ask for a point inside if it ends as it may with any finite value there. -/
theorem ends_evaluate {next : α → Search α} (h : P.Record samples (left + 1)) (hx : P.Inside x)
    (hnext : ∀ y, P.Known (samples ++ [(x, P.objective x)]) x y → P.Record (samples ++ [(x, P.objective x)]) left →
      P.Ends width (samples ++ [(x, P.objective x)]) (next y)) : P.Ends width samples (.evaluate x next) := by
  unfold Ends
  cases hv : P.read (P.objective x) with
  | none =>
    rw [run_evaluate_none hv]
    exact .interrupted h hx hv
  | some y =>
    have hends := hnext y (P.known_append samples hv) (h.append hx hv)
    unfold Ends at hends
    rw [List.append_assoc] at hends
    rw [run_evaluate_some hv]
    exact hends

/-- A residual within the tolerance is a conclusion. -/
theorem concludes_of_le (hx : P.Known samples x y) (hy : |y| ≤ P.settings.tolerance) (iterations : Nat)
    {evaluations : Nat} (he : evaluations = samples.length) :
    P.Concludes width samples (.ok ⟨x, iterations, y, evaluations⟩) :=
  ⟨⟨hx, .inl hy⟩, he⟩

theorem Opposite.symm {u v : α} (h : Opposite u v) : Opposite v u := by
  rcases h with ⟨hu, hv⟩ | ⟨hu, hv⟩
  · exact .inr ⟨hv, hu⟩
  · exact .inl ⟨hv, hu⟩

theorem opposite_iff {u v : α} : Opposite u v ↔ u * v < 0 := mul_neg_iff.symm

end Problem

end TermStructure
