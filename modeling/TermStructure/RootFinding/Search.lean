import TermStructure.RootFinding.Bracket

/-!
# Searches

A search for a root is a tree: it ends with a result, or it asks for the objective at a point and
goes on with what it is told, which is nothing where the objective has no finite value. Running a
search against an objective collects the points it asked for, in order.
-/

namespace TermStructure

/-- How accurate a root has to be, and how often the objective may be evaluated. -/
structure SolverSettings (α : Type) where
  tolerance : α
  maxEvaluations : Nat
deriving Repr

/-- Accuracy `1e-12` and a hundred evaluations unless told otherwise. -/
instance {α : Type} [Scalar α] : Inhabited (SolverSettings α) := ⟨⟨1e-12, 100⟩⟩

/-- A root, with the residual there and what it took to find it. -/
structure Root (α : Type) where
  root : α
  iterations : Nat
  residual : α
  evaluations : Nat
deriving Repr

/-- A search for a root. -/
inductive Search (α : Type) where
  | done (result : Except (NumericError α) (Root α))
  | sample (x : α) (next : Option α → Search α)

/-- What a search did: the points it asked for with the answers, and its result. -/
structure Run (α β : Type) where
  samples : List (α × β)
  result : Except (NumericError α) (Root α)

namespace Search

variable {α β : Type}

/-- Asks for the objective at `x`; a point without a finite value ends the search. -/
def evaluate (x : α) (next : α → Search α) : Search α :=
  .sample x fun
    | some y => next y
    | none => .done (.error (.nonFiniteValue x))

/-- Goes on from a point of the interval, if there is one; there is none where the ends are not in order, and the
    search breaks off. -/
def reach (within : Bracket α) (point : Option α) (next : α → Search α) : Search α :=
  match point with
  | some x => next x
  | none => .done (.error (.disordered within.lower within.upper))

/-- Runs a search against the objective `f`, of whose answers `read` tells the finite value. -/
def run (f : α → β) (read : β → Option α) : Search α → Run α β
  | .done result => ⟨[], result⟩
  | .sample x next =>
    let answer := f x
    let later := (next (read answer)).run f read
    ⟨(x, answer) :: later.samples, later.result⟩

end Search

def finite? {α : Type} [Scalar α] (x : α) : Option α := if Scalar.isFinite x then some x else none

/-- A way to search for roots, starting from a guess within an interval. -/
structure RootFinder (α : Type) where
  name : String
  search : (guess : α) → Bracket α → SolverSettings α → Search α

/-- At least two evaluations are granted. -/
def SolverSettings.limit {α : Type} (s : SolverSettings α) : Nat := max s.maxEvaluations 2

end TermStructure
