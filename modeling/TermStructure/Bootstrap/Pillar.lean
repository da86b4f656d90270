import TermStructure.Bootstrap.Plan

/-!
# Solving one pillar

The value at one node is sought, given the values at the nodes before it and, in a seeded pass, at
those after it. The search is repeated at most twice: once on a curve that answers beyond its nodes,
if the helper turns out to read there, and once on a wider interval, if it fails.
-/

namespace TermStructure

/-- The smallest residual a failed search tells of. -/
def NumericError.lastResidual? {α : Type} [Scalar α] : NumericError α → Option α
  | convergenceFailed _ residual => some residual
  | invalidBracket _ _ fa fb => some (Scalar.smaller (Scalar.abs fa) (Scalar.abs fb))
  | _ => none

/-- A pillar to be solved: the values at the nodes before it, the anchor first, and those at the nodes
    after it. -/
structure PillarSite (α : Type) where
  plan : BootstrapPlan α
  pillar : Pillar α
  before : List α
  after : List α

/-- One search at a pillar. -/
structure Attempt (α : Type) where
  bracket : Bracket α
  extrapolates : Bool
  run : Run α (Except (CurveError α) α)

/-- The searches at a pillar in order, and what they led to. -/
structure PillarSolve (α : Type) where
  attempts : List (Attempt α)
  result : Except (CurveError α) α

/-- The first error met while the objective was evaluated. -/
def Attempt.firstError? {α : Type} (a : Attempt α) : Option (CurveError α) :=
  a.run.samples.findSome? fun (_, answer) =>
    match answer with
    | .ok _ => none
    | .error e => some e

/-- The solve after one more search in front. -/
def PillarSolve.after {α : Type} (s : PillarSolve α) (a : Attempt α) : PillarSolve α :=
  { s with attempts := a :: s.attempts }

def PillarSolve.evaluations {α : Type} (s : PillarSolve α) : Nat :=
  s.attempts.foldr (fun a n => a.run.samples.length + n) 0

namespace PillarSite

variable {α : Type} [Scalar α]

def index (site : PillarSite α) : Nat := site.before.length

def previous (site : PillarSite α) : α := site.before.getLastD 0

def previousTime (site : PillarSite α) : α := site.plan.times.getD (site.index - 1) 0

def trialCurve (site : PillarSite α) (x : α) : Except (CurveError α) (NodeCurve α) :=
  site.plan.curveOver site.index
    (site.plan.times.take (site.index + 1 + site.after.length)) (site.before ++ x :: site.after)

/-- The error of the quote if the value at the pillar is `x`. -/
def objective (site : PillarSite α) (extrapolates : Bool) (x : α) : Except (CurveError α) α := do
  let curve ← site.trialCurve x
  (curve.extrapolating extrapolates).read (site.pillar.helper.quoteError site.plan.frame)

/-- The finite value of an evaluation. -/
def finiteAnswer? : Except (CurveError α) α → Option α
  | .ok y => finite? y
  | .error _ => none

def attempt (site : PillarSite α) (guess : α) (bracket : Bracket α) (extrapolates : Bool) : Attempt α :=
  ⟨bracket, extrapolates,
    (site.plan.solver.search guess bracket site.plan.config.solverSettings).run
      (site.objective extrapolates) finiteAnswer?⟩

def bracket (site : PillarSite α) : Bracket α :=
  site.plan.frame.kind.searchBracket site.previous (site.pillar.time - site.previousTime)

/-- The helper says that it reads the curve beyond its pillar. -/
def looksAhead (site : PillarSite α) : Bool := decide (site.pillar.latestTime > site.pillar.time)

/-- Searches until there is a value or an error to report. A helper that reads beyond the nodes is
    given a curve that answers there; a failed search is repeated on the widened interval. -/
def solveFrom (site : PillarSite α) (guess : α) (bracket : Bracket α) (extrapolates widened : Bool) :
    PillarSolve α :=
  let a := site.attempt guess bracket extrapolates
  match a.firstError? with
  | some (.extrapolation t low high) =>
    if extrapolates then ⟨[a], .error (.helper site.index (.extrapolation t low high))⟩
    else (site.solveFrom guess bracket true widened).after a
  | some (.interpolation index source) => ⟨[a], .error (.interpolation index source)⟩
  | some e => ⟨[a], .error (.helper site.index e)⟩
  | none =>
    match a.run.result with
    | .ok solution => ⟨[a], .ok solution.root⟩
    | .error e =>
      match e.lastResidual? with
      | none => ⟨[a], .error (.rootFind site.index e)⟩
      | some residual =>
        if widened then ⟨[a], .error (.pillarFailure site.index residual)⟩
        else
          let wider := site.plan.frame.kind.widenedBracket site.plan.config.bracketWidening bracket
          (site.solveFrom guess wider extrapolates true).after a
termination_by (if extrapolates then 0 else 1) + (if widened then 0 else 1)
decreasing_by all_goals simp_all

def solve (site : PillarSite α) (guess : α) : PillarSolve α :=
  site.solveFrom guess site.bracket site.looksAhead false

end PillarSite

end TermStructure
