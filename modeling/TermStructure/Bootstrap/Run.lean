import TermStructure.Bootstrap.Pillar
import TermStructure.Curve.Nodes
import TermStructure.Curve.Repricing

/-!
# Running a bootstrap

A pass solves the pillars in order. A global scheme takes a second pass, seeded with the first, since
later nodes move earlier ones. Then every helper is repriced on the finished curve; if one is missed,
one more seeded pass may mend it, and if it does not, the first miss is what is reported. Nothing is
published unless all of this succeeds.
-/

namespace TermStructure

/-- The values a pass found, the anchor first, and how it found them. -/
structure Pass (α : Type) where
  values : List α
  solves : List (PillarSolve α)

def Pass.evaluations {α : Type} (p : Pass α) : Nat := p.solves.foldr (fun s n => s.evaluations + n) 0

/-- The passes of a run so far, the last one first. -/
structure Draft (α : Type) where
  last : Pass α
  earlier : List (Pass α)

namespace Draft

variable {α : Type}

def all (d : Draft α) : List (Pass α) := d.last :: d.earlier

def passes (d : Draft α) : Nat := d.all.length

def evaluations (d : Draft α) : Nat := d.all.foldr (fun p n => p.evaluations + n) 0

end Draft

/-- A finished curve, as it is published. -/
structure BootstrapOutcome (α : Type) where
  nodes : NodeStore α
  pillarDates : List Date
  /-- The curve over the nodes, which refuses reads beyond them. -/
  curve : NodeCurve α
  /-- The repricing of all helpers, if it was asked for. -/
  report : Option (RepricingReport α)
  passes : Nat
  evaluations : Nat

namespace BootstrapPlan

variable {α : Type} [Scalar α]

/-- Solves pillars in order after the nodes before them. In a seeded pass there is a seed for each of
    them, which is the guess at its own pillar and the value at later ones. -/
def passFrom (plan : BootstrapPlan α) :
    (before seeds : List α) → List (Pillar α) → Except (CurveError α) (Pass α)
  | before, _, [] => .ok ⟨before, []⟩
  | before, seeds, p :: rest =>
    let guess :=
      match seeds with
      | s :: _ => s
      | [] => plan.frame.kind.initialGuess before.length (before.getLastD 0) p.time
    let solve := PillarSite.solve ⟨plan, p, before, seeds.tail⟩ guess
    match solve.result with
    | .error e => .error e
    | .ok x =>
      match passFrom plan (before ++ [x]) seeds.tail rest with
      | .error e => .error e
      | .ok pass => .ok { pass with solves := solve :: pass.solves }

/-- A full pass, seeded with a value for each pillar or with none. -/
def pass (plan : BootstrapPlan α) (seeds : List α) : Except (CurveError α) (Pass α) :=
  plan.passFrom [plan.frame.kind.anchorValue] seeds plan.pillars

/-- The draft with one more pass, seeded with the last one. -/
def extend (plan : BootstrapPlan α) (d : Draft α) : Except (CurveError α) (Draft α) := do
  return ⟨← plan.pass d.last.values.tail, d.all⟩

/-- The passes before the check. -/
def draft (plan : BootstrapPlan α) : Except (CurveError α) (Draft α) := do
  let d : Draft α := ⟨← plan.pass [], []⟩
  if plan.scheme.isGlobal then plan.extend d else return d

def finishedCurve (plan : BootstrapPlan α) (values : List α) : Except (CurveError α) (NodeCurve α) :=
  plan.curveOver plan.pillars.length plan.times values

/-- Reprices one helper. One that reads beyond the last pillar has its reads answered there, whether
    it says so or not. -/
def reprice (plan : BootstrapPlan α) (curve : NodeCurve α) (index : Nat) (p : Pillar α) :
    Except (CurveError α) (RepricingCheck α) :=
  let declared := decide (p.latestTime > plan.times.getLastD 0)
  let check (allow : Bool) :=
    RepricingCheck.evaluate index p.helper (curve.extrapolating allow) plan.config.accuracy
  let result : Except (CurveError α) (RepricingCheck α) :=
    match check declared with
    | .error (.extrapolation t low high) =>
      if declared then .error (.extrapolation t low high) else check true
    | r => r
  result.mapError (.helper index)

/-- Reprices helpers in order, the first of which has number `index`. -/
def repriceFrom (plan : BootstrapPlan α) (curve : NodeCurve α) :
    (index : Nat) → List (Pillar α) → Except (CurveError α) (List (RepricingCheck α))
  | _, [] => .ok []
  | index, p :: rest => do
    let check ← plan.reprice curve index p
    return check :: (← plan.repriceFrom curve (index + 1) rest)

/-- Builds the finished curve and reprices every helper on it. -/
def globalCheck (plan : BootstrapPlan α) (values : List α) :
    Except (CurveError α) (NodeCurve α × RepricingReport α) := do
  let curve ← plan.finishedCurve values
  return (curve, .make (← plan.repriceFrom curve 1 plan.pillars))

def publish (plan : BootstrapPlan α) (d : Draft α) (curve : NodeCurve α)
    (report : Option (RepricingReport α)) : Except (CurveError α) (BootstrapOutcome α) := do
  let nodes ← NodeStore.ofSolution plan.times d.last.values
  return ⟨nodes, plan.pillarDates, curve, report, d.passes, d.evaluations⟩

/-- One more pass after a failed check, with a check of its own. -/
def retry (plan : BootstrapPlan α) (d : Draft α) :
    Except (CurveError α) (Draft α × NodeCurve α × RepricingReport α) := do
  let d ← plan.extend d
  let (curve, report) ← plan.globalCheck d.last.values
  return (d, curve, report)

/-- Publishes the draft with one more pass if that mends the failure. An error of that pass is not told, unless it
    breaks off. -/
def recover (plan : BootstrapPlan α) (d : Draft α) (failure : CurveError α) :
    Except (CurveError α) (BootstrapOutcome α) :=
  if plan.config.globalRetry then
    match plan.retry d with
    | .ok (d, curve, report) => if report.allPassed then plan.publish d curve (some report) else .error failure
    | .error e => .error (if e.breaksOff then e else failure)
  else .error failure

def run (plan : BootstrapPlan α) : Except (CurveError α) (BootstrapOutcome α) := do
  let d ← plan.draft
  if plan.config.globalCheck then
    let (curve, report) ← plan.globalCheck d.last.values
    match report.failure? with
    | none => plan.publish d curve (some report)
    | some failure => plan.recover d failure
  else
    let curve ← plan.finishedCurve d.last.values
    plan.publish d curve none

end BootstrapPlan

def bootstrap {α : Type} [Scalar α] (inputs : BootstrapInputs α) (config : BootstrapConfig α)
    (solver : RootFinder α) : Except (CurveError α) (BootstrapOutcome α) := do
  (← BootstrapPlan.make inputs config solver).run

end TermStructure
