import TermStructure.Config.Basic
import TermStructure.Curve.NodeCurve
import TermStructure.Instrument.Basic

/-!
# Bootstrap plans

A plan is a set of helpers whose pillars have been put in order and checked: none lies before the
reference date, and no two of them, or one of them and the anchor, share a time.
-/

namespace TermStructure

/-- What a bootstrap starts from: the frame of the curve, the scheme between its nodes, and the
    helpers in any order. -/
structure BootstrapInputs (α : Type) where
  frame : Frame
  scheme : Scheme α
  helpers : List (Helper α)

/-- A helper with its place on the curve. -/
structure Pillar (α : Type) where
  helper : Helper α
  date : Date
  time : α
  /-- The latest time at which the helper reads the curve, as far as it says. -/
  latestTime : α

namespace Pillar

variable {α : Type} [Scalar α]

/-- Pillars no further apart than this, in years, count as one. -/
def minSpacing : α := 1e-10

def make (f : Frame) (h : Helper α) : Pillar α :=
  let date := h.instrument.pillar
  ⟨h, date, f.time date, f.time (h.instrument.latest.later date)⟩

/-- Puts pillars in the order of their times; those of one time stay in the order given. -/
def inOrder (pillars : List (Pillar α)) : List (Pillar α) :=
  pillars.mergeSort fun a b => Scalar.totalLe a.time b.time

/-- Checks pillars in order, the first of which has number `index` and follows a node at time
    `previous`. -/
def check (index : Nat) (previous : α) : List (Pillar α) → Except (CurveError α) Unit
  | [] => .ok ()
  | p :: rest =>
    if !Scalar.isFinite p.time || decide (p.time < 0) then .error (.invalidPillar index p.time)
    else if p.time - previous ≤ minSpacing then .error (.duplicatePillar p.time)
    else check (index + 1) p.time rest

end Pillar

/-- A set of helpers that is ready to be solved for. -/
structure BootstrapPlan (α : Type) where
  frame : Frame
  scheme : Scheme α
  config : BootstrapConfig α
  solver : RootFinder α
  pillars : List (Pillar α)

namespace BootstrapPlan

variable {α : Type}

/-- The nodes of the first trial curve: the anchor and the first pillar. -/
def firstTrialNodes : Nat := 2

def pillarDates (plan : BootstrapPlan α) : List Date := plan.pillars.map (·.date)

variable [Scalar α]

/-- The times of the nodes, that of the anchor first. -/
def times (plan : BootstrapPlan α) : List α := 0 :: plan.pillars.map (·.time)

def make (inputs : BootstrapInputs α) (config : BootstrapConfig α) (solver : RootFinder α) :
    Except (CurveError α) (BootstrapPlan α) := do
  config.validate
  let scheme := inputs.scheme
  if scheme.minPoints > firstTrialNodes then
    .error (.invalidConfig (.trialNodes scheme.name scheme.minPoints firstTrialNodes))
  else if inputs.helpers.isEmpty then .error .emptyHelperSet
  else
    let pillars := Pillar.inOrder (inputs.helpers.map (Pillar.make inputs.frame))
    Pillar.check 1 0 pillars
    return ⟨inputs.frame, scheme, config, solver, pillars⟩

/-- The curve with given values at given times, for the sake of pillar `index`. -/
def curveOver (plan : BootstrapPlan α) (index : Nat) (times values : List α) :
    Except (CurveError α) (NodeCurve α) :=
  match plan.scheme.build times values with
  | .ok f => .ok ⟨plan.frame, f, false⟩
  | .error e => .error (.interpolation index e)

end BootstrapPlan

end TermStructure
