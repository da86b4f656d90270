import TermStructure.Curve.Kind
import TermStructure.DayCount
import TermStructure.RootFinding.Search

/-!
# Configurations

The settings of a bootstrap run and of a curve. Every field has a default, so a configuration need
only say what it changes.
-/

namespace TermStructure

/-- The settings of a bootstrap run. -/
structure BootstrapConfig (α : Type) where
  /-- The largest error at which a helper counts as repriced. -/
  accuracy : α
  /-- The evaluations granted to the search at one pillar. -/
  maxEvaluations : UInt32
  /-- The factor by which the search interval is widened after a failure. -/
  bracketWidening : α
  /-- Reprice every helper on the finished curve. -/
  globalCheck : Bool
  /-- Run one more pass, seeded with the first, if a helper is missed. -/
  globalRetry : Bool
deriving Repr

namespace BootstrapConfig

variable {α : Type} [Scalar α]

instance : Inhabited (BootstrapConfig α) := ⟨⟨1e-12, 100, 10.0, true, true⟩⟩

/-- The settings of the search at one pillar, which is ten times tighter than the check. -/
def solverSettings (c : BootstrapConfig α) : SolverSettings α :=
  ⟨c.accuracy * 0.1, c.maxEvaluations.toNat⟩

/-- Refuses an accuracy that is not positive, a search without evaluations and a narrowing factor. -/
def validate (c : BootstrapConfig α) : Except (CurveError α) Unit :=
  if !(Scalar.isFinite c.accuracy && decide (c.accuracy > 0)) then
    .error (.invalidConfig (.accuracy c.accuracy))
  else if c.maxEvaluations = 0 then .error (.invalidConfig .maxEvaluations)
  else if !(Scalar.isFinite c.bracketWidening && decide (c.bracketWidening ≥ 1)) then
    .error (.invalidConfig (.bracketWidening c.bracketWidening))
  else .ok ()

end BootstrapConfig

/-- The settings of a curve. -/
structure CurveConfig (α : Type) where
  kind : CurveKind
  interpolation : Method
  dayCount : DayCount
  /-- Queries beyond the last pillar are answered. -/
  allowExtrapolation : Bool
  bootstrap : BootstrapConfig α
deriving Repr

namespace CurveConfig

variable {α : Type} [Scalar α]

instance : Inhabited (CurveConfig α) := ⟨⟨default, default, default, false, default⟩⟩

/-- Refuses a method that cannot carry the nodes of the kind. -/
def validateInterpolation (c : CurveConfig α) : Except (CurveError α) Unit :=
  if c.kind.supports c.interpolation then .ok ()
  else .error (.invalidConfig (.unsupported c.interpolation.title c.kind.title))

def validate (c : CurveConfig α) : Except (CurveError α) Unit := do
  c.bootstrap.validate
  c.validateInterpolation

def validated (c : CurveConfig α) : Except (CurveError α) (CurveConfig α) := do
  c.validate
  return c

def agrees (c d : CurveConfig α) : Bool :=
  c.kind == d.kind && c.interpolation == d.interpolation && c.dayCount == d.dayCount &&
    c.allowExtrapolation == d.allowExtrapolation && c.bootstrap.accuracy == d.bootstrap.accuracy &&
    c.bootstrap.maxEvaluations == d.bootstrap.maxEvaluations &&
    c.bootstrap.bracketWidening == d.bootstrap.bracketWidening &&
    c.bootstrap.globalCheck == d.bootstrap.globalCheck &&
    c.bootstrap.globalRetry == d.bootstrap.globalRetry

end CurveConfig

end TermStructure
