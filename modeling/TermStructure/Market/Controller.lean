import TermStructure.Error
import TermStructure.Market.Observer

/-!
# Controllers

A controller knows whether a solve is out of date. Every change of an input takes it to a new version,
and a solve that succeeds makes that version clean. The error of a solve that fails is kept for as
long as the version lasts, so that no version is attempted twice. While a controller is frozen, changes
of its inputs are only noted, and count as one when it thaws.
-/

namespace TermStructure

/-- When to solve. -/
structure Controller (α : Type) where
  version : Nat := 1
  /-- The version that was last solved. -/
  cleanVersion : Nat := 0
  frozen : Bool := false
  /-- An input changed while the controller was frozen. -/
  pending : Bool := false
  solves : Nat := 0
  /-- The last solve failed, at this version and with this error. -/
  failure : Option (Nat × CurveError α) := none
  observers : Registry := {}

namespace Controller

variable {α : Type}

/-- The last solve that succeeded is one of the present inputs. -/
def isUpToDate (c : Controller α) : Bool := c.cleanVersion == c.version

/-- The error of a solve of the present inputs. -/
def lastFailure? (c : Controller α) : Option (CurveError α) :=
  c.failure.bind fun (version, e) => if version == c.version then some e else none

/-- How a solve of the present inputs ended, if there was one. -/
def verdict? (c : Controller α) : Option (Except (CurveError α) Unit) :=
  if c.isUpToDate then some (.ok ()) else c.lastFailure?.map .error

/-- The controller after a solve of the present inputs. -/
def settle (c : Controller α) : Except (CurveError α) Unit → Controller α
  | .ok _ => { c with solves := c.solves + 1, failure := none, cleanVersion := c.version }
  | .error e => { c with solves := c.solves + 1, failure := some (c.version, e) }

/-- The inputs are no longer what they were. -/
def advance (c : Controller α) : Controller α := { c with version := c.version + 1 }

def hear (c : Controller α) : Controller α := if c.frozen then { c with pending := true } else c.advance

/-- Changes of inputs are put off. -/
def freeze (c : Controller α) : Controller α := { c with frozen := true }

/-- Changes of inputs count again. -/
def thaw (c : Controller α) : Controller α := if c.frozen then { c with frozen := false, pending := false } else c

/-- Thawing brings a change to light. -/
def isDue (c : Controller α) : Bool := c.frozen && c.pending

/-- Asks for a solve, which would end as `outcome`, unless it is known how a solve of the present inputs
    ends. -/
def ensure (c : Controller α) (outcome : Except (CurveError α) Unit) :
    Except (CurveError α) Unit × Controller α :=
  match c.verdict? with
  | some verdict => (verdict, c)
  | none => (outcome, c.settle outcome)

end Controller

end TermStructure
