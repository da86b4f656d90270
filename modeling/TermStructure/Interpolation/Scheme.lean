import TermStructure.Interpolation.BackwardFlat
import TermStructure.Interpolation.CubicSpline
import TermStructure.Interpolation.Linear
import TermStructure.Interpolation.LogLinear

/-!
# Interpolation schemes

A scheme builds an interpolant over nodes. Four methods come with the library; any other scheme can
be used in their place.
-/

namespace TermStructure

/-- A way to build interpolants. -/
structure Scheme (α : Type) where
  name : String
  /-- The fewest nodes the scheme takes. -/
  minPoints : Nat := 2
  /-- One node moves the curve beyond its neighbours. -/
  isGlobal : Bool := false
  build : List α → List α → Except (NumericError α) (Interpolant α)

/-- The methods of the library. -/
inductive Method where
  | linear
  | logLinear
  | backwardFlat
  | cubicSpline
deriving DecidableEq, Repr

namespace Method

instance : Inhabited Method := ⟨logLinear⟩

def all : List Method := [linear, logLinear, backwardFlat, cubicSpline]

def identifier : Method → String
  | linear => "Linear"
  | logLinear => "LogLinear"
  | backwardFlat => "BackwardFlat"
  | cubicSpline => "CubicSpline"

def ofIdentifier? (s : String) : Option Method := all.find? (·.identifier == s)

def title : Method → String
  | linear => "Linear"
  | logLinear => "Log-Linear"
  | backwardFlat => "Backward-Flat"
  | cubicSpline => "Cubic Spline"

variable {α : Type} [Scalar α]

def build : Method → List α → List α → Except (NumericError α) (Interpolant α)
  | linear => Linear.build
  | logLinear => LogLinear.build
  | backwardFlat => BackwardFlat.build
  | cubicSpline => CubicSpline.build

/-- A method as a scheme; only the spline is global. -/
def scheme (m : Method) : Scheme α where
  name := m.identifier
  isGlobal := m == cubicSpline
  build := m.build

end Method

end TermStructure
