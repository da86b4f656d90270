import TermStructure.RootFinding.Search

/-!
# Brent's method

The search starts at the guess and a point one step aside, and grows the interval between the two,
at the end with the smaller residual, until the signs differ at its ends. From there Brent's method
narrows the interval: by interpolation as long as that converges fast enough, by halving otherwise.
Each function below spends one evaluation of a budget, so the search ends. A point that would lie outside
the interval to search is moved into it, which takes an interval with its ends in order.
-/

namespace TermStructure

/-- The parameters of the outward search: how much the interval grows, as a multiple of its length,
    and the first step as a share of the search interval. -/
structure Brent (α : Type) where
  growth : α
  stepFraction : α
deriving Repr

instance {α : Type} [Scalar α] : Inhabited (Brent α) := ⟨⟨1.6, 0.01⟩⟩

namespace Brent

variable {α : Type} [Scalar α]

/-- The narrowing interval: `b` is the best point so far, `a` the one before it, and `c` the end at
    which the sign differs; `d` is the last step and `e` the one before it. -/
structure State (α : Type) where
  a : α
  fa : α
  b : α
  fb : α
  c : α
  fc : α
  d : α
  e : α
  iterations : Nat
deriving Repr

namespace State

/-- The state at the start, for an interval with a change of sign. -/
def start (a fa b fb : α) : State α := ⟨a, fa, b, fb, b, fb, b - a, b - a, 0⟩

/-- Puts the end `a` in the place of `c` if the sign at `c` is that at `b`. -/
def oppose (s : State α) : State α :=
  if (s.fb > 0 ∧ s.fc > 0) ∨ (s.fb < 0 ∧ s.fc < 0) then
    { s with c := s.a, fc := s.fa, d := s.b - s.a, e := s.b - s.a }
  else s

/-- Makes `b` the end with the smaller residual. -/
def orient (s : State α) : State α :=
  if Scalar.abs s.fc < Scalar.abs s.fb then
    { s with a := s.b, fa := s.fb, b := s.c, fb := s.fc, c := s.b, fc := s.fb }
  else s

/-- The shortest step that makes a difference at `b`. -/
def resolution (s : State α) : α := 2.0 * Scalar.epsilon * Scalar.abs s.b + Scalar.minPositive

def halfway (s : State α) : α := 0.5 * (s.c - s.b)

/-- The interpolated step as a fraction: by a secant if only two points differ, otherwise by inverse
    quadratic interpolation. -/
def interpolated (s : State α) : α × α :=
  let r := s.fb / s.fa
  if s.a == s.c then (2.0 * s.halfway * r, 1 - r)
  else
    let q := s.fa / s.fc
    let t := s.fb / s.fc
    (r * (2.0 * s.halfway * q * (q - t) - (s.b - s.a) * (t - 1)), (q - 1) * (t - 1) * (r - 1))

/-- Chooses the next step: the interpolated one if it stays well inside the interval and shrinks fast
    enough, otherwise the one to the middle. -/
def choose (s : State α) : State α :=
  let halve := { s with d := s.halfway, e := s.halfway }
  if Scalar.abs s.e ≥ s.resolution ∧ Scalar.abs s.fa > Scalar.abs s.fb then
    let (p, q) := s.interpolated
    let q := if p > 0 then -q else q
    let p := Scalar.abs p
    let inside := 3.0 * s.halfway * q - Scalar.abs (s.resolution * q)
    let shrinking := Scalar.abs (s.e * q)
    if 2.0 * p < Scalar.smaller inside shrinking then { s with e := s.d, d := p / q } else halve
  else halve

/-- The next point: a step from `b`, no shorter than the resolution. -/
def target (s : State α) : α :=
  s.b + if Scalar.abs s.d > s.resolution then s.d else Scalar.withSignOf s.resolution s.halfway

/-- Moves on to the point `x` with the residual `y`. -/
def advance (s : State α) (x y : α) : State α :=
  { s with a := s.b, fa := s.fb, b := x, fb := y, iterations := s.iterations + 1 }

end State

/-- Narrows an interval with a change of sign; `left` evaluations of `limit` are left. -/
def narrow (limit : Nat) (tolerance : α) : (left : Nat) → State α → Search α
  | left, s =>
    let s := s.oppose.orient
    if Scalar.abs s.fb ≤ tolerance ∨ Scalar.abs s.halfway ≤ s.resolution then
      .done (.ok ⟨s.b, s.iterations, s.fb, limit - left⟩)
    else
      match left with
      | 0 => .done (.error (.convergenceFailed limit (Scalar.abs s.fb)))
      | left + 1 =>
        let s := s.choose
        .evaluate s.target fun y => narrow limit tolerance left (s.advance s.target y)

/-- The lower end is the one to move: not if it is at its limit, always if the other one is, and
    otherwise if its residual is smaller. -/
def expandsLower (within : Bracket α) (a fa b fb : α) : Bool :=
  if a ≤ within.lower then false
  else if b ≥ within.upper then true
  else decide (Scalar.abs fa < Scalar.abs fb)

/-- Grows the interval from `a` to `b` until the signs differ; `left` evaluations are left. -/
def expand (p : Brent α) (within : Bracket α) (limit : Nat) (tolerance : α) :
    (left : Nat) → (a fa b fb : α) → Search α
  | left, a, fa, b, fb =>
    if Scalar.abs fa ≤ tolerance then .done (.ok ⟨a, 0, fa, limit - left⟩)
    else if Scalar.abs fb ≤ tolerance then .done (.ok ⟨b, 0, fb, limit - left⟩)
    else if fa * fb < 0 then narrow limit tolerance left (.start a fa b fb)
    else if a ≤ within.lower ∧ b ≥ within.upper then .done (.error (.invalidBracket a b fa fb))
    else
      match left with
      | 0 =>
        .done (.error (.convergenceFailed limit (Scalar.smaller (Scalar.abs fa) (Scalar.abs fb))))
      | left + 1 =>
        if expandsLower within a fa b fb then
          .reach within (within.clamp? (a + p.growth * (a - b))) fun a =>
            .evaluate a fun fa => p.expand within limit tolerance left a fa b fb
        else
          .reach within (within.clamp? (b + p.growth * (b - a))) fun b =>
            .evaluate b fun fb => p.expand within limit tolerance left a fa b fb

/-- Where the search starts: at the guess, moved into the interval, or in the middle if there is no finite guess. -/
def origin? (within : Bracket α) (guess : α) : Option α :=
  if Scalar.isFinite guess then within.clamp? guess else some within.midpoint

/-- The first step aside. -/
def step (p : Brent α) (within : Bracket α) : α :=
  Scalar.larger (within.width * p.stepFraction) Scalar.epsilon

/-- The whole search. The step aside is downward, or upward if that would leave the interval. -/
def search (p : Brent α) (guess : α) (within : Bracket α) (settings : SolverSettings α) : Search α :=
  let limit := settings.limit
  let tolerance := settings.tolerance
  let step := p.step within
  .reach within (origin? within guess) fun x =>
    .evaluate x fun fx =>
      if Scalar.abs fx ≤ tolerance then .done (.ok ⟨x, 0, fx, 1⟩)
      else if x - step < within.lower then
        .reach within (within.clamp? (x + step)) fun b =>
          .evaluate b fun fb => p.expand within limit tolerance (limit - 2) x fx b fb
      else
        let a := x - step
        .evaluate a fun fa => p.expand within limit tolerance (limit - 2) a fa x fx

def finder (p : Brent α) : RootFinder α where
  name := "Brent"
  search := p.search

end Brent

end TermStructure
