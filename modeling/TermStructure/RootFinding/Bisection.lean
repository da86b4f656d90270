import TermStructure.RootFinding.Search

/-!
# Bisection

The search interval is halved until the residual is small or the interval has shrunk to the
resolution of its numbers. The guess is not used, so the ends of the interval have to show a change
of sign.
-/

namespace TermStructure.Bisection

variable {α : Type} [Scalar α]

/-- The interval is too short to be halved any further. -/
def collapsed (low high middle : α) : Bool :=
  decide (high - low ≤ 4.0 * Scalar.epsilon * Scalar.larger (Scalar.abs middle) Scalar.minPositive)

/-- Halves the interval; `left` evaluations of `limit` are left, and the residuals at the ends of the
    search interval are told if they run out. -/
def halve (limit : Nat) (tolerance atLower atUpper : α) :
    (left iterations : Nat) → (low high : α) → Search α
  | 0, _, _, _ =>
    .done (.error (.convergenceFailed limit (Scalar.smaller (Scalar.abs atLower) (Scalar.abs atUpper))))
  | left + 1, iterations, low, high =>
    let middle := 0.5 * (low + high)
    .evaluate middle fun y =>
      if Scalar.abs y ≤ tolerance ∨ collapsed low high middle then
        .done (.ok ⟨middle, iterations + 1, y, limit - left⟩)
      else if decide (y < 0) == decide (atLower < 0) then
        halve limit tolerance atLower atUpper left (iterations + 1) middle high
      else halve limit tolerance atLower atUpper left (iterations + 1) low middle

def search (_guess : α) (within : Bracket α) (settings : SolverSettings α) : Search α :=
  let limit := settings.limit
  let tolerance := settings.tolerance
  let a := within.lower
  let b := within.upper
  .evaluate a fun fa => .evaluate b fun fb =>
    if Scalar.abs fa ≤ tolerance then .done (.ok ⟨a, 0, fa, 2⟩)
    else if Scalar.abs fb ≤ tolerance then .done (.ok ⟨b, 0, fb, 2⟩)
    else if fa * fb > 0 then .done (.error (.invalidBracket a b fa fb))
    else halve limit tolerance fa fb (limit - 2) 0 a b

def finder : RootFinder α where
  name := "Bisection"
  search := search

end TermStructure.Bisection
