import Mathlib.Algebra.Order.Archimedean.Basic
import TermStructure.Proofs.RootFinding.Finders

/-!
# Outward search

From a guess the interval grows until it shows a root, a change of sign, or that there is nothing to be seen at
the ends of the interval to search. Every round moves one end: either the interval grows by a fixed factor, or the end
comes to that of the interval to search and stays there. So the outward search comes to its end within a number of
rounds that no objective can exceed.
-/

namespace TermStructure

namespace Brent

/-- How far the outward search has come: an interval, and the values at its ends. -/
structure Reach (α : Type) where
  a : α
  fa : α
  b : α
  fb : α

namespace Reach

section
variable {α : Type} [Scalar α]

/-- Nothing is left to grow into. -/
def Full (within : Bracket α) (r : Reach α) : Prop := r.a ≤ within.lower ∧ r.b ≥ within.upper

/-- The interval has ends in their order and lies in the interval to search. -/
structure Lies (within : Bracket α) (r : Reach α) : Prop where
  lower_le : within.lower ≤ r.a
  lt : r.a < r.b
  le_upper : r.b ≤ within.upper

/-- One round of the outward search. -/
def grow (p : Brent α) (within : Bracket α) (f : α → α) (r : Reach α) : Reach α :=
  if expandsLower within r.a r.fa r.b r.fb then
    let a := within.nearest (r.a + p.growth * (r.a - r.b))
    ⟨a, f a, r.b, r.fb⟩
  else
    let b := within.nearest (r.b + p.growth * (r.b - r.a))
    ⟨r.a, r.fa, b, f b⟩

/-- The interval between a point and one a step aside. -/
def first (p : Brent α) (within : Bracket α) (f : α → α) (x : α) : Reach α :=
  if x - p.step within < within.lower then
    let b := within.nearest (x + p.step within)
    ⟨x, f x, b, f b⟩
  else ⟨x - p.step within, f (x - p.step within), x, f x⟩

/-- How many ends are not yet those of the interval to search. -/
def free (within : Bracket α) (r : Reach α) : Nat :=
  (if within.lower < r.a then 1 else 0) + if r.b < within.upper then 1 else 0

end

variable {α : Type} [ScalarField α] {p : Brent α} {within : Bracket α} {f : α → α} {r : Reach α} {x : α}

theorem Full.ends (h : r.Full within) (hlies : r.Lies within) : r.a = within.lower ∧ r.b = within.upper :=
  ⟨le_antisymm h.1 hlies.lower_le, le_antisymm hlies.le_upper h.2⟩

end Reach

/-- The interval of the outward search from a guess after so many rounds. -/
def round {α : Type} [Scalar α] (p : Brent α) (within : Bracket α) (f : α → α) (guess : α) (n : Nat) : Reach α :=
  (Reach.grow p within f)^[n] (Reach.first p within f (origin within guess))

section
variable {α β : Type} [ScalarField α] {p : Brent α} {P : Problem α β} {f : α → α} {guess : α} {r : Reach α} {n : Nat}

/-- There is a value within the tolerance at an end, or a change of sign between the ends. -/
def Reach.Shows (P : Problem α β) (r : Reach α) : Prop :=
  |r.fa| ≤ P.settings.tolerance ∨ |r.fb| ≤ P.settings.tolerance ∨ r.fa * r.fb < 0

/-- The outward search may stop: there is something to be seen, or nothing left to grow into. -/
def Reach.Settled (P : Problem α β) (r : Reach α) : Prop := r.Shows P ∨ r.Full P.within

/-- What a search comes to from where the outward search ends, with `left` evaluations left. -/
inductive Reach.Leads (P : Problem α β) (left : Nat) (r : Reach α) : Except (NumericError α) (Root α) → Prop where
  | left (close : |r.fa| ≤ P.settings.tolerance) : Leads P left r (.ok ⟨r.a, 0, r.fa, P.settings.limit - left⟩)
  | right (left_beyond : P.settings.tolerance < |r.fa|) (close : |r.fb| ≤ P.settings.tolerance) :
      Leads P left r (.ok ⟨r.b, 0, r.fb, P.settings.limit - left⟩)
  | narrowed (left_beyond : P.settings.tolerance < |r.fa|) (right_beyond : P.settings.tolerance < |r.fb|)
      (sign : r.fa * r.fb < 0) : Leads P left r
        ((narrow P.settings.limit P.settings.tolerance left (.start r.a r.fa r.b r.fb)).run P.objective P.read).result
  | full (full : r.Full P.within) (left_beyond : P.settings.tolerance < |r.fa|)
      (right_beyond : P.settings.tolerance < |r.fb|) (sign : ¬r.fa * r.fb < 0) :
      Leads P left r (.error (.invalidBracket r.a r.b r.fa r.fb))
  | exhausted (none_left : left = 0) (unsettled : ¬r.Settled P) :
      Leads P left r (.error (.convergenceFailed P.settings.limit (min |r.fa| |r.fb|)))

theorem Reach.Leads.settled {left : Nat} {result : Except (NumericError α) (Root α)} (h : r.Leads P left result)
    (hleft : left ≠ 0) : r.Settled P := by
  cases h with
  | left close => exact .inl (.inl close)
  | right left_beyond close => exact .inl (.inr (.inl close))
  | narrowed left_beyond right_beyond sign => exact .inl (.inr (.inr sign))
  | full full => exact .inr full
  | exhausted none_left => exact absurd none_left hleft

variable [ExactArithmetic α]

variable {within : Bracket α}

end

end Brent

/-! ### Refusals -/

namespace Problem

section
variable {α β : Type} {P : Problem α β} {x : α} {next : α → Search α}

/-- A search does not end with the interval being refused. -/
def Accepts (P : Problem α β) (t : Search α) : Prop :=
  ∀ a b fa fb, (t.run P.objective P.read).result ≠ .error (.invalidBracket a b fa fb)

variable [Scalar α]

end

variable {α β : Type} [ScalarField α]

/-- The values at the ends of the interval to search show neither a root nor a change of sign. -/
structure Refuses (P : Problem α β) (f : α → α) (a b fa fb : α) : Prop where
  lower : a = P.within.lower
  upper : b = P.within.upper
  atLower : fa = f P.within.lower
  atUpper : fb = f P.within.upper
  lower_beyond : P.settings.tolerance < |fa|
  upper_beyond : P.settings.tolerance < |fb|
  same_sign : 0 < fa * fb

variable [ExactArithmetic α] {P : Problem α β} {f : α → α} {guess a b fa fb : α}

end Problem

end TermStructure
