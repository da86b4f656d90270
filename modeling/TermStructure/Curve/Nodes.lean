import TermStructure.Curve.Kind

/-!
# Node stores

The times and values of the nodes of a curve. Node zero is the anchor at time zero, and the nodes
after it belong to the instruments in the order of their pillars.
-/

namespace TermStructure

/-- A node. -/
structure Node (α : Type) where
  time : α
  value : α
deriving Repr

/-- The times of the nodes and their values. -/
structure NodeStore (α : Type) where
  times : List α
  values : List α
deriving Repr

namespace NodeStore

variable {α : Type}

def size (s : NodeStore α) : Nat := s.times.length

def isEmpty (s : NodeStore α) : Bool := s.times.isEmpty

def isAnchorOnly (s : NodeStore α) : Bool := s.size == 1

def node? (s : NodeStore α) (i : Nat) : Option (Node α) :=
  match s.times[i]?, s.values[i]? with
  | some time, some value => some ⟨time, value⟩
  | _, _ => none

def nodes (s : NodeStore α) : List (Node α) := List.zipWith Node.mk s.times s.values

variable [Scalar α]

def anchor (kind : CurveKind) : NodeStore α := ⟨[0], [kind.anchorValue]⟩

/-- The first time that is not later than the one before it. -/
def firstRepeat? : List α → Option α
  | t :: u :: rest => if u ≤ t then some u else firstRepeat? (u :: rest)
  | _ => none

/-- The store of a solution: as many values as times, the first time zero, and later times later. -/
def ofSolution (times values : List α) : Except (CurveError α) (NodeStore α) :=
  if times.length ≠ values.length ∨ times = [] then
    .error (.invalidConfig (.nodeCounts times.length values.length))
  else if times.headD 0 != 0 then .error (.invalidConfig .firstNode)
  else
    match firstRepeat? times with
    | some t => .error (.duplicatePillar t)
    | none => .ok ⟨times, values⟩

def maxTime (s : NodeStore α) : α := s.times.getLastD 0

end NodeStore

end TermStructure
