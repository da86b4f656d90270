import TermStructure.Binary64
import TermStructure.Curve.Nodes
import TermStructure.Json.Reader

/-!
# Node stores as data

A store is written as an object with its times and its values, and a list of nodes as a list of
objects. A store is read from such an object or from a list of the two; its nodes are not checked.
-/

namespace TermStructure.NodeStore

def numbersJson (xs : List Float) : Json := .array (xs.map Json.ofFloat)

def json (s : NodeStore Float) : Json :=
  .object [("times", numbersJson s.times), ("values", numbersJson s.values)]

def nodesJson (s : NodeStore Float) : Json :=
  .array (s.nodes.map fun n => .object [("time", .ofFloat n.time), ("value", .ofFloat n.value)])

def readNumbers? (j : Json) : Option (List Float) := do (← j.toItems?).mapM (·.toFloat?)

def onlyMember? (name : String) (members : List (String × Json)) : Option Json :=
  match members.filter (·.1 == name) with
  | [(_, j)] => some j
  | _ => none

def ofJson? (s : String) : Option (NodeStore Float) := do
  match ← Json.read? s with
  | .object members =>
    return ⟨← readNumbers? (← onlyMember? "times" members), ← readNumbers? (← onlyMember? "values" members)⟩
  | .array [times, values] => return ⟨← readNumbers? times, ← readNumbers? values⟩
  | _ => none

end TermStructure.NodeStore
