import TermStructure.Toml.Number
import TermStructure.Toml.Text

/-!
# Reading TOML

A document is a sequence of lines: blank ones, headers, and keys with values. A value may go over
several lines if it is an array or a long text. Values nest at most `depthLimit - 1` deep.
-/

namespace TermStructure.Toml

namespace Reader

/-- The depth at which nested values are refused. -/
def depthLimit : Nat := 80

def comment : List Char → List Char
  | '#' :: rest => rest.dropWhile isLineChar
  | cs => cs

/-- Reads the rest of a line that holds nothing more than blanks and a comment. -/
def lineEnd (cs : List Char) : Option (List Char) :=
  match comment (skipSpaces cs) with
  | [] => some []
  | cs => newline? cs

def skipLines : (fuel : Nat) → List Char → List Char
  | 0, cs => cs
  | fuel + 1, cs =>
    let cs := skipSpaces cs
    match newline? (comment cs) with
    | some rest => skipLines fuel rest
    | none => cs

/-- Reads the items of an array and its closing bracket, each item by `value`. -/
def items (value : List Char → Option (Value × List Char)) :
    (fuel : Nat) → List Char → Option (List Value × List Char)
  | 0, _ => none
  | fuel + 1, cs =>
    match skipLines cs.length cs with
    | ']' :: rest => some ([], rest)
    | cs => do
      let (v, cs) ← value cs
      match skipLines cs.length cs with
      | ',' :: rest =>
        let (vs, cs) ← items value fuel rest
        return (v :: vs, cs)
      | ']' :: rest => return ([v], rest)
      | _ => none

def pair (value : List Char → Option (Value × List Char)) (cs : List Char) :
    Option ((List String × Value) × List Char) := do
  let (path, cs) ← key (cs.length + 1) cs
  if path.length ≥ depthLimit then none
  else
    let cs ← expect '=' cs
    let (v, cs) ← value (skipSpaces cs)
    return ((path, v), cs)

def addPair (path : List String) (v : Value) (entries : Entries) : Option Entries := do
  let last ← path.getLast?
  Entries.insert path.dropLast last v entries

/-- Reads the pairs of an inline table and its closing brace, after the first pair or none. -/
def inlinePairs (value : List Char → Option (Value × List Char)) :
    (fuel : Nat) → Entries → List Char → Option (Entries × List Char)
  | 0, _, _ => none
  | fuel + 1, entries, cs => do
    let ((path, v), cs) ← pair value cs
    let entries ← addPair path v entries
    match skipSpaces cs with
    | ',' :: rest => inlinePairs value fuel entries rest
    | '\x7d' :: rest => return (entries, rest)
    | _ => none

/-- Reads a value; `depth` more levels of nesting are allowed. -/
def value : (depth : Nat) → List Char → Option (Value × List Char)
  | depth, cs =>
    match cs with
    | '"' :: _ | '\'' :: _ => (text cs).map fun (s, rest) => (.string s, rest)
    | '[' :: rest =>
      match depth with
      | 0 => none
      | depth + 1 => (items (value depth) (rest.length + 1) rest).map fun (vs, rest) => (.array vs, rest)
    | '\x7b' :: rest =>
      match depth with
      | 0 => none
      | depth + 1 =>
        match skipSpaces rest with
        | '\x7d' :: rest => some (.table [], rest)
        | _ => (inlinePairs (value depth) (rest.length + 1) [] rest).map fun (entries, rest) =>
          (.table (finishEntries entries), rest)
    | 't' :: 'r' :: 'u' :: 'e' :: rest => some (.boolean true, rest)
    | 'f' :: 'a' :: 'l' :: 's' :: 'e' :: rest => some (.boolean false, rest)
    | _ => number cs

/-- A line that says something. -/
inductive Statement where
  | header (path : List String)
  | itemHeader (path : List String)
  | pair (path : List String) (v : Value)

/-- Reads the keys of a header up to its end. -/
def headerPath (finish : List Char) (cs : List Char) : Option (List String × List Char) := do
  let (path, cs) ← key (cs.length + 1) cs
  if path.length ≥ depthLimit then none
  else if finish.isPrefixOf cs then some (path, cs.drop finish.length) else none

def statement (cs : List Char) : Option (Statement × List Char) := do
  let (s, cs) ←
    match cs with
    | '[' :: '[' :: rest => (headerPath [']', ']'] rest).map fun (p, rest) => (Statement.itemHeader p, rest)
    | '[' :: rest => (headerPath [']'] rest).map fun (p, rest) => (Statement.header p, rest)
    | _ => (pair (value (depthLimit - 1)) cs).map fun ((p, v), rest) => (Statement.pair p v, rest)
  let cs ← lineEnd cs
  return (s, cs)

/-- Reads all statements, and nothing else but blank lines and comments. -/
def statements : (fuel : Nat) → List Char → Option (List Statement)
  | 0, _ => none
  | fuel + 1, cs =>
    match skipSpaces cs with
    | [] => some []
    | cs =>
      match lineEnd cs with
      | some rest => statements fuel rest
      | none => do
        let (s, rest) ← statement cs
        return s :: (← statements fuel rest)

/-- Collects a statement; pairs go to the table `current` leads to. -/
def collect (entries : Entries) (current : List String) : Statement → Option (Entries × List String)
  | .header path => do
    let last ← path.getLast?
    return (← Entries.openTable path.dropLast last entries, path)
  | .itemHeader path => do
    let last ← path.getLast?
    return (← Entries.openItem path.dropLast last entries, path)
  | .pair path v => do
    return (← Entries.modify false (fun _ inner => addPair path v inner) current false entries, current)

def collectAll (entries : Entries) (current : List String) : List Statement → Option Entries
  | [] => some entries
  | s :: rest => do
    let (entries, current) ← collect entries current s
    collectAll entries current rest

end Reader

/-- Reads a document into its root table; a byte order mark in front is passed over. -/
def read? (s : String) : Option (List (String × Value)) := do
  let cs :=
    match s.toList with
    | '\uFEFF' :: rest => rest
    | cs => cs
  let entries ← Reader.collectAll [] [] (← Reader.statements (cs.length + 1) cs)
  return finishEntries entries

end TermStructure.Toml
