import TermStructure.Decimal.Numeral

/-!
# TOML values and the tables they are collected in

A document is read statement by statement into tables. A table can come about by its header, by a
header of one of its subtables, or by a dotted key, and these decide how it may grow: a header opens a
table once, and dotted keys only extend tables that dotted keys have made.
-/

namespace TermStructure.Toml

/-- A TOML value. Dates and times are told apart from other values but not from each other. -/
inductive Value where
  | string (s : String)
  | integer (n : Int)
  | float (x : Float)
  | boolean (b : Bool)
  | moment
  | array (items : List Value)
  | table (entries : List (String × Value))
deriving Inhabited

/-- An entry of a table that is being collected. -/
inductive Entry where
  | value (v : Value)
  /-- A table, opened by its own header or not, made by a dotted key or not. -/
  | table (opened dotted : Bool) (entries : List (String × Entry))
  /-- An array of tables, each opened by a header of its own. -/
  | tables (items : List (List (String × Entry)))

/-- The entries of a table that is being collected, in order. -/
abbrev Entries := List (String × Entry)

mutual

def Entry.finish : Entry → Value
  | .value v => v
  | .table _ _ entries => .table (finishEntries entries)
  | .tables items => .array (finishTables items)

def finishEntries : List (String × Entry) → List (String × Value)
  | [] => []
  | (key, entry) :: rest => (key, entry.finish) :: finishEntries rest

def finishTables : List (List (String × Entry)) → List Value
  | [] => []
  | entries :: rest => .table (finishEntries entries) :: finishTables rest

end

namespace Entries

/-- Puts an entry in the place of the one with the same key. -/
def replace (key : String) (entry : Entry) (entries : Entries) : Entries :=
  entries.map fun (k, e) => if k == key then (k, entry) else (k, e)

/-- Changes the table that a path leads to; tables on the way are made as needed. The change is told
    whether a dotted key made that table, as `dotted` says for a path without keys. -/
def modify (byDots : Bool) (change : (dotted : Bool) → Entries → Option Entries) :
    (path : List String) → (dotted : Bool) → Entries → Option Entries
  | [], dotted, entries => change dotted entries
  | key :: path, _, entries =>
    match entries.lookup key with
    | none =>
      (modify byDots change path byDots []).map fun inner => entries ++ [(key, .table false byDots inner)]
    | some (.value _) => none
    | some (.table opened dotted inner) =>
      if byDots && opened then none
      else (modify byDots change path dotted inner).map fun inner =>
        replace key (.table opened dotted inner) entries
    | some (.tables items) =>
      match items.getLast? with
      | none => none
      | some inner => (modify byDots change path false inner).map fun inner =>
        replace key (.tables (items.dropLast ++ [inner])) entries

/-- Adds a value under a key that may be dotted; nothing is there yet. -/
def insert (path : List String) (key : String) (v : Value) (entries : Entries) : Option Entries :=
  modify true (fun dotted inner =>
    if dotted == path.isEmpty || (inner.lookup key).isSome then none
    else some (inner ++ [(key, .value v)])) path false entries

def openTable (path : List String) (key : String) (entries : Entries) : Option Entries :=
  modify false (fun _ inner =>
    match inner.lookup key with
    | none => some (inner ++ [(key, .table true false [])])
    | some (.table false false sub) => some (replace key (.table true false sub) inner)
    | some _ => none) path false entries

/-- Opens the next table of an array of tables. -/
def openItem (path : List String) (key : String) (entries : Entries) : Option Entries :=
  modify false (fun _ inner =>
    match inner.lookup key with
    | none => some (inner ++ [(key, .tables [[]])])
    | some (.tables items) => some (replace key (.tables (items ++ [[]])) inner)
    | some _ => none) path false entries

end Entries

end TermStructure.Toml
