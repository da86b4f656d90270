import TermStructure.Json.Basic

/-!
# Reading JSON

A reader of JSON texts that takes nothing but the grammar: no comments, no comma at an end, no leading
zero, no bare control character. Each function returns what it read and the characters left.
-/

namespace TermStructure.Json.Reader

open Decimal (isDigit ofDigits Numeral)

/-- A blank between tokens. -/
def isBlank (c : Char) : Bool := c == ' ' || c == '\n' || c == '\r' || c == '\t'

def skipBlanks (cs : List Char) : List Char := cs.dropWhile isBlank

def digits1 (cs : List Char) : Option (List Char × List Char) :=
  let ds := cs.takeWhile isDigit
  if ds.isEmpty then none else some (ds, cs.dropWhile isDigit)

/-- Reads the digits before the point; a zero stands alone. -/
def whole (cs : List Char) : Option (List Char × List Char) :=
  match digits1 cs with
  | some ('0' :: _ :: _, _) => none
  | r => r

/-- Reads a point and digits, if a point stands here. -/
def fraction (cs : List Char) : Option (List Char × List Char) :=
  match cs with
  | '.' :: rest => digits1 rest
  | _ => some ([], cs)

def sign : List Char → Bool × List Char
  | '-' :: rest => (true, rest)
  | '+' :: rest => (false, rest)
  | rest => (false, rest)

def exponent (cs : List Char) : Option (Option Int × List Char) :=
  match cs with
  | c :: rest =>
    if c == 'e' || c == 'E' then
      let (negative, rest) := sign rest
      (digits1 rest).map fun (ds, rest) =>
        (some (if negative then -(ofDigits ds : Int) else ofDigits ds), rest)
    else some (none, cs)
  | [] => some (none, [])

/-- Reads a number. A negative zero is never an integer. -/
def numeral (cs : List Char) : Option (Numeral × List Char) := do
  let (negative, cs) :=
    match cs with
    | '-' :: rest => (true, rest)
    | _ => (false, cs)
  let (w, cs) ← whole cs
  let (f, cs) ← fraction cs
  let (e, cs) ← exponent cs
  let isWhole := f.isEmpty && e.isNone && !(negative && ofDigits w == 0)
  return (⟨negative, w, f, e.getD 0, isWhole⟩, cs)

def hexValue? (c : Char) : Option Nat :=
  if isDigit c then some (c.toNat - 48)
  else if 'a' ≤ c && c ≤ 'f' then some (c.toNat - 87)
  else if 'A' ≤ c && c ≤ 'F' then some (c.toNat - 55)
  else none

def hex4 : List Char → Option (Nat × List Char)
  | a :: b :: c :: d :: rest => do
    let a ← hexValue? a
    let b ← hexValue? b
    let c ← hexValue? c
    let d ← hexValue? d
    return (4096 * a + 256 * b + 16 * c + d, rest)
  | _ => none

/-- The character that a single-letter escape stands for. -/
def escaped? : Char → Option Char
  | '"' => some '"'
  | '\\' => some '\\'
  | '/' => some '/'
  | 'b' => some '\x08'
  | 'f' => some '\x0c'
  | 'n' => some '\n'
  | 'r' => some '\r'
  | 't' => some '\t'
  | _ => none

/-- Reads the digits of an escaped code point; two halves of a surrogate pair make one character. The
    character is missing if a half stands alone. -/
def escapedPoint (cs : List Char) : Option (Option Char × List Char) := do
  let (high, rest) ← hex4 cs
  if 0xD800 ≤ high ∧ high < 0xDC00 then
    match rest with
    | '\\' :: 'u' :: more =>
      let (low, after) ← hex4 more
      if 0xDC00 ≤ low ∧ low < 0xE000 then
        return (some (Char.ofNat (0x10000 + (high - 0xD800) * 1024 + (low - 0xDC00))), after)
      else return (none, rest)
    | _ => return (none, rest)
  else if 0xDC00 ≤ high ∧ high < 0xE000 then return (none, rest)
  else return (some (Char.ofNat high), rest)

/-- Reads the rest of a text up to its closing quote. The characters read so far are in reverse, and
    there are none left to tell once half of a surrogate pair has been met. -/
def textEnd : (fuel : Nat) → Option (List Char) → List Char → Option (Option String × List Char)
  | _, _, [] => none
  | 0, _, _ => none
  | fuel + 1, seen, c :: rest =>
    if c == '"' then some (seen.map fun cs => String.ofList cs.reverse, rest)
    else if c == '\\' then
      match rest with
      | 'u' :: more =>
        match escapedPoint more with
        | some (some c, after) => textEnd fuel (seen.map (c :: ·)) after
        | some (none, after) => textEnd fuel none after
        | none => none
      | e :: after =>
        match escaped? e with
        | some c => textEnd fuel (seen.map (c :: ·)) after
        | none => none
      | [] => none
    else if c.toNat < 32 then none
    else textEnd fuel (seen.map (c :: ·)) rest

def word (w : List Char) (cs : List Char) : Option (List Char) :=
  if w.isPrefixOf cs then some (cs.drop w.length) else none

mutual

def value : (fuel : Nat) → List Char → Option (Json × List Char)
  | 0, _ => none
  | fuel + 1, cs =>
    match skipBlanks cs with
    | [] => none
    | '\x7b' :: rest =>
      match skipBlanks rest with
      | '\x7d' :: rest => some (.object [], rest)
      | _ => (members fuel rest).map fun (ms, rest) =>
        (match ms with
          | some ms => .object ms
          | none => .unpaired, rest)
    | '[' :: rest =>
      match skipBlanks rest with
      | ']' :: rest => some (.array [], rest)
      | _ => (items fuel rest).map fun (js, rest) => (.array js, rest)
    | '"' :: rest =>
      (textEnd rest.length (some []) rest).map fun (s, rest) =>
        (match s with
          | some s => .string s
          | none => .unpaired, rest)
    | c :: rest =>
      if c == 't' then (word ['r', 'u', 'e'] rest).map fun rest => (.bool true, rest)
      else if c == 'f' then (word ['a', 'l', 's', 'e'] rest).map fun rest => (.bool false, rest)
      else if c == 'n' then (word ['u', 'l', 'l'] rest).map fun rest => (.null, rest)
      else (numeral (c :: rest)).map fun (n, rest) => (.number n, rest)

def items : (fuel : Nat) → List Char → Option (List Json × List Char)
  | 0, _ => none
  | fuel + 1, cs =>
    match value fuel cs with
    | none => none
    | some (j, rest) =>
      match skipBlanks rest with
      | ',' :: rest => (items fuel rest).map fun (js, rest) => (j :: js, rest)
      | ']' :: rest => some ([j], rest)
      | _ => none

/-- Reads the members of an object and its closing brace. There are none to tell if a name holds half of
    a surrogate pair. -/
def members : (fuel : Nat) → List Char → Option (Option (List (String × Json)) × List Char)
  | 0, _ => none
  | fuel + 1, cs =>
    match skipBlanks cs with
    | '"' :: rest =>
      match textEnd rest.length (some []) rest with
      | some (name, rest) =>
        match skipBlanks rest with
        | ':' :: rest =>
          match value fuel rest with
          | none => none
          | some (j, rest) =>
            match skipBlanks rest with
            | ',' :: rest => (members fuel rest).map fun (ms, rest) =>
              (do return (← name, j) :: (← ms), rest)
            | '\x7d' :: rest => some (name.map fun name => [(name, j)], rest)
            | _ => none
        | _ => none
      | _ => none
    | _ => none

end

end Reader

def read? (s : String) : Option Json :=
  let cs := s.toList
  match Reader.value (2 * cs.length + 2) cs with
  | some (j, rest) => if (Reader.skipBlanks rest).isEmpty then some j else none
  | none => none

end TermStructure.Json
