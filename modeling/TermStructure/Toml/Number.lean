import TermStructure.Calendar.Date
import TermStructure.Toml.Basic

/-!
# TOML numbers, dates and times

Digits may be parted by single underscores. Whole numbers have 64 bits, and a float that would be
positive infinity is refused. Dates have to exist in the calendar.
-/

namespace TermStructure.Toml.Reader

open Decimal (isDigit ofDigits Numeral)

/-- Reads digits with single underscores between them; the underscores are left out. -/
def digitRun (allowed : Char → Bool) : List Char → Option (List Char × List Char)
  | [] => none
  | c :: '_' :: more =>
    if allowed c then (digitRun allowed more).map fun (ds, rest) => (c :: ds, rest) else none
  | c :: rest =>
    if allowed c then
      match digitRun allowed rest with
      | some (ds, rest) => some (c :: ds, rest)
      | none => some ([c], rest)
    else none

def sign : List Char → Option Char × List Char
  | '-' :: rest => (some '-', rest)
  | '+' :: rest => (some '+', rest)
  | rest => (none, rest)

/-- Reads the digits of a whole number; a zero stands alone. -/
def wholeDigits : List Char → Option (List Char × List Char)
  | '0' :: rest => some (['0'], rest)
  | cs => digitRun isDigit cs

def exponent : List Char → Option (Option Int × List Char)
  | c :: rest =>
    if c == 'e' || c == 'E' then
      let (s, rest) := sign rest
      (digitRun isDigit rest).map fun (ds, rest) =>
        (some (if s == some '-' then -(ofDigits ds : Int) else ofDigits ds), rest)
    else some (none, c :: rest)
  | [] => some (none, [])

/-- The whole number, if 64 bits hold it. -/
def integer? (n : Int) : Option Value :=
  if -9223372036854775808 ≤ n ∧ n < 9223372036854775808 then some (.integer n) else none

/-- The float, unless it is too large; one that is too far below zero is negative infinity. -/
def float? (n : Numeral) : Option Value :=
  if n.toFloat == 1.0 / 0.0 then none else some (.float n.toFloat)

def decimal (cs : List Char) : Option (Value × List Char) := do
  let (s, cs) := sign cs
  let negative := s == some '-'
  match cs with
  | 'i' :: 'n' :: 'f' :: rest => return (.float (if negative then -(1.0 / 0.0) else 1.0 / 0.0), rest)
  | 'n' :: 'a' :: 'n' :: rest => return (.float (0.0 / 0.0), rest)
  | _ =>
    let (w, cs) ← wholeDigits cs
    match cs with
    | '.' :: rest =>
      let (f, cs) ← digitRun isDigit rest
      let (e, cs) ← exponent cs
      return (← float? ⟨negative, w, f, e.getD 0, false⟩, cs)
    | _ =>
      match ← exponent cs with
      | (some e, cs) => return (← float? ⟨negative, w, [], e, false⟩, cs)
      | (none, cs) => return (← integer? (if negative then -(ofDigits w : Int) else ofDigits w), cs)

/-- The value of a digit, of any base up to sixteen. -/
def digitValue (c : Char) : Nat :=
  if isDigit c then c.toNat - 48 else if c.toNat ≥ 97 then c.toNat - 87 else c.toNat - 55

/-- Reads the digits of a number in another base. -/
def inBase (base : Nat) (cs : List Char) : Option (Value × List Char) := do
  let allowed (c : Char) : Bool :=
    (isDigit c || ('a' ≤ c && c ≤ 'f') || ('A' ≤ c && c ≤ 'F')) && decide (digitValue c < base)
  let (ds, cs) ← digitRun allowed cs
  return (← integer? (ds.foldl (fun n c => base * n + digitValue c) 0 : Nat), cs)

def fixedDigits (width : Nat) (cs : List Char) : Option (Nat × List Char) :=
  let ds := (cs.take width).takeWhile isDigit
  if ds.length = width then some (ofDigits ds, cs.drop width) else none

def expect (c : Char) : List Char → Option (List Char)
  | d :: rest => if d == c then some rest else none
  | [] => none

def hoursAndMinutes (cs : List Char) : Option (List Char) := do
  let (hours, cs) ← fixedDigits 2 cs
  let cs ← expect ':' cs
  let (minutes, cs) ← fixedDigits 2 cs
  if hours ≤ 23 ∧ minutes ≤ 59 then some cs else none

/-- Reads a time of day, with a fraction of a second if one stands here. -/
def timeOfDay (cs : List Char) : Option (List Char) := do
  let cs ← hoursAndMinutes cs
  let cs ← expect ':' cs
  let (seconds, cs) ← fixedDigits 2 cs
  if seconds > 60 then none
  else
    match cs with
    | '.' :: rest =>
      let ds := rest.takeWhile isDigit
      return if ds.isEmpty then cs else rest.drop ds.length
    | _ => return cs

/-- Reads an offset from universal time, if one stands here. -/
def offset (cs : List Char) : List Char :=
  match cs with
  | 'Z' :: rest => rest
  | 'z' :: rest => rest
  | '+' :: rest => (hoursAndMinutes rest).getD cs
  | '-' :: rest => (hoursAndMinutes rest).getD cs
  | _ => cs

def date (cs : List Char) : Option (List Char) := do
  let (year, cs) ← fixedDigits 4 cs
  let cs ← expect '-' cs
  let (month, cs) ← fixedDigits 2 cs
  let cs ← expect '-' cs
  let (day, cs) ← fixedDigits 2 cs
  if IsDay year month day then some cs else none

def moment (cs : List Char) : Option (Value × List Char) :=
  match date cs with
  | some rest =>
    match rest with
    | c :: more =>
      if c == 'T' || c == 't' || c == ' ' then
        match timeOfDay more with
        | some rest => some (.moment, offset rest)
        | none => some (.moment, rest)
      else some (.moment, rest)
    | [] => some (.moment, rest)
  | none => (timeOfDay cs).map fun rest => (.moment, rest)

def number (cs : List Char) : Option (Value × List Char) :=
  match moment cs with
  | some r => some r
  | none =>
    match cs with
    | '0' :: 'x' :: rest => inBase 16 rest
    | '0' :: 'o' :: rest => inBase 8 rest
    | '0' :: 'b' :: rest => inBase 2 rest
    | _ => decimal cs

end TermStructure.Toml.Reader
