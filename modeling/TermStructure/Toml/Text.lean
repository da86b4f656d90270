import TermStructure.Toml.Basic

/-!
# TOML texts and keys

Texts stand between double quotes, with escapes, or between single quotes, as they are; three quotes
let a text go over several lines. Each function returns what it read and the characters left.
-/

namespace TermStructure.Toml.Reader

open Decimal (isDigit)

/-- A character that may stand in a line: anything but control characters, the tab excepted. -/
def isLineChar (c : Char) : Bool := c == '\t' || (c.toNat ≥ 32 && c.toNat != 127)

def skipSpaces (cs : List Char) : List Char := cs.dropWhile fun c => c == ' ' || c == '\t'

def newline? : List Char → Option (List Char)
  | '\n' :: rest => some rest
  | '\r' :: '\n' :: rest => some rest
  | _ => none

def hexValue? (c : Char) : Option Nat :=
  if isDigit c then some (c.toNat - 48)
  else if 'a' ≤ c && c ≤ 'f' then some (c.toNat - 87)
  else if 'A' ≤ c && c ≤ 'F' then some (c.toNat - 55)
  else none

/-- Reads a code point of so many hexadecimal digits; halves of surrogate pairs are refused. -/
def codePoint (width : Nat) (cs : List Char) : Option (Char × List Char) := do
  let ds ← (cs.take width).mapM hexValue?
  if ds.length < width then none
  else
    let n := ds.foldl (fun n d => 16 * n + d) 0
    if n < 0xD800 ∨ (0xE000 ≤ n ∧ n < 0x110000) then some (Char.ofNat n, cs.drop width) else none

def escape : List Char → Option (Char × List Char)
  | 'b' :: rest => some ('\x08', rest)
  | 't' :: rest => some ('\t', rest)
  | 'n' :: rest => some ('\n', rest)
  | 'f' :: rest => some ('\x0c', rest)
  | 'r' :: rest => some ('\r', rest)
  | '"' :: rest => some ('"', rest)
  | '\\' :: rest => some ('\\', rest)
  | 'u' :: rest => codePoint 4 rest
  | 'U' :: rest => codePoint 8 rest
  | _ => none

/-- Reads the rest of a text between double quotes; the characters read so far are in reverse. -/
def basicEnd : (fuel : Nat) → List Char → List Char → Option (String × List Char)
  | 0, _, _ => none
  | fuel + 1, seen, cs =>
    match cs with
    | [] => none
    | '"' :: rest => some (String.ofList seen.reverse, rest)
    | '\\' :: rest =>
      match escape rest with
      | some (c, rest) => basicEnd fuel (c :: seen) rest
      | none => none
    | c :: rest => if isLineChar c then basicEnd fuel (c :: seen) rest else none

def literalEnd (cs : List Char) : Option (String × List Char) :=
  let s := cs.takeWhile fun c => isLineChar c && c != '\''
  match cs.drop s.length with
  | '\'' :: rest => some (String.ofList s, rest)
  | _ => none

/-- Skips the blanks and ends of line after a backslash that ends a line. -/
def skipFold : (fuel : Nat) → List Char → List Char
  | 0, cs => cs
  | fuel + 1, cs =>
    let cs := skipSpaces cs
    match newline? cs with
    | some rest => skipFold fuel rest
    | none => cs

/-- Reads the rest of a text between three quotes; one or two more quotes may stand before the end.
    Escapes are read if the quotes are double. -/
def longEnd (quote : Char) : (fuel : Nat) → List Char → List Char → Option (String × List Char)
  | 0, _, _ => none
  | fuel + 1, seen, cs =>
    match cs with
    | [] => none
    | c :: rest =>
      if c == quote then
        let run := min 5 (cs.takeWhile (· == quote)).length
        if run < 3 then longEnd quote fuel (c :: seen) rest
        else some (String.ofList ((List.replicate (run - 3) quote ++ seen).reverse), cs.drop run)
      else if c == '\\' && quote == '"' then
        match newline? (skipSpaces rest) with
        | some rest => longEnd quote fuel seen (skipFold rest.length rest)
        | none =>
          match escape rest with
          | some (c, rest) => longEnd quote fuel (c :: seen) rest
          | none => none
      else
        match newline? cs with
        | some rest => longEnd quote fuel ('\n' :: seen) rest
        | none => if isLineChar c then longEnd quote fuel (c :: seen) rest else none

/-- Reads a text in three quotes after the first three; an end of line right after them is dropped. -/
def long (quote : Char) (cs : List Char) : Option (String × List Char) :=
  longEnd quote (cs.length + 1) [] ((newline? cs).getD cs)

def shortText : List Char → Option (String × List Char)
  | '"' :: rest => basicEnd (rest.length + 1) [] rest
  | '\'' :: rest => literalEnd rest
  | _ => none

def text : List Char → Option (String × List Char)
  | '"' :: '"' :: '"' :: rest => long '"' rest
  | '\'' :: '\'' :: '\'' :: rest => long '\'' rest
  | cs => shortText cs

/-- A character of a key without quotes. -/
def isBareChar (c : Char) : Bool :=
  isDigit c || ('a' ≤ c && c ≤ 'z') || ('A' ≤ c && c ≤ 'Z') || c == '-' || c == '_'

def keyPart (cs : List Char) : Option (String × List Char) :=
  let bare := cs.takeWhile isBareChar
  if bare.isEmpty then shortText cs else some (String.ofList bare, cs.drop bare.length)

/-- Reads a key: parts with dots between, and blanks around the dots. -/
def key : (fuel : Nat) → List Char → Option (List String × List Char)
  | 0, _ => none
  | fuel + 1, cs => do
    let (part, cs) ← keyPart (skipSpaces cs)
    match skipSpaces cs with
    | '.' :: rest =>
      let (parts, cs) ← key fuel rest
      return (part :: parts, cs)
    | cs => return ([part], cs)

end TermStructure.Toml.Reader
