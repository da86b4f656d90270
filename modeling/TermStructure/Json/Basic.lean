import TermStructure.Decimal.Layout
import TermStructure.Decimal.Scaled
import TermStructure.Text.Quoted

/-!
# JSON values

Values as a JSON text holds them. Members keep their order, and a name may occur twice: whoever reads
the value decides what that means.
-/

namespace TermStructure

/-- A JSON value. -/
inductive Json where
  | null
  | bool (b : Bool)
  | number (n : Decimal.Numeral)
  /-- A number that is only ever written, in its written form. -/
  | literal (text : String)
  | string (s : String)
  /-- A text with half of a surrogate pair, which is no text, or an object with such a name. -/
  | unpaired
  | array (items : List Json)
  | object (members : List (String × Json))
deriving Inhabited

namespace Json

def numeralText (n : Decimal.Numeral) : String :=
  (if n.negative then "-" else "") ++ Decimal.text n.digits ++
    (if n.isWhole then "" else "e" ++ Decimal.signedText n.scale)

mutual

/-- Appends the written form of a value to a text, without blanks. -/
def writeTo (out : String) : Json → String
  | .null | .unpaired => out ++ "null"
  | .bool b => out ++ if b then "true" else "false"
  | .number n => out ++ numeralText n
  | .literal text => out ++ text
  | .string s => out ++ Text.quoted s
  | .array items => (writeItems (out.push '[') true items).push ']'
  | .object members => (writeMembers (out.push '\x7b') true members).push '\x7d'

def writeItems (out : String) (first : Bool) : List Json → String
  | [] => out
  | item :: rest => writeItems (writeTo (if first then out else out.push ',') item) false rest

def writeMembers (out : String) (first : Bool) : List (String × Json) → String
  | [] => out
  | (name, item) :: rest =>
    writeMembers (writeTo ((if first then out else out.push ',') ++ Text.quoted name ++ ":") item) false rest

end

/-- The written form of a value, without blanks. -/
def write (j : Json) : String := writeTo "" j

/-- A number in a data text; what is not finite becomes `null`. -/
def ofFloat (x : Float) : Json := if x.isFinite then .literal (Decimal.Layout.data.write x) else .null

def ofNat (n : Nat) : Json := .literal (Decimal.text n)

def ofInt (n : Int) : Json := .literal (Decimal.signedText n)

/-- The member with a name, the first of several. -/
def member? (name : String) : Json → Option Json
  | .object members => members.lookup name
  | _ => none

/-- The binary64 number of a data text, which is read quickly; it is missing if it is too large. -/
def toFloat? : Json → Option Float
  | .number n => n.quickFloat?
  | _ => none

/-- The integer that is written without a point or an exponent. -/
def toInt? : Json → Option Int
  | .number n => n.toInt?
  | _ => none

def toBool? : Json → Option Bool
  | .bool b => some b
  | _ => none

def toText? : Json → Option String
  | .string s => some s
  | _ => none

def toItems? : Json → Option (List Json)
  | .array items => some items
  | _ => none

end Json

end TermStructure
