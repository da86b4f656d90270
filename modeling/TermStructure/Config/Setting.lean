import TermStructure.Binary64
import TermStructure.Config.Basic
import TermStructure.Json.Reader
import TermStructure.Toml.Reader

/-!
# Settings

What a configuration text holds, whichever format it is written in: a setting is a table, a list, a
text, a truth value or a number. A configuration is read from a table of its fields, or from a list of
them in order; a field that is left out has its default, and a table may hold entries that no field
asks for.
-/

namespace TermStructure

/-- A setting in a configuration text. -/
inductive Setting where
  | table (entries : List (String × Setting))
  | list (items : List Setting)
  | text (s : String)
  | flag (b : Bool)
  | whole (n : Int)
  /-- A number with a fraction or an exponent; it is missing if it is too large. -/
  | number (x : Option Float)
  | nothing
  | other
deriving Inhabited

/-- What a format allows beyond the plain shape of a setting. -/
structure SettingStyle where
  /-- What may stand for a bare name in a table of one entry. -/
  isUnit : Setting → Bool
  /-- A list may be longer than there are fields. -/
  longLists : Bool

namespace Setting

mutual

/-- The setting a JSON value holds. A whole number beyond 64 bits counts as one with a fraction. -/
def ofJson : Json → Setting
  | .bool b => .flag b
  | .number n =>
    match n.toInt? with
    | some i => if -9223372036854775808 ≤ i ∧ i < 18446744073709551616 then .whole i else .number n.quickFloat?
    | none => .number n.quickFloat?
  | .string s => .text s
  | .array items => .list (ofJsonItems items)
  | .object members => .table (ofJsonMembers members)
  | .null => .nothing
  | .literal _ | .unpaired => .other

def ofJsonItems : List Json → List Setting
  | [] => []
  | j :: rest => ofJson j :: ofJsonItems rest

def ofJsonMembers : List (String × Json) → List (String × Setting)
  | [] => []
  | (name, j) :: rest => (name, ofJson j) :: ofJsonMembers rest

end

mutual

/-- The setting a TOML value holds. A date or a time counts as a table with an entry that no field asks
    for. -/
def ofToml : Toml.Value → Setting
  | .string s => .text s
  | .integer n => .whole n
  | .float x => .number (some x)
  | .boolean b => .flag b
  | .moment => .table [("", .other)]
  | .array items => .list (ofTomlItems items)
  | .table entries => .table (ofTomlEntries entries)

def ofTomlItems : List Toml.Value → List Setting
  | [] => []
  | v :: rest => ofToml v :: ofTomlItems rest

def ofTomlEntries : List (String × Toml.Value) → List (String × Setting)
  | [] => []
  | (key, v) :: rest => (key, ofToml v) :: ofTomlEntries rest

end

/-- In JSON a name may stand in an object, with `null`. -/
def jsonStyle : SettingStyle where
  isUnit
    | .nothing => true
    | _ => false
  longLists := false

/-- In TOML a name may stand in a table, with an empty table or array. -/
def tomlStyle : SettingStyle where
  isUnit
    | .table [] => true
    | .list [] => true
    | _ => false
  longLists := true

/-- A number; a whole one will do. -/
def toFloat? : Setting → Option Float
  | .whole n => some (Float.ofInt n)
  | .number x => x
  | _ => none

/-- A whole number of 32 bits without a sign. -/
def toCount? : Setting → Option UInt32
  | .whole n => if 0 ≤ n ∧ n < 4294967296 then some (UInt32.ofNat n.toNat) else none
  | _ => none

def toFlag? : Setting → Option Bool
  | .flag b => some b
  | _ => none

def toName? {β : Type} (style : SettingStyle) (ofIdentifier? : String → Option β) : Setting → Option β
  | .text s => ofIdentifier? s
  | .table [(s, unit)] => if style.isUnit unit then ofIdentifier? s else none
  | _ => none

/-- The values of the fields with given names: each may be missing, but none may stand twice. -/
def fields? (style : SettingStyle) (names : List String) : Setting → Option (List (Option Setting))
  | .table entries => names.mapM fun name =>
    match entries.filter (·.1 == name) with
    | [] => some none
    | [(_, s)] => some (some s)
    | _ => none
  | .list items =>
    if items.length ≤ names.length || style.longLists then
      some ((List.range names.length).map fun i => items[i]?)
    else none
  | _ => none

/-- The value of a field, or its default if the field is missing. -/
def field? {β : Type} (fallback : β) (read : Setting → Option β) : Option Setting → Option β
  | none => some fallback
  | some s => read s

def toBootstrap? (style : SettingStyle) (s : Setting) : Option (BootstrapConfig Float) := do
  let fields ← s.fields? style
    ["accuracy", "max_evaluations", "bracket_widening", "global_check", "global_retry"]
  let base : BootstrapConfig Float := default
  match fields with
  | [accuracy, evaluations, widening, check, retry] =>
    return {
      accuracy := ← field? base.accuracy toFloat? accuracy
      maxEvaluations := ← field? base.maxEvaluations toCount? evaluations
      bracketWidening := ← field? base.bracketWidening toFloat? widening
      globalCheck := ← field? base.globalCheck toFlag? check
      globalRetry := ← field? base.globalRetry toFlag? retry }
  | _ => none

def toConfig? (style : SettingStyle) (s : Setting) : Option (CurveConfig Float) := do
  let fields ← s.fields? style
    ["kind", "interpolation", "day_count", "allow_extrapolation", "bootstrap"]
  let base : CurveConfig Float := default
  match fields with
  | [kind, interpolation, dayCount, extrapolation, bootstrap] =>
    return {
      kind := ← field? base.kind (toName? style CurveKind.ofIdentifier?) kind
      interpolation := ← field? base.interpolation (toName? style Method.ofIdentifier?) interpolation
      dayCount := ← field? base.dayCount (toName? style DayCount.ofIdentifier?) dayCount
      allowExtrapolation := ← field? base.allowExtrapolation toFlag? extrapolation
      bootstrap := ← field? base.bootstrap (toBootstrap? style) bootstrap }
  | _ => none

end Setting

end TermStructure
