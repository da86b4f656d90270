import TermStructure.Config.Setting

/-!
# Configurations in text

A configuration is read from TOML or JSON and checked, and written as TOML: the settings of the curve
first, one a line, and those of the bootstrap in a table of their own.
-/

namespace TermStructure.CurveConfig

def ofToml (s : String) : Except (CurveError Float) (CurveConfig Float) :=
  match (Toml.read? s).bind fun entries => (Setting.ofToml (.table entries)).toConfig? Setting.tomlStyle with
  | some c => c.validated
  | none => .error (.invalidConfig (.unreadable .toml))

def ofJson (s : String) : Except (CurveError Float) (CurveConfig Float) :=
  match (Json.read? s).bind fun j => (Setting.ofJson j).toConfig? Setting.jsonStyle with
  | some c => c.validated
  | none => .error (.invalidConfig (.unreadable .json))

def line (key value : String) : String := key ++ " = " ++ value ++ "\n"

def flagText (b : Bool) : String := if b then "true" else "false"

def nameText (s : String) : String := "\"" ++ s ++ "\""

def numberText (x : Float) : String := Decimal.Layout.configuration.write x

def curveLines (c : CurveConfig Float) : List String :=
  [line "kind" (nameText c.kind.identifier),
   line "interpolation" (nameText c.interpolation.identifier),
   line "day_count" (nameText c.dayCount.identifier),
   line "allow_extrapolation" (flagText c.allowExtrapolation)]

def bootstrapLines (c : BootstrapConfig Float) : List String :=
  [line "accuracy" (numberText c.accuracy),
   line "max_evaluations" (Decimal.text c.maxEvaluations.toNat),
   line "bracket_widening" (numberText c.bracketWidening),
   line "global_check" (flagText c.globalCheck),
   line "global_retry" (flagText c.globalRetry)]

def toToml (c : CurveConfig Float) : String :=
  String.join (c.curveLines ++ "\n[bootstrap]\n" :: bootstrapLines c.bootstrap)

def roundTrips (c : CurveConfig Float) : Bool :=
  match ofToml c.toToml with
  | .ok d => c.agrees d
  | .error _ => false

end TermStructure.CurveConfig
