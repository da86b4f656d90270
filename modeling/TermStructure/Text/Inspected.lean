import TermStructure.Calendar.Text
import TermStructure.Decimal.Layout

/-!
# Inspected values

How a value shows itself for inspection: its name and its fields between braces, with two dots at the
end if some are kept back.
-/

namespace TermStructure.Text

def inspected (name : String) (fields : List (String × String)) (keepsBack : Bool) : String :=
  let shown := fields.map fun (field, value) => field ++ ": " ++ value
  name ++ " \x7b " ++ ", ".intercalate (if keepsBack then shown ++ [".."] else shown) ++ " \x7d"

def inspectedNumber (x : Float) : String := Decimal.Layout.inspected.write x

def inspectedNumbers (xs : List Float) : String := "[" ++ ", ".intercalate (xs.map inspectedNumber) ++ "]"

def inspectedFlag (b : Bool) : String := if b then "true" else "false"

def inspectedOption : Option String → String
  | some s => "Some(" ++ s ++ ")"
  | none => "None"

def inspectedDate (d : Date) : String := "Date(" ++ d.text ++ ")"

end TermStructure.Text
