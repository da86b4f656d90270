import TermStructure.Calendar.Text
import TermStructure.Json.Reader

/-!
# Dates as data

A date in a data text is a text, written as usual and read loosely.
-/

namespace TermStructure.Date

def json (d : Date) : Json := .string d.text

def ofJson? (s : String) : Option Date := do
  read? true (← (← Json.read? s).toText?).toList

end TermStructure.Date
