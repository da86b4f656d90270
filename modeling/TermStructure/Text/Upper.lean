/-!
# Upper case

Characters in upper case, as far as the result is ASCII: the letters a to z, and the few other
characters whose upper case is one or more of the letters A to Z. Every other character stays as it
is; its upper case holds a character that is not ASCII, so no text of ASCII letters can come of it.
-/

namespace TermStructure.Text

/-- The characters outside ASCII whose upper case is ASCII. -/
def upperExceptions : List (Char × String) :=
  [('\u0131', "I"), ('\u017F', "S"), ('\u00DF', "SS"), ('\uFB00', "FF"), ('\uFB01', "FI"),
   ('\uFB02', "FL"), ('\uFB03', "FFI"), ('\uFB04', "FFL"), ('\uFB05', "ST"), ('\uFB06', "ST")]

def upperChar (c : Char) : List Char :=
  match upperExceptions.lookup c with
  | some s => s.toList
  | none => [c.toUpper]

def upper (cs : List Char) : List Char := cs.flatMap upperChar

end TermStructure.Text
