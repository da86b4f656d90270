import TermStructure.Curve.Repricing
import TermStructure.Error.Message
import TermStructure.Json.Basic

/-!
# Repricing reports in text

A report is written for reading, one line a check, and as a data text.
-/

namespace TermStructure

open Decimal (text fixedText scientificText)

/-- The line of a check: quotes with eight places, error and tolerance with two and an exponent. -/
def RepricingCheck.line (c : RepricingCheck Float) : String :=
  (if c.passed then "✓" else "✗") ++ " [" ++ text c.index ++ "] " ++ c.description ++
    " | market: " ++ fixedText 8 c.market ++ " | implied: " ++ fixedText 8 c.implied ++
    " | error: " ++ scientificText 2 c.error ++ " (tol: " ++ scientificText 2 c.tolerance ++ ")"

def RepricingCheck.json (c : RepricingCheck Float) : Json :=
  .object
    [("helper_index", .ofNat c.index), ("description", .string c.description),
     ("market_quote", .ofFloat c.market), ("implied_quote", .ofFloat c.implied),
     ("residual", .ofFloat c.residual), ("error", .ofFloat c.error),
     ("tolerance", .ofFloat c.tolerance), ("passed", .bool c.passed)]

def RepricingCheck.isFinite (c : RepricingCheck Float) : Bool :=
  [c.market, c.implied, c.residual, c.error, c.tolerance].all Float.isFinite

namespace RepricingReport

def lines (r : RepricingReport Float) : List String :=
  ["Repricing Report", "================",
   "Status: " ++ (if r.allPassed then "PASSED" else "FAILED"),
   "Helpers: " ++ text (r.checks.filter (·.passed)).length ++ "/" ++ text r.checks.length ++ " passed",
   "Max Error: " ++ scientificText 2 r.maxError,
   "RMS Error: " ++ scientificText 2 r.rmsError] ++
  if r.checks.isEmpty then [] else ["", "Details:"] ++ r.checks.map fun c => "  " ++ c.line

/-- The text of a report; each line ends with a line feed. -/
def text (r : RepricingReport Float) : String := String.join (r.lines.map (· ++ "\n"))

def json (r : RepricingReport Float) : Json :=
  .object
    [("checks", .array (r.checks.map (·.json))), ("max_error", .ofFloat r.maxError),
     ("rms_error", .ofFloat r.rmsError), ("all_passed", .bool r.allPassed),
     ("worst_index", (r.worstIndex.map Json.ofNat).getD .null)]

/-- The data text reads back: it holds no number that had to be written as `null`. -/
def readsBack (r : RepricingReport Float) : Bool :=
  r.checks.all (·.isFinite) && r.maxError.isFinite && r.rmsError.isFinite

end RepricingReport

end TermStructure
