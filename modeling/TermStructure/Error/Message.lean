import TermStructure.Calendar.Text
import TermStructure.Decimal.Layout
import TermStructure.Decimal.Rounded
import TermStructure.Error

/-!
# Error messages

The wording of every error. Numbers of an input are written in full, times with six places, and
residuals with two or three places and an exponent.
-/

namespace TermStructure

open Decimal (text fixedText scientificText)

def number (x : Float) : String := Decimal.Layout.plain.write x

def NumericFault.message : NumericFault Float → String
  | lengths abscissas values =>
    "xs and ys must have same length: " ++ text abscissas ++ " vs " ++ text values
  | nodes => "node coordinates must be finite"
  | order => "x values must be strictly increasing"
  | sign index value =>
    "y[" ++ text index ++ "] = " ++ number value ++ " is not positive; log-linear requires positive values"
  | abscissa => "interpolation abscissa is NaN"
  | bracket lower upper =>
    "bracket bounds must be finite and increasing: [" ++ number lower ++ ", " ++ number upper ++ "]"
  | period start finish =>
    "forward period must be increasing: [" ++ number start ++ ", " ++ number finish ++ "]"
  | other reason => reason

def NumericError.message : NumericError Float → String
  | convergenceFailed evaluations residual =>
    "Convergence failed after " ++ text evaluations ++ " evaluations (residual: " ++
      scientificText 2 residual ++ ")"
  | invalidBracket a b fa fb =>
    "Invalid bracket: f(" ++ number a ++ ") = " ++ scientificText 2 fa ++ " and f(" ++ number b ++ ") = " ++
      scientificText 2 fb ++ " have same sign"
  | nonFiniteValue x => "Objective is not finite at x = " ++ number x
  | extrapolation x min max =>
    "Extrapolation not allowed: " ++ number x ++ " is outside [" ++ number min ++ ", " ++ number max ++ "]"
  | insufficientData required actual =>
    "Insufficient data: need at least " ++ text required ++ ", got " ++ text actual
  | invalidInput fault => "Invalid input: " ++ fault.message
  | disordered lower upper =>
    "min > max, or either was NaN. min = " ++ Decimal.Layout.inspected.write lower ++ ", max = " ++
      Decimal.Layout.inspected.write upper

def InstrumentFault.message : InstrumentFault → String
  | depositPeriod start finish =>
    "deposit end " ++ finish.text ++ " must be after start " ++ start.text
  | swapPeriod start maturity =>
    "swap maturity " ++ maturity.text ++ " must be after start " ++ start.text
  | couponPeriod months => "invalid fixed period: " ++ text months ++ "M"
  | other reason => reason

def QuoteFault.message : QuoteFault → String
  | missing description => "no value for " ++ description
  | other reason => reason

def JumpFault.message : JumpFault Float → String
  | missing => "turn-of-year quote has no value"
  | factor value => "turn-of-year factor must lie in (0, 1], got " ++ number value
  | other reason => reason

def DataFormat.name : DataFormat → String
  | toml => "TOML"
  | json => "JSON"

def ConfigFault.message : ConfigFault Float → String
  | accuracy value => "accuracy must be positive, got " ++ number value
  | maxEvaluations => "max_evaluations must be at least 1"
  | bracketWidening value => "bracket_widening must be at least 1, got " ++ number value
  | unsupported scheme kind => scheme ++ " interpolation cannot carry " ++ kind ++ " nodes"
  | minPoints scheme required => scheme ++ " interpolation needs " ++ text required ++ " nodes"
  | trialNodes scheme required available =>
    scheme ++ " interpolation needs " ++ text required ++ " nodes, trial curves start from " ++ text available
  | nodeCounts times values =>
    "node store needs matching non-empty vectors: " ++ text times ++ " times, " ++ text values ++ " values"
  | firstNode => "first node must sit at t = 0"
  | unreadable format => format.name
  | other reason => reason

def CurveError.message : CurveError Float → String
  | emptyHelperSet => "No helpers supplied for bootstrap"
  | duplicatePillar time => "Duplicate pillar at t = " ++ fixedText 6 time
  | invalidPillar index time =>
    "Pillar " ++ text index ++ " lies before the reference date (t = " ++ fixedText 6 time ++ ")"
  | pillarFailure index lastResidual =>
    "Bootstrap failed at pillar " ++ text index ++ " (last residual: " ++ scientificText 3 lastResidual ++ ")"
  | globalCheckFailure index residual =>
    "Global repricing check failed: helper " ++ text index ++ " misses by " ++ scientificText 3 residual
  | rootFind index source => "Root finder failed at pillar " ++ text index ++ ": " ++ source.message
  | interpolation index source => "Interpolation failed at pillar " ++ text index ++ ": " ++ source.message
  | helper index source => "Helper at pillar " ++ text index ++ " failed: " ++ source.message
  | invalidHelper fault => "Invalid helper: " ++ fault.message
  | invalidQuote fault => "Invalid quote: " ++ fault.message
  | extrapolation t min max =>
    "Extrapolation not allowed: t = " ++ fixedText 6 t ++ " is outside [" ++ fixedText 6 min ++ ", " ++
      fixedText 6 max ++ "]"
  | invalidAdjustment fault => "Invalid adjustment: " ++ fault.message
  | invalidConfig fault => "Invalid configuration: " ++ fault.message
  | numeric source => source.message
  | calendar source => source.message

end TermStructure
