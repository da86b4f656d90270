import TermStructure.Curve.Kind
import TermStructure.DayCount

/-!
# Reading a curve

A computation that reads a curve is a tree: it ends with a result or an error, or it asks for the
curve at a time and goes on with the answer. So the same computation runs on a finished curve, where
every answer is fixed, and on one that may have to be solved when it is first asked. A curve also
shows its reference date, its day count and its kind, which are never asked for.
-/

namespace TermStructure

/-- What a curve shows without being asked. -/
structure Frame where
  /-- The date of time zero. -/
  reference : Date
  dayCount : DayCount
  kind : CurveKind
deriving DecidableEq, Repr

def Frame.time {α : Type} [Scalar α] (f : Frame) (date : Date) : α :=
  f.dayCount.yearFraction f.reference date

/-- What a curve can be asked for at a time. -/
inductive Probe (α : Type) where
  /-- The value between the nodes. -/
  | value (t : α)
  /-- The discount factor or the survival probability. -/
  | discount (t : α)

def Probe.time {α : Type} : Probe α → α
  | .value t | .discount t => t

/-- A computation that reads a curve. -/
inductive Reading (α β : Type) where
  | done (result : Except (CurveError α) β)
  | ask (probe : Probe α) (next : Except (CurveError α) α → Reading α β)

namespace Reading

variable {α β γ : Type}

/-- Goes on with the result; an error ends the computation. -/
def bind (r : Reading α β) (f : β → Reading α γ) : Reading α γ :=
  match r with
  | .done (.ok b) => f b
  | .done (.error e) => .done (.error e)
  | .ask probe next => .ask probe fun answer => (next answer).bind f

instance : Monad (Reading α) where
  pure b := .done (.ok b)
  bind := bind

def fail (e : CurveError α) : Reading α β := .done (.error e)

def value (t : α) : Reading α α := .ask (.value t) .done

def discount (t : α) : Reading α α := .ask (.discount t) .done

/-- The curve is asked for something. -/
def asks : Reading α β → Bool
  | .done _ => false
  | .ask .. => true

/-- Runs a computation on a curve whose answers are fixed. -/
def run (answer : Probe α → Except (CurveError α) α) : Reading α β → Except (CurveError α) β
  | .done result => result
  | .ask probe next => (next (answer probe)).run answer

/-- Runs a computation on a curve that may change while it is asked. -/
def runOn {σ : Type} (answer : σ → Probe α → Except (CurveError α) α × σ) :
    Reading α β → σ → Except (CurveError α) β × σ
  | .done result, s => (result, s)
  | .ask probe next, s =>
    let (a, s) := answer s probe
    (next a).runOn answer s

variable [Scalar α]

def discountAt (f : Frame) (date : Date) : Reading α α := discount (f.time date)

/-- The continuously compounded rate to time `t`; rates at time zero and before are read a little
    later. -/
def zeroRate (t : α) : Reading α α := do
  let t := if t > 0 then t else 1e-4
  let d ← discount t
  return -Scalar.ln d / t

/-- The continuously compounded rate from one time to a later one. -/
def forwardRate (start finish : α) : Reading α α := do
  if finish ≤ start then fail (.numeric (.invalidInput (.period start finish)))
  else
    let d ← discount start
    let e ← discount finish
    return Scalar.ln (d / e) / (finish - start)

end Reading

end TermStructure
