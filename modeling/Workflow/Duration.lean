import Workflow.Text.Blank
import Workflow.Text.DecimalDigit
import Workflow.Error

/-!
# Duration labels

A delay is stored in milliseconds and shown as a number of the largest unit that
measures it exactly.  A label is read leniently: white space may stand around
the number and the unit, the unit may be singular and of any case, and the
digits may be of any script.

    ofLabel? (label n) = some n for every natural number n
-/

namespace Workflow.Duration

inductive Unit where
  | day | hour | minute | second | millisecond
  deriving DecidableEq, Repr, Inhabited

namespace Unit

/-- From the largest to the smallest. -/
def all : List Unit := [day, hour, minute, second, millisecond]

def milliseconds : Unit → Nat
  | day => 86400000
  | hour => 3600000
  | minute => 60000
  | second => 1000
  | millisecond => 1

def name : Unit → String
  | day => "days"
  | hour => "hours"
  | minute => "minutes"
  | second => "seconds"
  | millisecond => "ms"

/-- The name and, where it has one, the singular. -/
def aliases (u : Unit) : List String :=
  match u with
  | day => [u.name, "day"]
  | hour => [u.name, "hour"]
  | minute => [u.name, "minute"]
  | second => [u.name, "second"]
  | millisecond => [u.name]

def ofAlias? (s : String) : Option Unit := all.find? (·.aliases.contains s)

/-- The largest unit that measures a duration exactly. -/
def measuring (n : Int) : Unit :=
  (all.find? fun u => n % (u.milliseconds : Int) = 0).getD millisecond

end Unit

/-! ## Algorithm -/

/-- How many of its unit a duration is. -/
def amount (n : Int) : Int := n / ((Unit.measuring n).milliseconds : Int)

/-- The label of a duration in milliseconds. -/
def label (n : Int) : String := Value.intText (amount n) ++ " " ++ (Unit.measuring n).name

/-- Whether the number of a label can be written. -/
def isShort (n : Int) : Bool := Value.isWritableInt (amount n)

/-- The label of a duration, unless its number has too many digits. -/
def labelBounded (n : Int) : Except Error String :=
  if isShort n then .ok (label n) else .error (.faulty .unwritable)

/-- The label of a number of milliseconds that is held as a double. -/
def realLabel (x : Binary64) : String :=
  let bare := x.text ++ " ms"
  match (Number.float x).integral? with
  | none => bare
  | some n =>
    let u := Unit.measuring n
    if u = .millisecond then bare
    else
      let quotient := Binary64.ofRatio? x.negative (n.natAbs / u.milliseconds) 1
      ((quotient.map Binary64.text).getD x.text) ++ " " ++ u.name

/-- The label of a duration given as any value, which must be a number. -/
def labelOf : Value → Except Error String
  | .int n => labelBounded n
  | .float x => .ok (realLabel x)
  | .bool b => .ok (if b then (Value.bool b).literal ++ " ms" else label 0)
  | .null | .text _ | .list _ | .object _ | .numbered .. | .foreign => .error (.faulty .notNumber)

/-- Lower case of the letters A to Z; none if there is another character. -/
def asciiWord? (cs : List Char) : Option String :=
  if cs.all Char.isAlpha then some (String.ofList (cs.map Char.toLower)) else none

/-- The digits with which a label starts. -/
def amountOf (s : String) : List Char := (Text.stripChars s.toList).takeWhile Text.isDecimal

/-- What follows the digits of a label. -/
def unitOf (s : String) : List Char :=
  ((Text.stripChars s.toList).dropWhile Text.isDecimal).dropWhile Text.isBlankChar

/-- The milliseconds that a label stands for. -/
def ofLabel? (s : String) : Option Nat :=
  if (amountOf s).isEmpty then none
  else ((asciiWord? (unitOf s)).bind Unit.ofAlias?).map fun u =>
    Text.decimalValue (amountOf s) * u.milliseconds

/-- The number of digits of a label, if there are too many to be read from a text. -/
def overlong? : Value → Option Nat
  | .text s =>
    let count := (amountOf s).length
    if (ofLabel? s).isSome && Numeral.maxDigits < count then some count else none
  | _ => none

/-- Reads the label of a delay; a value that is no text is no label. -/
def ofValue (v : Value) (element : Option Value) : Except Error Nat :=
  let read :=
    match v with
    | .text s => ofLabel? s
    | _ => none
  match read with
  | some n => .ok n
  | none => .error (.malformed element (.unreadableDuration v))

/-- Reads a label, unless its number, or that of the value in its place, has too many digits. -/
def ofValueBounded (v : Value) (element : Option Value) : Except Error Nat :=
  match overlong? v with
  | some n => .error (.faulty (.tooManyDigits n))
  | none => (ofValue v element).mapError Error.worded

end Workflow.Duration
