import Workflow.Error

/-!
# Columns

What the columns of a table hold: texts, integers of 64 bits, times by universal
time, and documents.  A number that is written to a column of texts becomes a
text; a list or an object fits no such column.
-/

namespace Workflow.Store.Column

/-! ## Numbers as texts -/

/-- Doubles have 15 digits, are positional from `0.0001` up to `10 ^ 15`, and have a
fraction before an exponent. -/
def layout : Binary64.Layout := ⟨15, 4, 2, 1⟩

/-- The first digits of a double, a half going up, and the place of the last one. -/
def leadingDigits (count : Nat) (x : Binary64) : Nat × Int :=
  let place := x.magnitude - count
  let (n, d) := x.ratio
  let (n, d) := if 0 ≤ place then (n, d * Nat.pow 10 place.toNat) else (n * Nat.pow 10 (-place).toNat, d)
  ((2 * n + d) / (2 * d), place)

def realText (x : Binary64) : String :=
  if x.isZero then "0.0"
  else
    let (c, place) := leadingDigits 15 x
    let digits := Nat.toDigits 10 c
    (if x.negative then "-" else "")
      ++ Binary64.layOut layout (Binary64.dropZeros digits) (place + digits.length)

/-! ## Values in columns -/

/-- An integer, which must fit into 64 bits. -/
def integer (n : Int) : Except Fault Int :=
  if -(Int.pow 2 63) ≤ n ∧ n < Int.pow 2 63 then .ok n else .error .integerTooWide

/-- What a value becomes in a column of texts. -/
def text : Value → Except Fault Value
  | .null => .ok .null
  | .text s => .ok (.text s)
  | .bool b => .ok (.text (Value.intText (Value.ofBit b)))
  | .int n => do pure (.text (Value.intText (← integer n)))
  | .float x => .ok (.text (realText x))
  | .list _ | .object _ | .numbered .. | .foreign => .error .notColumn

/-- Times and documents that are to be stored. -/
def checkStorable (times : List Timestamp) (documents : List Value) : Except Fault Unit :=
  if times.all Timestamp.isStorable && documents.all Value.isWritable then .ok ()
  else .error .notStorable

/-- Columns that must not be null. -/
def checkFilled (columns : List Value) : Except Fault Unit :=
  if columns.contains .null then .error .rowRefused else .ok ()

/-! ## Comparison -/

/-- The number that a text writes in ASCII digits without separators. -/
def number? (s : String) : Option Number :=
  if s.toList.all fun c => c.toNat < 128 && c ≠ '_' then
    match (Numeral.integer? 10 s).map integer with
    | some (.ok n) => some (.int n)
    | _ => (Numeral.real? s).map .float
  else none

/-- Whether a column that holds an integer is equal to a value. -/
def isInteger (stored : Int) : Value → Except Fault Bool
  | .null => .ok false
  | .bool b => .ok (stored = Value.ofBit b)
  | .int n => do pure (stored = (← integer n))
  | .float x => .ok (Number.same (.int stored) (.float x))
  | .text s => .ok ((number? s).any (Number.same (.int stored)))
  | .list _ | .object _ | .numbered .. | .foreign => .error .notColumn

/-! ## Faults -/

/-- The faults of a row that is changed, or of a condition, are reported as they are. -/
def changing {α : Type} (r : Except Fault α) : Except Error α := r.mapError .faulty

/-- A row that is inserted is refused, whatever is wrong with it but a wide integer. -/
def inserting {α : Type} (r : Except Fault α) : Except Error α :=
  r.mapError fun fault => .faulty (if fault = .integerTooWide then fault else .rowRefused)

end Workflow.Store.Column
