import Workflow.Error

/-!
# Reading records

Records are read from documents without a check of their shape first: a field is
converted as it comes, and the fault of the first field that cannot be converted
is the answer.
-/

namespace Workflow

/-! ## Fields -/

def requireField (key : String) (ms : Config) : Except Error Value :=
  match Assoc.find? key ms with
  | some v => .ok v
  | none => .error (.faulty (.missingField key))

/-- An identifier, from a value as it is shown. -/
def Uuid.ofValue (v : Value) : Except Error Uuid :=
  match Uuid.ofText v.bare with
  | .ok u => .ok u
  | .error fault => .error (.faulty (.uuid fault))

def Timestamp.ofValue (v : Value) : Except Error Timestamp :=
  match v with
  | .text s =>
    match Timestamp.ofText s with
    | .ok t => .ok t
    | .error fault => .error (.faulty (.timestamp fault))
  | _ => .error (.faulty .notTimestamp)

/-! ## Conversions -/

/-- The integer that a value stands for; a double loses its fraction. -/
def Value.toInteger : Value → Except Error Int
  | .int n => .ok n
  | .bool b => .ok (Value.ofBit b)
  | .float x => if x.isNaN then .error (.faulty .notANumber) else .ok x.truncate
  | .text s =>
    match Numeral.overlong? s, Numeral.integer? 10 s with
    | some n, _ => .error (.faulty (.tooManyDigits n))
    | none, some n => .ok n
    | none, none => .error (.faulty (.notInteger s))
  | .null | .list _ | .object _ | .numbered .. | .foreign => .error (.faulty .notNumber)

def Binary64.ofInteger (n : Int) : Except Error Binary64 :=
  match Binary64.ofInt? n with
  | some x => .ok x
  | none => .error (.faulty .integerTooLarge)

/-- The double that a value stands for. -/
def Value.toReal : Value → Except Error Binary64
  | .int n => Binary64.ofInteger n
  | .bool b => Binary64.ofInteger (Value.ofBit b)
  | .float x => .ok x
  | .text s =>
    match Numeral.real? s with
    | some x => .ok x
    | none => .error (.faulty (.notReal s))
  | .null | .list _ | .object _ | .numbered .. | .foreign => .error (.faulty .notNumber)

/-! ## Mappings -/

/-- What an entry of a mapping consists of: the items of a list, the characters of a text
or the keys of an object. -/
def Value.parts? : Value → Option (List Value)
  | .list items => some items
  | .text s => some (s.toList.map fun c => .text (String.singleton c))
  | .object ms => some (ms.map fun (k, _) => .text k)
  | .null | .bool _ | .int _ | .float _ | .numbered .. | .foreign => none

/-- The key and the value that an entry consists of. -/
def Value.entry (index : Nat) (v : Value) : Except Error (Value × Value) :=
  match v.parts? with
  | none => .error (.faulty .notCollection)
  | some [k, w] => if k.isKey then .ok (k, w) else .error (.faulty .notKey)
  | some items => .error (.faulty (.notEntry index items.length))

def Value.entriesFrom : Nat → List Value → Except Error (List (Value × Value))
  | _, [] => .ok []
  | index, v :: rest => do
    let e ← v.entry index
    let es ← Value.entriesFrom (index + 1) rest
    pure (e :: es)

/-- The name of a key in an object. -/
def Value.memberName : Value → String
  | .text s => s
  | v => v.json

/-- The object that a value stands for: an object itself, or the object of a list of
entries.  What counts as absent is an empty object. -/
def Value.toObject (v : Value) : Except Error Config :=
  match v.orElse (.object []) with
  | .object ms => .ok ms
  | w =>
    match w.parts? with
    | none => .error (.faulty .notCollection)
    | some items => do
      let entries ← Value.entriesFrom 0 items
      pure (Assoc.ofList ((Value.merge entries).map fun (k, w) => (k.memberName, w)))

end Workflow
