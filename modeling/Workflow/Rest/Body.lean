import Workflow.Status
import Workflow.Value.Parser

/-!
# Bodies and parameters of requests

A field of a body has a type, and what does not fit it is refused.  Fields are
read leniently: an integer may be written as a double without a fraction or as a
text, the text `null` stands for null where no text is expected, and members that
are not asked for are ignored.
-/

namespace Workflow.Rest

/-- What a request carries. -/
inductive Body where
  | absent
  | value (v : Value)
  | unreadable
  deriving DecidableEq, Repr

namespace Body

def ofText (s : String) : Body :=
  if s.isEmpty then absent
  else match Value.parse? s with
    | some v => value v
    | none => unreadable

/-- The value that a body holds; an absent one holds null. -/
def value? : Body → Option Value
  | absent => some .null
  | value v => some v
  | unreadable => none

end Body

/-! ## Types of fields -/

/-- Reads a value; none refuses it. -/
abbrev Reader (α : Type) := Value → Option α

namespace Reader

def text : Reader String
  | .text s => some s
  | _ => none

def object : Reader Config := Value.members?

/-- An integer, be it written as a double without a fraction of up to 53 bits. -/
def integral : Reader Int
  | .int n => some n
  | .float x => (Number.float x).integral?.filter fun n => n.natAbs ≤ Nat.pow 2 53
  | _ => none

/-- A text counts as what it writes. -/
def integer : Reader Int
  | .text s => if s.toList.any Value.Parser.isSpace then none else (Value.parse? s).bind integral
  | v => integral v

def listOf {α : Type} (read : Reader α) : Reader (List α)
  | .list items => items.mapM read
  | _ => none

/-- A case of a vocabulary, among those that are admitted. -/
def named {α : Type} [Named α] [DecidableEq α] (admitted : List α) : Reader α :=
  fun v => (Named.ofValue? v).filter (admitted.contains ·)

def isNull : Value → Bool
  | .null => true
  | .text s => s.map Char.toLower = "null"
  | _ => false

/-- A text or null. -/
def optionalText : Reader Value
  | .null => some .null
  | .text s => some (.text s)
  | _ => none

/-- Null, or what is no text. -/
def optional {α : Type} (read : Reader α) : Reader (Option α) :=
  fun v => if isNull v then some none else (read v).map some

/-- An integer or null. -/
def optionalInteger : Reader Value :=
  fun v => if isNull v then some .null else (integer v).map .int

/-- A member that must be there. -/
def required {α : Type} (ms : Config) (key : String) (read : Reader α) : Option α :=
  (Assoc.find? key ms).bind read

/-- A member that is `absent` if it is missing. -/
def default {α : Type} (ms : Config) (key : String) (read : Reader α) (absent : α) : Option α :=
  match Assoc.find? key ms with
  | some v => read v
  | none => some absent

end Reader

end Workflow.Rest
