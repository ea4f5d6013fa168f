import Workflow.Identifier
import Workflow.Status
import Workflow.Time.Iso
import Workflow.Value.Printer

/-!
# Errors

Every way in which an operation can fail, as a cause.  A message is composed from
the cause by `Error.message` alone; the wordings take plain texts, so that they
can also be used for an error that is raised elsewhere.
-/

namespace Workflow

/-! ## Causes -/

/-- How a document fails to be a graph, a trigger or an editor graph. -/
inductive Malformation where
  /-- the subject is not of the shape it must have -/
  | shape (subject expected : String)
  | emptyNodeId
  | duplicateNode
  | unknownNodeKind (found : Value)
  | unknownTriggerKind (found : Value)
  | unreadableDuration (label : Value)
  | missingDuration
  | unreadableDelay
  deriving DecidableEq, Repr

/-- How a record fails to be read, or a value to be used as what it stands for. -/
inductive Fault where
  | missingField (key : String)
  /-- an entry is to be removed that is not there; its key is shown as a literal -/
  | missingEntry (key : String)
  | unknownName (found : Value) (title : String)
  | uuid (fault : UuidFault)
  | timestamp (fault : TimestampFault)
  | notInteger (text : String)
  /-- a decimal integer of too many digits -/
  | tooManyDigits (count : Nat)
  /-- an integer of too many digits is to be written -/
  | unwritable
  /-- a double that is not a number is to be made an integer -/
  | notANumber
  | notReal (text : String)
  /-- an integer beyond the largest double -/
  | integerTooLarge
  /-- a status that ends no run by completion -/
  | noOutcome (status : RunStatus)
  /-- a value that is no object is asked for a member by name -/
  | notRecord
  /-- a value that is no text is used as one -/
  | notText
  /-- a value that has no entries is looked up or gone through -/
  | notCollection
  /-- a value that is no number is used as one -/
  | notNumber
  /-- a list or an object is used as a key -/
  | notKey
  | notTimestamp
  /-- timestamps with and without a zone are compared -/
  | mixedZones
  /-- a row with this key is there already -/
  | duplicateKey
  /-- a row that breaks a rule of its table -/
  | rowRefused
  /-- a time or a document that has no stored form -/
  | notStorable
  /-- a value of a kind that no column holds -/
  | notColumn
  /-- an integer beyond 64 bits in a column -/
  | integerTooWide
  /-- an entry of a mapping that does not consist of a key and a value -/
  | notEntry (index length : Nat)
  deriving DecidableEq, Repr

/-- What a template is looked up by. -/
inductive TemplateKey where
  | id (id : Uuid)
  | text (s : String)
  deriving DecidableEq, Repr

inductive Error where
  | invalid (violations : List String)
  | malformed (element : Option Value) (cause : Malformation)
  | unapproved (definition : Uuid) (status : ApprovalStatus)
  | unsigned (definition : Uuid)
  | inactive (definition : Uuid) (status : Lifecycle)
  | refusedAction (definition : Uuid) (status : ApprovalStatus) (action : ApprovalAction)
  | refusedPause (definition : Uuid) (status : Lifecycle)
  | runFinished (run : Uuid) (status : RunStatus) (action : RunAction)
  | definitionMissing (definition : Uuid)
  | runMissing (run : Uuid)
  | templateMissing (key : TemplateKey)
  /-- the writer expected another version, which may have been any value -/
  | stale (definition : Uuid) (expected : Value) (actual : Int)
  | faulty (fault : Fault)
  deriving DecidableEq, Repr

/-- The values that a message shows beside the element. -/
def Malformation.shown : Malformation → List Value
  | unknownNodeKind v | unknownTriggerKind v | unreadableDuration v => [v]
  | shape .. | emptyNodeId | duplicateNode | missingDuration | unreadableDelay => []

/-- What comes of a malformation: its message is written when it is reported, and an integer of
too many digits cannot be. -/
def Error.worded : Error → Error
  | malformed element cause =>
    if (element.toList ++ cause.shown).all Value.isWritable then malformed element cause
    else faulty .unwritable
  | e => e

/-! ## Wording -/

namespace Wording

def invalid (violations : List String) : String :=
  "Validation failed: " ++ String.intercalate "; " violations

/-- The element is named first, if it is known. -/
def malformed (element : Option String) (problem : String) : String :=
  match element with
  | none => problem
  | some e => "'" ++ e ++ "': " ++ problem

def governance (definition reason : String) : String :=
  "Automation '" ++ definition ++ "': " ++ reason

def transition (entity status action reason : String) : String :=
  "Cannot " ++ action ++ " " ++ entity ++ " from state '" ++ status ++ "'"
    ++ (if reason.isEmpty then "" else ": " ++ reason)

def missing (sort key : String) : String := sort ++ " '" ++ key ++ "' not found"

def definitionMissing (key : String) : String := missing "Automation" key

def runMissing (key : String) : String := missing "Run" key

def templateMissing (key : String) : String := missing "Template" key

def stale (definition expected actual : String) : String :=
  "Automation '" ++ definition ++ "' was modified concurrently (expected version "
    ++ expected ++ ", found " ++ actual ++ ")"

end Wording

def Malformation.message : Malformation → String
  | shape subject expected => subject ++ " must be " ++ expected
  | emptyNodeId => "Node id must not be empty"
  | duplicateNode => "Duplicate node id"
  | unknownNodeKind v => "Unknown node type " ++ v.literal
  | unknownTriggerKind v => "Unknown trigger kind " ++ v.literal
  | unreadableDuration v => "Cannot parse duration " ++ v.literal
  | missingDuration => "Delay node requires a 'duration'"
  | unreadableDelay => "Delay node requires a non-negative integer 'duration_ms'"

/-- Faults of use have no message. -/
def Fault.message? : Fault → Option String
  | missingField key => some (Text.quote key)
  | missingEntry key => some key
  | unknownName v title => some (v.literal ++ " is not a valid " ++ title)
  | uuid f => some f.message
  | timestamp f => some f.message
  | notInteger s => some (Numeral.unreadable 10 s)
  | tooManyDigits n =>
    some ("Exceeds the limit (" ++ Nat.repr Numeral.maxDigits
      ++ " digits) for integer string conversion: value has " ++ Nat.repr n
      ++ " digits; use sys.set_int_max_str_digits() to increase the limit")
  | unwritable =>
    some ("Exceeds the limit (" ++ Nat.repr Numeral.maxDigits
      ++ " digits) for integer string conversion; use sys.set_int_max_str_digits() to increase"
      ++ " the limit")
  | notANumber => some "cannot convert float NaN to integer"
  | notReal s => some ("could not convert string to float: " ++ Text.quote s)
  | integerTooLarge => some "int too large to convert to float"
  | noOutcome status =>
    some ("Run outcome must be 'success' or 'failed', got '" ++ name status ++ "'")
  | integerTooWide => some "Python int too large to convert to SQLite INTEGER"
  | notEntry index length =>
    some ("dictionary update sequence element #" ++ Nat.repr index ++ " has length "
      ++ Nat.repr length ++ "; 2 is required")
  | notRecord | notText | notCollection | notNumber | notKey | notTimestamp | mixedZones
  | duplicateKey | rowRefused | notStorable | notColumn => none

def TemplateKey.shown : TemplateKey → String
  | id u => u.text
  | text s => s

namespace Error

/-- Why an unapproved, unsigned or inactive definition is refused. -/
def reason? : Error → Option String
  | unapproved _ status =>
    some ("approval status is '" ++ name status ++ "', request approval first")
  | unsigned _ => some "an approver must be identified to approve"
  | inactive _ status =>
    some ("automation is " ++ name status ++ "; only active automations can run")
  | runFinished .. => some "run already finished"
  | _ => none

/-- What was to change its state, the state it was in, and the action. -/
def transition? : Error → Option (String × String × String)
  | refusedAction id status action =>
    some ("automation '" ++ id.text ++ "'", name status, name action)
  | refusedPause id status => some ("automation '" ++ id.text ++ "'", name status, "pause")
  | runFinished id status action => some ("run '" ++ id.text ++ "'", name status, name action)
  | _ => none

def message? (e : Error) : Option String :=
  match e with
  | invalid violations => some (Wording.invalid violations)
  | malformed element cause => some (Wording.malformed (element.map Value.bare) cause.message)
  | unapproved id _ | unsigned id | inactive id _ =>
    some (Wording.governance id.text (e.reason?.getD ""))
  | refusedAction .. | refusedPause .. | runFinished .. =>
    e.transition?.map fun (entity, status, action) =>
      Wording.transition entity status action (e.reason?.getD "")
  | definitionMissing id => some (Wording.definitionMissing id.text)
  | runMissing id => some (Wording.runMissing id.text)
  | templateMissing key => some (Wording.templateMissing key.shown)
  | stale id expected actual =>
    some (Wording.stale id.text expected.bare (Value.intText actual))
  | faulty fault => fault.message?

/-- Whether an error is one of the domain, rather than a fault of the data it was given. -/
def isDomain : Error → Bool
  | faulty _ => false
  | _ => true

end Error

/-! ## Reading vocabularies -/

/-- The case that a value names, or the fault that it names none. -/
def Named.read {α : Type} [Named α] (v : Value) : Except Error α :=
  match Named.ofValue? v with
  | some a => .ok a
  | none => .error (.faulty (.unknownName v (Named.title α)))

end Workflow
