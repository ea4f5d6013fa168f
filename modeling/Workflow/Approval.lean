import Workflow.Record
import Workflow.Text.Blank

/-!
# Approval

An automation has to be approved before it may be activated.  A table says which
action leads from which status to which; whoever approves must be named.  Every
transition is recorded as an event, so the status is the target of the last event
of the history.

    status []               = draft
    status (history ++ [e]) = e.target                              (status_append)
-/

namespace Workflow

/-- The record of one transition. -/
structure ApprovalEvent where
  definition : Uuid
  action : ApprovalAction
  source : ApprovalStatus
  target : ApprovalStatus
  actor : Value
  notes : Value
  time : Timestamp
  deriving DecidableEq, Repr

/-- The status that an action leads to. -/
abbrev ApprovalTable := List ((ApprovalStatus × ApprovalAction) × ApprovalStatus)

namespace ApprovalTable

def standard : ApprovalTable :=
  [((.draft, .request), .pending), ((.rejected, .request), .pending),
   ((.pending, .approve), .approved), ((.pending, .reject), .draft),
   ((.approved, .request), .pending)]

/-- A later row replaces an earlier one of the same status and action; no rows stand for
the standard table. -/
def ofRows (rows : ApprovalTable) : ApprovalTable :=
  if rows.isEmpty then standard else Assoc.ofList rows

/-- The actions permitted from a status. -/
def allowed (table : ApprovalTable) (status : ApprovalStatus) : List ApprovalAction :=
  ((Assoc.keys table).filter (·.1 = status)).map Prod.snd

/-- Whether a value names someone: a text that is not blank.  Nothing names no one, and
what is no text cannot be asked. -/
def isSignature (v : Value) : Except Error Bool :=
  if !v.isTruthy then .ok false
  else match v with
    | .text s => .ok (!Text.isBlank s)
    | _ => .error (.faulty .notText)

/-- What an action asks of its actor and its notes. -/
def checkFields (definition : Uuid) (action : ApprovalAction) (actor notes : Value) :
    Except Error Unit :=
  match action with
  | .request => .ok ()
  | .approve => do
    if ← isSignature actor then pure () else .error (.unsigned definition)
  | .reject => do
    let _ ← isSignature notes
    pure ()

/-- The event that records an action. -/
def transition (table : ApprovalTable) (definition : Uuid) (status : ApprovalStatus)
    (action : ApprovalAction) (actor notes : Value) (now : Timestamp) :
    Except Error ApprovalEvent :=
  match Assoc.find? (status, action) table with
  | none => .error (.refusedAction definition status action)
  | some target => do
    checkFields definition action actor notes
    pure ⟨definition, action, status, target, actor, notes, now⟩

end ApprovalTable

/-- Whether an automation of this status may be activated. -/
def ApprovalStatus.permitsActivation (status : ApprovalStatus) : Bool := status = .approved

namespace ApprovalEvent

/-- The status that a history leads to. -/
def status (history : List ApprovalEvent) : ApprovalStatus :=
  history.foldl (fun _ e => e.target) .draft

/-! ## Wire form -/

def toValue (e : ApprovalEvent) : Value :=
  .object [("workflow_id", .text e.definition.text), ("action", .text (name e.action)),
    ("from_status", .text (name e.source)), ("to_status", .text (name e.target)),
    ("actor_id", e.actor), ("notes", e.notes), ("timestamp", .text e.time.text)]

def ofValue (raw : Value) : Except Error ApprovalEvent :=
  match raw with
  | .object ms => do
    let definition ← Uuid.ofValue (← requireField "workflow_id" ms)
    let action ← Named.read (← requireField "action" ms)
    let source ← Named.read (← requireField "from_status" ms)
    let target ← Named.read (← requireField "to_status" ms)
    let time ← Timestamp.ofValue (← requireField "timestamp" ms)
    pure ⟨definition, action, source, target, Value.at ms "actor_id", Value.at ms "notes", time⟩
  | _ => .error (.faulty .notCollection)

/-! ## Lemmas -/

@[simp] theorem status_nil : status [] = .draft := rfl

@[simp] theorem status_append (history : List ApprovalEvent) (e : ApprovalEvent) :
    status (history ++ [e]) = e.target := by
  simp [status]

end ApprovalEvent

end Workflow
