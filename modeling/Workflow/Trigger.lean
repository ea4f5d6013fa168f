import Workflow.Error
import Workflow.Text.Blank

/-!
# Triggers

A trigger makes an automation fire: a domain event `entity.verb`, or a cron
schedule of five or six fields.  A trigger that is put together in memory may
hold any value, so the rules are stated on unchecked triggers.

    ofValue t.toValue = .ok t                                   (ofValue_toValue)
-/

namespace Workflow

inductive Trigger where
  | event (eventType : String)
  | schedule (cron : String)
  deriving DecidableEq, Repr, Inhabited

/-- A trigger whose fields are not checked, or a value that is no trigger. -/
inductive UncheckedTrigger where
  | event (eventType : Value)
  | schedule (cron : Value)
  | other (value : Value)
  deriving DecidableEq, Repr

namespace Trigger

/-! ## Rules -/

/-- Entities that publish domain events. -/
def knownEntities : List String :=
  ["company", "contact", "deal", "email", "invoice", "lead", "meeting", "payment", "quote",
   "sales_order", "task"]

/-- Event types that are known to be published; other verbs on known entities are accepted. -/
def knownEventTypes : List String :=
  ["deal.created", "deal.stage_changed", "invoice.created", "invoice.payment_failed",
   "invoice.payment_succeeded", "lead.created", "lead.status_changed", "sales_order.confirmed",
   "task.assigned_to", "task.created", "task.status_changed"]

def isLetter (c : Char) : Bool := 'a' ≤ c && c ≤ 'z'

/-- A small letter followed by small letters and underscores. -/
def isWord : List Char → Bool
  | [] => false
  | c :: rest => isLetter c && rest.all fun c => isLetter c || c = '_'

/-- The characters before the first point. -/
def entityOf (cs : List Char) : List Char := cs.takeWhile (· ≠ '.')

/-- The characters after the first point. -/
def verbOf (cs : List Char) : List Char := (cs.dropWhile (· ≠ '.')).drop 1

/-- A line end at the end of a text is not looked at. -/
def dropLineEnd (cs : List Char) : List Char :=
  if cs.getLast? = some '\n' then cs.dropLast else cs

def looksLikeEvent (s : String) : Bool :=
  let cs := dropLineEnd s.toList
  isWord (entityOf cs) && isWord (verbOf cs)

def isCronChar (c : Char) : Bool := c.isAlphanum || "*/,-?#".toList.contains c

def eventViolations (s : String) : List String :=
  if Text.isBlank s then ["Event trigger requires a non-empty 'event_type'"]
  else if !looksLikeEvent s then ["Event type '" ++ s ++ "' must look like 'entity.verb'"]
  else if !knownEntities.contains (String.ofList (entityOf s.toList)) then
    ["Event type '" ++ s ++ "' refers to an unknown entity"]
  else []

def cronViolations (s : String) : List String :=
  if Text.isBlank s then ["Schedule trigger requires a non-empty 'cron'"]
  else
    let fields := Text.words s
    if fields.length ≠ 5 ∧ fields.length ≠ 6 then
      ["Cron expression '" ++ s ++ "' must have 5 or 6 fields, got " ++ Nat.repr fields.length]
    else if !fields.all (·.all isCronChar) then
      ["Cron expression '" ++ s ++ "' contains invalid characters"]
    else []

end Trigger

namespace UncheckedTrigger

def violations : UncheckedTrigger → List String
  | event (.text s) => Trigger.eventViolations s
  | event _ => ["Event trigger requires a non-empty 'event_type'"]
  | schedule (.text s) => Trigger.cronViolations s
  | schedule _ => ["Schedule trigger requires a non-empty 'cron'"]
  | other v => ["Unsupported trigger type '" ++ v.kindName ++ "'"]

end UncheckedTrigger

namespace Trigger

def unchecked : Trigger → UncheckedTrigger
  | event s => .event (.text s)
  | schedule s => .schedule (.text s)

/-- Every rule that a trigger breaks. -/
def violations (t : Trigger) : List String := t.unchecked.violations

def describe : Trigger → String
  | event s => "Event: " ++ s
  | schedule s => "Schedule: " ++ s

/-! ## Wire form -/

def element : Option Value := some (.text "trigger")

/-- Reads a trigger; fields of the other variant are ignored. -/
def ofValue (raw : Value) : Except Error Trigger :=
  match raw with
  | .object ms =>
    let kind := (Assoc.find? "kind" ms).getD .null
    if kind = .text "event" then
      match Assoc.find? "event_type" ms with
      | some (.text s) => .ok (event s)
      | _ => .error (.malformed element (.shape "Event trigger 'event_type'" "a string"))
    else if kind = .text "schedule" then
      match Assoc.find? "cron" ms with
      | some (.text s) => .ok (schedule s)
      | _ => .error (.malformed element (.shape "Schedule trigger 'cron'" "a string"))
    else .error (.malformed element (.unknownTriggerKind kind))
  | _ => .error (.malformed element (.shape "Trigger" "an object"))

def toValue : Trigger → Value
  | event s => .object [("kind", .text "event"), ("event_type", .text s)]
  | schedule s => .object [("kind", .text "schedule"), ("cron", .text s)]

/-! ## Lemmas -/

@[simp] theorem ofValue_toValue (t : Trigger) : ofValue t.toValue = .ok t := by
  cases t <;> simp [ofValue, toValue, Assoc.find?]

end Trigger

end Workflow
