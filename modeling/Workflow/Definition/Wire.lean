import Workflow.Definition.Basic

/-!
# Wire form of definitions

A definition is written as an object with its graph, its layout and its whole
history.  Reading is lenient with fields that may be absent and converts the
others in a fixed order, so that of two faults the earlier one is reported.
-/

namespace Workflow

/-! ## Equality -/

def Position.same (a b : Position) : Bool := a.x.same b.x && a.y.same b.y

namespace Layout

def same (a b : Layout) : Bool :=
  a.length = b.length && a.all fun (id, p) =>
    match Assoc.find? id b with
    | some q => p.same q
    | none => false

/-! ## Layouts -/

/-- A place, whose coordinates are converted to doubles. -/
def positionOf (raw : Value) : Except Error Position :=
  match raw with
  | .object ms => do
    let x ← (← requireField "x" ms).toReal
    let y ← (← requireField "y" ms).toReal
    pure ⟨.float x, .float y⟩
  | _ => .error (.faulty .notCollection)

/-- A layout; what counts as absent is an empty one. -/
def ofValue (raw : Value) : Except Error Layout :=
  match raw.orElse (.object []) with
  | .object ms => ms.mapM fun (id, v) => do
    let p ← positionOf v
    pure (id, p)
  | _ => .error (.faulty .notRecord)

end Layout

/-! ## Histories -/

/-- A history; what counts as absent is an empty one. -/
def ApprovalEvent.historyOf (raw : Value) : Except Error (List ApprovalEvent) :=
  match raw.orElse (.list []) with
  | .list events => events.mapM ApprovalEvent.ofValue
  | _ => .error (.faulty .notCollection)

/-! ## Definitions -/

namespace Definition

def toValue (d : Definition) : Value :=
  .object [
    ("id", .text d.id.text),
    ("org_id", d.org),
    ("name", d.name),
    ("description", d.description),
    ("lifecycle_status", .text (Named.name d.lifecycle)),
    ("approval_status", .text (Named.name d.approval)),
    ("trigger", d.trigger.toValue),
    ("graph", d.graph.toValue []),
    ("layout", d.layout.toValue),
    ("approval_history", .list (d.history.map ApprovalEvent.toValue)),
    ("version", .int d.version),
    ("created_by", d.createdBy),
    ("created_at", .text d.createdAt.text),
    ("updated_at", .text d.updatedAt.text),
    ("source_template_id", .ofText? (d.template.map Uuid.text))]

/-- A time, `now` if it counts as absent. -/
def timeOf (raw : Value) (now : Timestamp) : Except Error Timestamp :=
  if raw.isTruthy then Timestamp.ofValue raw else .ok now

/-- The identifier of a template, if there is one. -/
def templateOf (raw : Value) : Except Error (Option Uuid) :=
  if raw.isTruthy then (Uuid.ofValue raw).map some else .ok none

/-- The case that a member names, `absent` if it is missing. -/
def statusOf {α : Type} [Named α] (key : String) (absent : α) (ms : Config) : Except Error α :=
  match Assoc.find? key ms with
  | none => .ok absent
  | some v => Named.read v

def ofMembers (ms : Config) (now : Timestamp) : Except Error Definition := do
  let id ← Uuid.ofValue (← requireField "id" ms)
  let org ← requireField "org_id" ms
  let name ← requireField "name" ms
  let lifecycle ← statusOf "lifecycle_status" .draft ms
  let approval ← statusOf "approval_status" .draft ms
  let trigger ← Trigger.ofValue (← requireField "trigger" ms)
  let graph ← Graph.ofValue ((Value.at ms "graph").orElse (.object []))
  let layout ← Layout.ofValue (Value.at ms "layout")
  let history ← ApprovalEvent.historyOf (Value.at ms "approval_history")
  let version ← ((Assoc.find? "version" ms).getD (.int 1)).toInteger
  let createdAt ← timeOf (Value.at ms "created_at") now
  let updatedAt ← timeOf (Value.at ms "updated_at") now
  let template ← templateOf (Value.at ms "source_template_id")
  pure ⟨id, org, name, (Value.at ms "description").orElse (.text ""), trigger, graph, lifecycle,
    approval, layout, history, version, Value.at ms "created_by", createdAt, updatedAt, template⟩

def ofValue (raw : Value) (now : Timestamp) : Except Error Definition :=
  match raw with
  | .object ms => ofMembers ms now
  | _ => .error (.faulty .notRecord)

/-- Whether two definitions agree in all fields, numbers of layouts by their value. -/
def same (a b : Definition) : Bool :=
  { a with layout := [], graph := .empty } = { b with layout := [], graph := .empty }
    && a.layout.same b.layout && a.graph.same b.graph

/-- Whether a definition is read back from its wire form. -/
def isReadBack (d : Definition) (now : Timestamp) : Except Error Bool := do
  let e ← ofValue d.toValue now
  pure (e.same d)

end Definition

end Workflow
