import Workflow.Approval
import Workflow.Editor.Draft
import Workflow.Editor.View
import Workflow.Trigger

/-!
# Definitions of automations

A definition owns the trigger, the graph, the editor's layout and the approval
history of one automation.  Every change goes through an operation of this
module, which either fails and leaves the definition as it was, or returns the
changed one with its version raised and its time of change set.

    an active definition is approved
    approval = the target of the last event of the history
-/

namespace Workflow

/-- The organization and the user on whose behalf something is created. -/
structure Context where
  org : Value
  user : Value
  deriving DecidableEq, Repr

structure Definition where
  id : Uuid
  org : Value
  name : Value
  description : Value
  trigger : Trigger
  graph : Graph
  lifecycle : Lifecycle
  approval : ApprovalStatus
  layout : Layout
  history : List ApprovalEvent
  version : Int
  createdBy : Value
  createdAt : Timestamp
  updatedAt : Timestamp
  /-- the template it was installed from -/
  template : Option Uuid
  deriving DecidableEq, Repr

/-- The error that lists violations, if there are any. -/
def refuse (violations : List String) : Except Error Unit :=
  if violations.isEmpty then .ok () else .error (.invalid violations)

namespace Definition

/-! ## Creation -/

def emptyName : String := "Automation name must not be empty"

/-- A name without the white space around it; none if it is blank or absent. -/
def filledName? (name : Value) : Except Error (Option String) := do
  if ← ApprovalTable.isSignature name then
    match name with
    | .text s => pure (some (Text.strip s))
    | _ => pure none
  else pure none

/-- What a definition is created from. -/
structure Proposal where
  name : Value
  trigger : Trigger
  context : Context
  graph : Graph
  description : Value
  layout : Layout
  template : Option Uuid
  deriving DecidableEq, Repr

namespace Proposal

/-- The name under which a proposal is accepted. -/
def accept (p : Proposal) : Except Error String := do
  let violations := p.trigger.violations ++ (← p.graph.validate)
  match ← filledName? p.name with
  | some name => do
    refuse violations
    pure name
  | none => .error (.invalid (emptyName :: violations))

/-- The definition that an accepted proposal becomes. -/
def define (p : Proposal) (name : String) (id : Uuid) (now : Timestamp) : Definition where
  id := id
  org := p.context.org
  name := .text name
  description := p.description
  trigger := p.trigger
  graph := p.graph
  lifecycle := .draft
  approval := .draft
  layout := p.layout.prune p.graph
  history := []
  version := 1
  createdBy := p.context.user
  createdAt := now
  updatedAt := now
  template := p.template

end Proposal

def create (p : Proposal) (id : Uuid) (now : Timestamp) : Except Error Definition := do
  let name ← p.accept
  pure (p.define name id now)

/-! ## Editing -/

def isActive (d : Definition) : Bool := d.lifecycle = .active

/-- Marks a change. -/
def touch (d : Definition) (now : Timestamp) : Definition :=
  { d with version := d.version + 1, updatedAt := now }

/-- Changes the name and, unless it is null, the description. -/
def rename (d : Definition) (name description : Value) (now : Timestamp) :
    Except Error Definition := do
  match ← filledName? name with
  | none => .error (.invalid [emptyName])
  | some name =>
    let description := if description = .null then d.description else description
    pure ({ d with name := .text name, description := description }.touch now)

def updateTrigger (d : Definition) (trigger : Trigger) (now : Timestamp) :
    Except Error Definition := do
  refuse trigger.violations
  pure ({ d with trigger := trigger }.touch now)

/-- Replaces the graph.  Unless places are given, those of steps that stay are kept. -/
def updateGraph (d : Definition) (graph : Graph) (places : Option Places) (now : Timestamp) :
    Except Error Definition := do
  refuse (← graph.validate)
  if d.isActive && graph.isEmpty then
    .error (.invalid ["An active automation cannot have an empty graph; pause it first"])
  else do
    let layout ← (places.getD (.ofLayout d.layout)).prune graph
    pure ({ d with graph := graph, layout := layout }.touch now)

/-- The graph as the editor shows it. -/
def edited (d : Definition) (canvas : Editor.Canvas) (draws : Nat → Number) :
    Except Error Editor.Graph :=
  Editor.Graph.ofGraph canvas draws d.layout d.graph

/-- The number of draws that `edited` takes. -/
def drawsTaken (d : Definition) : Nat := Editor.drawsTaken d.layout d.graph.nodes

/-- Takes over what the editor made of the graph. -/
def applyEdited (d : Definition) (edited : Editor.Graph) (now : Timestamp) :
    Except Error Definition := do
  let graph ← edited.compileBounded
  d.updateGraph graph (some (.ofLayout edited.layout)) now

/-- What is reported of trigger and graph. -/
def validate (d : Definition) : Except Error (List String) := do
  pure (d.trigger.violations ++ (← d.graph.validate))

/-! ## Approval -/

/-- Appends an event to the history. -/
def record (d : Definition) (e : ApprovalEvent) (now : Timestamp) : Definition :=
  { d with history := d.history ++ [e], approval := e.target }.touch now

/-- An active definition is paused once its approval is requested anew. -/
def suspend (d : Definition) (action : ApprovalAction) : Definition :=
  if action = .request ∧ d.isActive then { d with lifecycle := .paused } else d

/-- Takes an action on the approval and records it. -/
def govern (d : Definition) (action : ApprovalAction) (actor notes : Value) (now : Timestamp) :
    Except Error (Definition × ApprovalEvent) := do
  let e ← ApprovalTable.standard.transition d.id d.approval action actor notes now
  pure ((d.suspend action).record e now, e)

/-! ## Lifecycle -/

/-- Makes the automation react to its trigger; an active one is left as it is. -/
def activate (d : Definition) (now : Timestamp) : Except Error Definition :=
  if !d.approval.permitsActivation then .error (.unapproved d.id d.approval)
  else if d.isActive then .ok d
  else do
    let vacant :=
      if d.graph.isEmpty then ["Graph has no nodes; add at least one step before activating"]
      else []
    refuse ((← d.validate) ++ vacant)
    pure ({ d with lifecycle := .active }.touch now)

def pause (d : Definition) (now : Timestamp) : Except Error Definition :=
  if d.isActive then .ok ({ d with lifecycle := .paused }.touch now)
  else .error (.refusedPause d.id d.lifecycle)

end Definition

end Workflow
