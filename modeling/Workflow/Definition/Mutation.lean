import Workflow.Definition.Operation

/-!
# Changing a definition in place

A definition is an object whose fields are written one after the other.  What was
written before an operation fails stays written, so it matters that checks come first.
Each operation is given here by its checks and its writes, in the order in which they
are made.

    (op.perform now).runOn d is how an operation ends, and what it leaves
    d.after ops is what operations leave that are tried one after the other
-/

namespace Workflow.Definition

/-- A computation that writes to a definition and may fail at any point. -/
abbrev Mutation := ExceptT Error (StateM Definition)

namespace Mutation

/-- How a computation ends, and the definition as it is then. -/
def runOn {α : Type} (m : Mutation α) (d : Definition) : Except Error α × Definition := m.run.run d

/-- Goes on with the result of a check, if it has one. -/
def check {α : Type} (x : Except Error α) : Mutation α := ExceptT.mk (pure x)

def touch (now : Timestamp) : Mutation Unit := do
  modify ({ · with updatedAt := now })
  modify fun d => { d with version := d.version + 1 }

/-! ## Editing -/

def rename (name description : Value) (now : Timestamp) : Mutation Unit := do
  match ← check (filledName? name) with
  | none => throw (.invalid [emptyName])
  | some name => do
    modify ({ · with name := .text name })
    if description ≠ .null then
      modify ({ · with description := description })
    touch now

def updateTrigger (trigger : Trigger) (now : Timestamp) : Mutation Unit := do
  check (refuse trigger.violations)
  modify ({ · with trigger := trigger })
  touch now

/-- The graph has been written when the places turn out to be none. -/
def updateGraph (graph : Graph) (places : Option Places) (now : Timestamp) : Mutation Unit := do
  let violations ← check graph.validate
  check (refuse violations)
  let d ← get
  if d.isActive && graph.isEmpty then
    throw (.invalid ["An active automation cannot have an empty graph; pause it first"])
  else do
    modify ({ · with graph := graph })
    let layout ← check ((places.getD (.ofLayout d.layout)).prune graph)
    modify ({ · with layout := layout })
    touch now

def applyEdited (edited : Editor.Graph) (now : Timestamp) : Mutation Unit := do
  let graph ← check edited.compileBounded
  updateGraph graph (some (.ofLayout edited.layout)) now

/-! ## Approval -/

def record (e : ApprovalEvent) (now : Timestamp) : Mutation Unit := do
  modify fun d => { d with history := d.history ++ [e] }
  modify ({ · with approval := e.target })
  touch now

/-- A request pauses an active definition before it is recorded. -/
def govern (action : ApprovalAction) (actor notes : Value) (now : Timestamp) :
    Mutation ApprovalEvent := do
  let d ← get
  let e ← check (ApprovalTable.standard.transition d.id d.approval action actor notes now)
  if action = .request ∧ d.isActive then
    modify ({ · with lifecycle := .paused })
  record e now
  pure e

/-! ## Lifecycle -/

def activate (now : Timestamp) : Mutation Unit := do
  let d ← get
  if !d.approval.permitsActivation then throw (.unapproved d.id d.approval)
  else if d.isActive then pure ()
  else do
    let vacant :=
      if d.graph.isEmpty then ["Graph has no nodes; add at least one step before activating"]
      else []
    let violations ← check d.validate
    check (refuse (violations ++ vacant))
    modify ({ · with lifecycle := .active })
    touch now

def pause (now : Timestamp) : Mutation Unit := do
  let d ← get
  if d.isActive then do
    modify ({ · with lifecycle := .paused })
    touch now
  else throw (.refusedPause d.id d.lifecycle)

end Mutation

namespace Operation

def perform (op : Operation) (now : Timestamp) : Mutation Unit :=
  match op with
  | rename name description => Mutation.rename name description now
  | updateTrigger trigger => Mutation.updateTrigger trigger now
  | updateGraph graph places => Mutation.updateGraph graph places now
  | applyEdited edited => Mutation.applyEdited edited now
  | govern action actor notes => do
    let _ ← Mutation.govern action actor notes now
  | activate => Mutation.activate now
  | pause => Mutation.pause now

end Operation

/-- The definition as an operation leaves it, whatever comes of it. -/
def attempt (d : Definition) (op : Operation) (now : Timestamp) : Definition :=
  ((op.perform now).runOn d).2

/-- The definition after several operations were tried, each at its time. -/
def after (d : Definition) : List (Timestamp × Operation) → Definition
  | [] => d
  | (now, op) :: rest => after (d.attempt op now) rest

end Workflow.Definition
