import Workflow.Program

/-!
# The service

What a user can do with automations.  A change of a definition is two steps, load
and save: it is computed on the loaded copy and written only if the stored
version is still the loaded one, so no change is lost.  Each change that succeeds
is announced.
-/

namespace Workflow.Service

open Store (Step)
open Program (step lift tell)

/-! ## Changes -/

/-- Applies a change to a definition and saves it over the version that was loaded. -/
def mutate {α : Type} (id : Uuid) (expected : Value)
    (change : Definition → Except Error (Definition × α)) : Program (Definition × α) := do
  let d ← step (.load id)
  let version : Value := .int d.version
  if expected ≠ .null ∧ !expected.same version then .fail (.stale id expected d.version)
  else
    let (changed, a) ← lift (change d)
    let () ← step (.save changed version)
    pure (changed, a)

/-- A change that leaves nothing but the changed definition. -/
def modify (id : Uuid) (expected : Value) (change : Definition → Except Error Definition) :
    Program Definition := do
  let (d, ()) ← mutate id expected fun d => (change d).map (·, ())
  pure d

/-! ## Definitions -/

/-- Accepts a proposal, names it by a fresh identifier and stores it. -/
def found (p : Definition.Proposal) (now : Timestamp) : Program Definition := do
  let name ← lift p.accept
  let id ← Program.newId
  let d := p.define name id now
  let () ← step (.save d .null)
  pure d

def create (p : Definition.Proposal) (now : Timestamp) : Program Definition := found p now

def get (id : Uuid) : Program Definition := step (.load id)

def list (org : Value) : Program (List Definition) := step (.definitions org)

/-- The parts of a definition to be changed in one write; null stands for no change. -/
structure Revision where
  name : Value
  description : Value
  trigger : Option Trigger
  graph : Option Graph
  deriving DecidableEq, Repr

namespace Revision

def rename (r : Revision) (d : Definition) (now : Timestamp) : Except Error Definition :=
  if r.name = .null ∧ r.description = .null then .ok d
  else d.rename (if r.name = .null then d.name else r.name) r.description now

def apply (r : Revision) (d : Definition) (now : Timestamp) : Except Error Definition := do
  let d ← r.rename d now
  let d ← match r.trigger with
    | none => pure d
    | some t => d.updateTrigger t now
  match r.graph with
  | none => pure d
  | some g => d.updateGraph g none now

end Revision

def update (id : Uuid) (r : Revision) (expected : Value) (now : Timestamp) :
    Program Definition :=
  modify id expected fun d => r.apply d now

/-- The graph as the editor shows it. -/
def editorView (canvas : Editor.Canvas) (id : Uuid) : Program Editor.Graph := do
  let d ← step (.load id)
  .draw d.drawsTaken fun draws => lift (d.edited canvas draws)

def saveEdited (id : Uuid) (edited : Editor.Graph) (expected : Value) (now : Timestamp) :
    Program Definition :=
  modify id expected fun d => d.applyEdited edited now

def delete (id : Uuid) (now : Timestamp) : Program Unit := do
  let d ← step (.load id)
  let () ← step (.delete id)
  tell id now (.deleted d.org)

/-! ## Approval -/

/-- Takes an action on the approval, records it and announces it.  That a request has
paused an active automation is announced first. -/
def govern (action : ApprovalAction) (id : Uuid) (actor notes : Value) (now : Timestamp) :
    Program ApprovalEvent := do
  let (_, wasActive, e) ← mutate id .null fun d => do
    let (changed, e) ← d.govern action actor notes now
    pure (changed, d.isActive, e)
  let () ← step (.appendApproval e)
  if action = .request ∧ wasActive then tell id now (.paused (some "re-approval requested"))
  tell id now (.ofAction action actor notes)
  pure e

def approvals (id : Uuid) : Program (List ApprovalEvent) := do
  let _ ← step (.load id)
  step (.approvals id)

/-! ## Lifecycle -/

/-- Activates a definition; only what was not active yet is announced. -/
def activate (id : Uuid) (now : Timestamp) : Program Definition := do
  let (d, wasActive) ← mutate id .null fun d => (d.activate now).map (·, d.isActive)
  if wasActive then pure d
  else
    tell id now .activated
    pure d

def pause (id : Uuid) (now : Timestamp) : Program Definition := do
  let d ← modify id .null (·.pause now)
  tell id now (.paused none)
  pure d

/-! ## Templates -/

def templates : Program (List Template) := step .templates

def install (key : TemplateKey) (context : Context) (name : Value) (now : Timestamp) :
    Program Definition := do
  let t ← step (.template key)
  let d ← found (t.proposal context name) now
  tell d.id now (.installed t.id d.org)
  pure d

/-! ## Runs -/

/-- Records the start of a run. -/
def recordRun (definition : Uuid) (org context : Value) (now : Timestamp) : Program Run := do
  let context ← lift context.toObject
  let id ← Program.newId
  let r := Run.start id definition org (.object context) now
  let () ← step (.appendRun r)
  tell definition now (.runStarted id)
  pure r

/-- Starts a run of an active automation. -/
def startRun (id : Uuid) (context : Value) (now : Timestamp) : Program Run := do
  let d ← step (.load id)
  if d.isActive then recordRun id d.org context now
  else .fail (.inactive id d.lifecycle)

/-- Finishes a run and announces how. -/
def finishRun (id : Uuid) (now : Timestamp) (finish : Run → Except Error Run)
    (happening : Run → Happening) : Program Run := do
  let r ← step (.run id)
  let finished ← lift (finish r)
  let () ← step (.updateRun finished)
  tell finished.definition now (happening finished)
  pure finished

def completeRun (id : Uuid) (outcome error : Value) (now : Timestamp) : Program Run :=
  finishRun id now
    (fun r => do r.complete (← Named.read outcome) error now)
    (fun r => .runCompleted id r.status r.lastError)

def cancelRun (id : Uuid) (now : Timestamp) : Program Run :=
  finishRun id now (·.cancel now) (fun _ => .runCancelled id)

def getRun (id : Uuid) : Program Run := step (.run id)

def listRuns (id : Uuid) (limit : Value) : Program (List Run) := step (.runs id limit)

def listOrgRuns (org : Value) (limit : Value) : Program (List Run) := step (.orgRuns org limit)

/-- The statistics of an automation that is stored. -/
def summary (id : Uuid) : Program RunSummary := do
  let _ ← step (.load id)
  step (.summary id)

end Workflow.Service
