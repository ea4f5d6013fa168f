import Workflow.Service

/-!
# Calls of the service

Everything that a user can ask of the service, as data, and what is replied.  A
call is carried out as a program; most of the programs that write a definition
write what the call makes of the definition that they have loaded.
-/

namespace Workflow.Service

inductive Call where
  | create (p : Definition.Proposal)
  | get (id : Uuid)
  | list (org : Value)
  | update (id : Uuid) (r : Revision) (expected : Value)
  | editorView (id : Uuid)
  | saveEdited (id : Uuid) (edited : Editor.Graph) (expected : Value)
  | delete (id : Uuid)
  | govern (action : ApprovalAction) (id : Uuid) (actor notes : Value)
  | approvals (id : Uuid)
  | activate (id : Uuid)
  | pause (id : Uuid)
  | templates
  | install (key : TemplateKey) (context : Context) (name : Value)
  | startRun (id : Uuid) (context : Value)
  | completeRun (id : Uuid) (outcome error : Value)
  | cancelRun (id : Uuid)
  | getRun (id : Uuid)
  | listRuns (id : Uuid) (limit : Value)
  | listOrgRuns (org limit : Value)
  | summary (id : Uuid)
  deriving DecidableEq, Repr

inductive Reply where
  | nothing
  | definition (d : Definition)
  | definitions (ds : List Definition)
  | edited (g : Editor.Graph)
  | event (e : ApprovalEvent)
  | events (es : List ApprovalEvent)
  | templates (ts : List Template)
  | run (r : Run)
  | runs (rs : List Run)
  | summary (s : RunSummary)
  deriving DecidableEq, Repr

namespace Call

/-- How a call is carried out. -/
def program (canvas : Editor.Canvas) (now : Timestamp) : Call → Program Reply
  | create p => do pure (.definition (← Service.create p now))
  | get id => do pure (.definition (← Service.get id))
  | list org => do pure (.definitions (← Service.list org))
  | update id r expected => do pure (.definition (← Service.update id r expected now))
  | editorView id => do pure (.edited (← Service.editorView canvas id))
  | saveEdited id edited expected => do
    pure (.definition (← Service.saveEdited id edited expected now))
  | delete id => do
    Service.delete id now
    pure .nothing
  | govern action id actor notes => do
    pure (.event (← Service.govern action id actor notes now))
  | approvals id => do pure (.events (← Service.approvals id))
  | activate id => do pure (.definition (← Service.activate id now))
  | pause id => do pure (.definition (← Service.pause id now))
  | templates => do pure (.templates (← Service.templates))
  | install key context name => do
    pure (.definition (← Service.install key context name now))
  | startRun id context => do pure (.run (← Service.startRun id context now))
  | completeRun id outcome error => do
    pure (.run (← Service.completeRun id outcome error now))
  | cancelRun id => do pure (.run (← Service.cancelRun id now))
  | getRun id => do pure (.run (← Service.getRun id))
  | listRuns id limit => do pure (.runs (← Service.listRuns id limit))
  | listOrgRuns org limit => do pure (.runs (← Service.listOrgRuns org limit))
  | summary id => do pure (.summary (← Service.summary id))

/-- What a call makes of a definition that it has loaded. -/
def change (now : Timestamp) (d : Definition) : Call → Except Error Definition
  | update _ r _ => r.apply d now
  | saveEdited _ edited _ => d.applyEdited edited now
  | govern action _ actor notes => (d.govern action actor notes now).map Prod.fst
  | activate _ => d.activate now
  | pause _ => d.pause now
  | create _ | get _ | list _ | editorView _ | delete _ | approvals _ | templates | install ..
  | startRun .. | completeRun .. | cancelRun _ | getRun _ | listRuns .. | listOrgRuns ..
  | summary _ => .ok d

end Call

end Workflow.Service
