import Workflow.Rest.Body
import Workflow.Rest.Route
import Workflow.Rest.View
import Workflow.Service
import Workflow.Value.Printer

/-!
# The interface over requests

A request is resolved to an endpoint, its parameters and its body are read, and
the endpoint's program is carried out.  A request that cannot be read is refused
before any step is taken.  Errors of the domain are shown in the response with
their cause; other faults only by the status.
-/

namespace Workflow.Rest

structure Request where
  method : String
  /-- the segments of the path -/
  path : List String
  /-- the last of several values of one name counts -/
  query : List (String × String)
  body : Body
  deriving DecidableEq, Repr

/-- Without a body, a response consists of its status. -/
structure Response where
  status : Nat
  body : Option Value
  deriving DecidableEq, Repr

/-- What a request that could be read leads to: the status on success, and what is to be done. -/
structure Plan where
  status : Nat
  program : Program Value

/-! ## Errors -/

namespace Response

def errorBody (sort : String) (e : Error) (details : Config) : Option Value :=
  some (.object ([("error", .text sort), ("message", .ofText? e.message?)] ++ details))

def ofError (e : Error) : Response :=
  match e with
  | .invalid violations =>
    ⟨400, errorBody "validation_failed" e [("violations", .list (violations.map .text))]⟩
  | .malformed element _ =>
    ⟨400, errorBody "compile_failed" e
      [("element_id", element.getD .null), ("violations", .list [.ofText? e.message?])]⟩
  | .unapproved .. | .unsigned .. | .inactive .. =>
    ⟨409, errorBody "governance" e [("reason", .ofText? e.reason?)]⟩
  | .stale _ expected actual =>
    ⟨409, errorBody "stale_definition" e
      [("expected_version", expected), ("actual_version", .int actual)]⟩
  | .refusedAction .. | .refusedPause .. | .runFinished .. =>
    ⟨409, errorBody "invalid_transition" e []⟩
  | .definitionMissing _ | .runMissing _ | .templateMissing _ => ⟨404, errorBody "not_found" e []⟩
  | .faulty _ => ⟨500, none⟩

def ofDetour : Detour → Response
  | .notFound => ⟨404, none⟩
  | .methodNotAllowed => ⟨405, none⟩
  | .methodsOnly => ⟨204, some .null⟩

/-- The response to a plan that was carried out; what cannot be written is not shown. -/
def ofResult (status : Nat) : Except Error Value → Response
  | .ok v => if v.isWritable then ⟨status, some v⟩ else ⟨500, none⟩
  | .error e => ofError e

end Response

/-! ## Parameters -/

/-- The last value of a parameter. -/
def Request.parameter? (r : Request) (key : String) : Option String :=
  Assoc.find? key r.query.reverse

/-- The limit of a list of runs, from 1 to 500. -/
def Request.limit? (r : Request) : Option Int :=
  match r.parameter? "limit" with
  | none => some Run.listLimit
  | some s => (Reader.integer (.text s)).filter fun n => 1 ≤ n ∧ n ≤ 500

/-- The members of the body, which must be an object. -/
def Request.members? (r : Request) : Option Config := r.body.value?.bind Value.members?

/-! ## Endpoints with a body -/

def createPlan (ms : Config) (now : Timestamp) : Option Plan := do
  let name ← Reader.required ms "name" Reader.text
  let org ← Reader.required ms "org_id" Reader.text
  let trigger ← Reader.required ms "trigger" Reader.object
  let graph ← Reader.default ms "graph" (Reader.optional Reader.object) none
  let description ← Reader.default ms "description" Reader.text ""
  let createdBy ← Reader.default ms "created_by" Reader.optionalText .null
  let program : Program Value := do
    let trigger ← Program.lift (Trigger.ofValue (.object trigger))
    let (graph, layout) ← match graph with
      | none => pure (Graph.empty, [])
      | some g => do
        let graph ← Program.lift (Graph.ofValue (.object g))
        let layout ← Program.lift (Layout.ofGraphValue (.object g))
        pure (graph, layout)
    let d ← Service.create ⟨.text name, trigger, ⟨.text org, createdBy⟩, graph, .text description,
      layout, none⟩ now
    pure d.view
  pure ⟨201, program⟩

def updatePlan (id : Uuid) (ms : Config) (now : Timestamp) : Option Plan := do
  let name ← Reader.default ms "name" Reader.optionalText .null
  let description ← Reader.default ms "description" Reader.optionalText .null
  let trigger ← Reader.default ms "trigger" (Reader.optional Reader.object) none
  let graph ← Reader.default ms "graph" (Reader.optional Reader.object) none
  let expected ← Reader.default ms "expected_version" Reader.optionalInteger .null
  let program : Program Value := do
    let trigger ← Program.lift (trigger.mapM fun t => Trigger.ofValue (.object t))
    let graph ← Program.lift (graph.mapM fun g => Graph.ofValue (.object g))
    let d ← Service.update id ⟨name, description, trigger, graph⟩ expected now
    pure d.view
  pure ⟨200, program⟩

def saveEditablePlan (id : Uuid) (ms : Config) (now : Timestamp) : Option Plan := do
  let nodes ← Reader.default ms "nodes" (Reader.listOf Reader.object) []
  let edges ← Reader.default ms "edges" (Reader.listOf Reader.object) []
  let expected ← Reader.default ms "expected_version" Reader.optionalInteger .null
  let program : Program Value := do
    let edited ← Program.lift (Editor.Graph.ofValue (.object
      [("nodes", .list (nodes.map .object)), ("edges", .list (edges.map .object))]))
    let d ← Service.saveEdited id edited expected now
    pure d.view
  pure ⟨200, program⟩

def governPlan (id : Uuid) (ms : Config) (now : Timestamp) : Option Plan := do
  let action ← Reader.required ms "action" (Reader.named Named.cases)
  let actor ← Reader.default ms "actor_id" Reader.optionalText .null
  let notes ← Reader.default ms "notes" Reader.optionalText .null
  pure ⟨200, do
    let e ← Service.govern action id actor notes now
    pure e.view⟩

/-- The context of a run to be started; neither the body nor the context need be there. -/
def startRunPlan (id : Uuid) (body : Value) (now : Timestamp) : Option Plan := do
  let context ← if Reader.isNull body then some none else do
    let ms ← body.members?
    Reader.default ms "context" (Reader.optional Reader.object) none
  pure ⟨201, do
    let r ← Service.startRun id ((context.map Value.object).getD .null) now
    pure r.view⟩

def completeRunPlan (id : Uuid) (ms : Config) (now : Timestamp) : Option Plan := do
  let outcome ← Reader.required ms "outcome" (Reader.named [RunStatus.success, RunStatus.failed])
  let error ← Reader.default ms "error" Reader.optionalText .null
  pure ⟨200, do
    let r ← Service.completeRun id (.text (Named.name outcome)) error now
    pure r.view⟩

def installPlan (key : String) (ms : Config) (now : Timestamp) : Option Plan := do
  let org ← Reader.required ms "org_id" Reader.text
  let user ← Reader.default ms "user_id" Reader.optionalText .null
  let name ← Reader.default ms "name" Reader.optionalText .null
  pure ⟨201, do
    let d ← Service.install (.text key) ⟨.text org, user⟩ name now
    pure d.view⟩

/-! ## Endpoints without a body -/

def editableProgram (canvas : Editor.Canvas) (id : Uuid) : Program Value := do
  let d ← Service.get id
  .draw d.drawsTaken fun draws => do
    let g ← Program.lift (d.edited canvas draws)
    pure (g.view d.version)

def listed {α : Type} (view : α → Value) (p : Program (List α)) : Program Value := do
  let found ← p
  pure (.list (found.map view))

def viewed {α : Type} (view : α → Value) (p : Program α) : Program Value := do
  let a ← p
  pure (view a)

/-- What an endpoint does with a request; none if the request cannot be read. -/
def Endpoint.plan? (e : Endpoint) (r : Request) (canvas : Editor.Canvas) (now : Timestamp) :
    Option Plan :=
  match e with
  | .listDefinitions =>
    some ⟨200, listed Definition.view (Service.list (.ofText? (r.parameter? "org_id")))⟩
  | .createDefinition => do createPlan (← r.members?) now
  | .getDefinition id => some ⟨200, viewed Definition.view (Service.get id)⟩
  | .updateDefinition id => do updatePlan id (← r.members?) now
  | .deleteDefinition id => some ⟨204, viewed (fun _ => .null) (Service.delete id now)⟩
  | .getEditable id => some ⟨200, editableProgram canvas id⟩
  | .saveEditable id => do saveEditablePlan id (← r.members?) now
  | .getGraph id => some ⟨200, do
      let d ← Service.get id
      Program.lift d.graph.view⟩
  | .govern id => do governPlan id (← r.members?) now
  | .listApprovals id => some ⟨200, listed ApprovalEvent.view (Service.approvals id)⟩
  | .activate id => some ⟨200, viewed Definition.view (Service.activate id now)⟩
  | .pause id => some ⟨200, viewed Definition.view (Service.pause id now)⟩
  | .listRuns id => do
    let limit ← r.limit?
    some ⟨200, do
      let _ ← Service.get id
      listed Run.view (Service.listRuns id (.int limit))⟩
  | .startRun id => do startRunPlan id (← r.body.value?) now
  | .summarizeRuns id => some ⟨200, viewed RunSummary.view (Service.summary id)⟩
  | .listOrgRuns => do
    let org ← r.parameter? "org_id"
    let limit ← r.limit?
    some ⟨200, listed Run.view (Service.listOrgRuns (.text org) (.int limit))⟩
  | .getRun id => some ⟨200, viewed Run.view (Service.getRun id)⟩
  | .completeRun id => do completeRunPlan id (← r.members?) now
  | .cancelRun id => some ⟨200, viewed Run.view (Service.cancelRun id now)⟩
  | .listTemplates => some ⟨200, listed Template.view Service.templates⟩
  | .installTemplate key => do installPlan key (← r.members?) now

/-! ## Requests -/

/-- What is to be done for a request, or the response that refuses it. -/
def Request.plan (r : Request) (canvas : Editor.Canvas) (now : Timestamp) : Except Response Plan :=
  match Route.resolve r.method r.path with
  | .error detour => .error (.ofDetour detour)
  | .ok endpoint =>
    match endpoint.plan? r canvas now with
    | some plan => .ok plan
    | none => .error ⟨400, none⟩

/-- Carries out a request. -/
def Request.serve {σ : Type} [Store.Backend σ] (r : Request) (canvas : Editor.Canvas)
    (now : Timestamp) (sources : Program.Sources) (s : Program.Session σ) :
    Response × List Event × Program.Session σ :=
  match r.plan canvas now with
  | .error response => (response, [], s)
  | .ok plan =>
    let out := plan.program.run sources s
    (.ofResult plan.status out.result, out.events, out.session)

end Workflow.Rest
