import Workflow.Approval
import Workflow.Run

/-!
# Notifications

What a notifier is told after each change: which automation it is about, when it
happened, and what happened.
-/

namespace Workflow

inductive Happening where
  | approvalRequested (actor notes : Value)
  | approved (actor notes : Value)
  | rejected (actor notes : Value)
  | activated
  | paused (reason : Option String)
  | deleted (org : Value)
  | installed (template : Uuid) (org : Value)
  | runStarted (run : Uuid)
  | runCompleted (run : Uuid) (status : RunStatus) (error : Value)
  | runCancelled (run : Uuid)
  deriving DecidableEq, Repr

structure Event where
  definition : Uuid
  time : Timestamp
  happening : Happening
  deriving DecidableEq, Repr

namespace Happening

/-- What an action on the approval is announced as. -/
def ofAction (action : ApprovalAction) (actor notes : Value) : Happening :=
  match action with
  | .request => .approvalRequested actor notes
  | .approve => .approved actor notes
  | .reject => .rejected actor notes

def title : Happening → String
  | approvalRequested .. => "ApprovalRequested"
  | approved .. => "AutomationApproved"
  | rejected .. => "AutomationRejected"
  | activated => "AutomationActivated"
  | paused .. => "AutomationPaused"
  | deleted .. => "AutomationDeleted"
  | installed .. => "TemplateInstalled"
  | runStarted .. => "RunStarted"
  | runCompleted .. => "RunCompleted"
  | runCancelled .. => "RunCancelled"

def members : Happening → Config
  | approvalRequested actor notes | approved actor notes | rejected actor notes =>
    [("actor_id", actor), ("notes", notes)]
  | activated => []
  | paused reason => [("reason", .ofText? reason)]
  | deleted org => [("org_id", org)]
  | installed template org => [("template_id", .text template.text), ("org_id", org)]
  | runStarted run | runCancelled run => [("run_id", .text run.text)]
  | runCompleted run status error =>
    [("run_id", .text run.text), ("status", .text (Named.name status)), ("error", error)]

end Happening

def Event.toValue (e : Event) : Value :=
  .object ([("event", .text e.happening.title), ("workflow_id", .text e.definition.text),
    ("timestamp", .text e.time.text)] ++ e.happening.members)

end Workflow
