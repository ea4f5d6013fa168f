import Workflow.Value.Basic

/-!
# Kinds, statuses and actions

The closed vocabularies of the domain.  Each has one name per case, and a name
belongs to at most one case.

    ofName? (name a) = some a          (NodeKind.ofName?_name and its fellows)
-/

namespace Workflow

/-- A vocabulary: its title and the name of each case. -/
class Named (α : Type) where
  title : String
  cases : List α
  name : α → String

namespace Named

variable {α : Type} [Named α]

def ofName? (s : String) : Option α := (cases (α := α)).find? (name · = s)

/-- The case that a value names. -/
def ofValue? : Value → Option α
  | .text s => ofName? s
  | _ => none

end Named

/-- What a step of a graph does. -/
inductive NodeKind where
  | action | condition | delay | split
  deriving DecidableEq, Repr, Inhabited

/-- Whether a definition reacts to its trigger: never yet, not now, or now. -/
inductive Lifecycle where
  | draft | paused | active
  deriving DecidableEq, Repr, Inhabited

inductive ApprovalStatus where
  | draft | pending | approved | rejected
  deriving DecidableEq, Repr, Inhabited

inductive ApprovalAction where
  | request | approve | reject
  deriving DecidableEq, Repr, Inhabited

inductive RunStatus where
  | running | success | failed | cancelled
  deriving DecidableEq, Repr, Inhabited

/-- How a running run is ended. -/
inductive RunAction where
  | complete | cancel
  deriving DecidableEq, Repr, Inhabited

instance : Named NodeKind where
  title := "NodeType"
  cases := [.action, .condition, .delay, .split]
  name
    | .action => "action"
    | .condition => "condition"
    | .delay => "delay"
    | .split => "split"

instance : Named Lifecycle where
  title := "LifecycleStatus"
  cases := [.draft, .paused, .active]
  name
    | .draft => "draft"
    | .paused => "paused"
    | .active => "active"

instance : Named ApprovalStatus where
  title := "ApprovalStatus"
  cases := [.draft, .pending, .approved, .rejected]
  name
    | .draft => "draft"
    | .pending => "pending"
    | .approved => "approved"
    | .rejected => "rejected"

instance : Named ApprovalAction where
  title := "ApprovalAction"
  cases := [.request, .approve, .reject]
  name
    | .request => "request"
    | .approve => "approve"
    | .reject => "reject"

instance : Named RunStatus where
  title := "RunStatus"
  cases := [.running, .success, .failed, .cancelled]
  name
    | .running => "running"
    | .success => "success"
    | .failed => "failed"
    | .cancelled => "cancelled"

instance : Named RunAction where
  title := "RunAction"
  cases := [.complete, .cancel]
  name
    | .complete => "complete"
    | .cancel => "cancel"

export Named (name)

/-- A run leaves `running` once and then never changes. -/
def RunStatus.isTerminal : RunStatus → Bool
  | .running => false
  | .success | .failed | .cancelled => true

/-! ## Lemmas -/

theorem NodeKind.ofName?_name (k : NodeKind) : Named.ofName? (name k) = some k := by
  cases k <;> decide

theorem Lifecycle.ofName?_name (s : Lifecycle) : Named.ofName? (name s) = some s := by
  cases s <;> decide

theorem ApprovalStatus.ofName?_name (s : ApprovalStatus) : Named.ofName? (name s) = some s := by
  cases s <;> decide

theorem ApprovalAction.ofName?_name (a : ApprovalAction) : Named.ofName? (name a) = some a := by
  cases a <;> decide

theorem RunStatus.ofName?_name (s : RunStatus) : Named.ofName? (name s) = some s := by
  cases s <;> decide

end Workflow
