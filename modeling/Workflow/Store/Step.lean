import Workflow.Run
import Workflow.Template.Catalog

/-!
# Steps of a store

A store keeps definitions, approval trails, runs and templates.  It is used by
atomic steps: each reads or writes at once and answers with a value of a type
that depends on the step, or with an error.  Whatever happens between two steps
of one client may be a step of another.
-/

namespace Workflow.Store

inductive Step where
  | load (definition : Uuid)
  /-- writes a definition; the stored one must have the expected version, unless it is null -/
  | save (definition : Definition) (expected : Value)
  /-- removes a definition with its trail and its runs -/
  | delete (definition : Uuid)
  /-- definitions, all if the organization is null, last changed first -/
  | definitions (org : Value)
  | appendApproval (event : ApprovalEvent)
  /-- the trail of a definition, oldest first -/
  | approvals (definition : Uuid)
  | appendRun (run : Run)
  /-- replaces a running run by a finished one -/
  | updateRun (run : Run)
  | run (run : Uuid)
  /-- the runs of a definition, newest first -/
  | runs (definition : Uuid) (limit : Value)
  /-- the runs of an organization, newest first -/
  | orgRuns (org : Value) (limit : Value)
  | summary (definition : Uuid)
  | templates
  | template (key : TemplateKey)
  deriving DecidableEq, Repr

/-- What a step answers. -/
abbrev Step.Answer : Step → Type
  | .load _ => Definition
  | .save .. => Unit
  | .delete _ => Unit
  | .definitions _ => List Definition
  | .appendApproval _ => Unit
  | .approvals _ => List ApprovalEvent
  | .appendRun _ => Unit
  | .updateRun _ => Unit
  | .run _ => Run
  | .runs .. => List Run
  | .orgRuns .. => List Run
  | .summary _ => RunSummary
  | .templates => List Template
  | .template _ => Template

/-- How a store of the given states takes a step. -/
class Backend (σ : Type) where
  take : (s : Step) → σ → Except Error s.Answer × σ

/-- What an update of a run sets out to do. -/
def actionOf (r : Run) : RunAction := if r.status = .cancelled then .cancel else .complete

end Workflow.Store
