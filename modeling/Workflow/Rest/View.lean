import Workflow.Definition.Wire
import Workflow.Graph.Mermaid
import Workflow.Run
import Workflow.Template.Basic

/-!
# Representations in responses

What a response shows of a definition, an approval event, a run or a template.
Times are in the form of responses, and graphs carry no positions.
-/

namespace Workflow

/-- A time in a response, null if there is none. -/
def Timestamp.view (t : Option Timestamp) : Value := .ofText? (t.map Timestamp.responseText)

def Definition.view (d : Definition) : Value :=
  .object [
    ("id", .text d.id.text),
    ("org_id", d.org),
    ("name", d.name),
    ("description", d.description),
    ("lifecycle_status", .text (Named.name d.lifecycle)),
    ("approval_status", .text (Named.name d.approval)),
    ("trigger", d.trigger.toValue),
    ("trigger_summary", .text d.trigger.describe),
    ("graph", d.graph.toValue []),
    ("node_count", .int d.graph.nodes.length),
    ("edge_count", .int d.graph.edges.length),
    ("version", .int d.version),
    ("created_at", Timestamp.view d.createdAt),
    ("updated_at", Timestamp.view d.updatedAt),
    ("created_by", d.createdBy),
    ("source_template_id", .ofText? (d.template.map Uuid.text))]

def ApprovalEvent.view (e : ApprovalEvent) : Value :=
  .object [
    ("workflow_id", .text e.definition.text),
    ("action", .text (Named.name e.action)),
    ("from_status", .text (Named.name e.source)),
    ("to_status", .text (Named.name e.target)),
    ("timestamp", Timestamp.view e.time),
    ("actor_id", e.actor),
    ("notes", e.notes)]

def Run.view (r : Run) : Value :=
  .object [
    ("id", .text r.id.text),
    ("workflow_id", .text r.definition.text),
    ("status", .text (Named.name r.status)),
    ("started_at", Timestamp.view r.startedAt),
    ("finished_at", Timestamp.view r.finishedAt),
    ("last_error", r.lastError),
    ("org_id", r.org),
    ("context", r.context)]

def RunSummary.view (s : RunSummary) : Value :=
  .object [
    ("workflow_id", .text s.definition.text),
    ("execution_count", .int s.total),
    ("last_executed_at", Timestamp.view s.lastStart),
    ("status_counts", .object (s.counts.map fun (status, n) => (Named.name status, .int n)))]

def Template.view (t : Template) : Value :=
  .object [
    ("id", .text t.id.text),
    ("slug", t.slug),
    ("name", t.name),
    ("description", t.description),
    ("category", t.category),
    ("recommended", .bool t.recommended),
    ("trigger", t.trigger.toValue),
    ("trigger_summary", .text t.trigger.describe),
    ("graph", t.graph.toValue [])]

/-- An editor graph with the version that it shows. -/
def Editor.Graph.view (g : Editor.Graph) (version : Int) : Value :=
  .object [
    ("version", .int version),
    ("nodes", .list (g.nodes.map Editor.Node.toValue)),
    ("edges", .list (g.edges.map Editor.Edge.toValue))]

/-- A graph with its flowchart. -/
def Graph.view (g : Graph) : Except Error Value := do
  let chart ← g.mermaid
  pure (.object [
    ("mermaid_source", .text chart),
    ("nodes", .list (g.nodes.map (·.toValue []))),
    ("edges", .list (g.edges.map Edge.toValue))])

end Workflow
