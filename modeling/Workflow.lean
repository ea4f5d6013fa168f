import Workflow.Approval
import Workflow.Assoc
import Workflow.Definition.Basic
import Workflow.Definition.Wire
import Workflow.Digraph
import Workflow.Duration
import Workflow.Editor.Basic
import Workflow.Editor.Canvas
import Workflow.Editor.Draft
import Workflow.Editor.View
import Workflow.Error
import Workflow.Event
import Workflow.Graph.Basic
import Workflow.Graph.Mermaid
import Workflow.Graph.Sketch
import Workflow.Graph.Wire
import Workflow.Identifier
import Workflow.Number.Binary64
import Workflow.Number.Numeral
import Workflow.Number.Shortest
import Workflow.Program
import Workflow.Record
import Workflow.Rest.Api
import Workflow.Rest.App
import Workflow.Rest.Body
import Workflow.Rest.Route
import Workflow.Rest.View
import Workflow.Run
import Workflow.Service
import Workflow.Status
import Workflow.Store.Memory
import Workflow.Store.Step
import Workflow.Store.Tables
import Workflow.Template.Basic
import Workflow.Template.Builtin
import Workflow.Template.Catalog
import Workflow.Text.Blank
import Workflow.Text.CharRange
import Workflow.Text.DecimalDigit
import Workflow.Text.Lowercase
import Workflow.Text.Printable
import Workflow.Text.Quoted
import Workflow.Time.Calendar
import Workflow.Time.Iso
import Workflow.Time.Timestamp
import Workflow.Trigger
import Workflow.Value.Basic
import Workflow.Value.Literal
import Workflow.Value.Parser
import Workflow.Value.Printer
import Workflow.Definition.Operation
import Workflow.Proofs.Definition.Change
import Workflow.Proofs.Definition.Governance
import Workflow.Proofs.Assoc
import Workflow.Proofs.Definition.Progress
import Workflow.Proofs.Duration.Label
import Workflow.Proofs.Editor.RoundTrip
import Workflow.Proofs.Service.Careful
import Workflow.Proofs.Service.Interleaving
import Workflow.Proofs.Program.Alike
import Workflow.Proofs.Service.Equivalence
import Workflow.Service.Picture
import Workflow.Proofs.Service.Announcement
import Workflow.Proofs.Service.Consistency
import Workflow.Proofs.Service.Finality
import Workflow.Proofs.Service.Trail
import Workflow.Proofs.Editor.Compiling
import Workflow.Proofs.Editor.Saving
import Workflow.Proofs.Value.Document
import Workflow.Proofs.Editor.Wire
import Workflow.Proofs.Definition.Presentation
import Workflow.Proofs.Service.Reopening
import Workflow.Proofs.Service.Replay
import Workflow.Proofs.Service.Leftovers
import Workflow.Proofs.Rest.Refusal
import Workflow.Proofs.Service.Isolation
import Workflow.Proofs.Service.Traceless
import Workflow.Proofs.Definition.ReadBack
import Workflow.Proofs.Trigger.EventType
import Workflow.Proofs.Graph.Documents
import Workflow.Proofs.Rest.Asking
import Workflow.Proofs.Rest.Answering
import Workflow.Proofs.Sorting
import Workflow.Proofs.Template.Registry
import Workflow.Proofs.Template.Membership
import Workflow.Proofs.Graph.Depth
import Workflow.Proofs.Graph.Acyclic
import Workflow.Proofs.Duration.Canonical
import Workflow.Definition.Mutation
import Workflow.Proofs.Definition.Frame
import Workflow.Proofs.Graph.Wire
import Workflow.Proofs.Blame
import Workflow.Proofs.Graph.Grammar
import Workflow.Proofs.Editor.Lossless
import Workflow.Proofs.Editor.NormalForm
import Workflow.Proofs.Editor.Ends
import Workflow.Proofs.Store.Summary
import Workflow.Proofs.Store.Limits
import Workflow.Proofs.Template.Order
import Workflow.Proofs.Graph.Completeness
import Workflow.Proofs.Graph.Reporting
import Workflow.Proofs.Run.Ranking
