import Workflow.Definition.Basic
import Workflow.Template.Basic

/-!
# Operations on a definition

Everything that can be asked of a definition, as data, and the definition that it
leads to if it succeeds.
-/

namespace Workflow.Definition

inductive Operation where
  | rename (name description : Value)
  | updateTrigger (trigger : Trigger)
  | updateGraph (graph : Graph) (places : Option Places)
  | applyEdited (edited : Editor.Graph)
  | govern (action : ApprovalAction) (actor notes : Value)
  | activate
  | pause
  deriving DecidableEq, Repr

namespace Operation

/-- The definition that an operation leads to. -/
def apply (op : Operation) (d : Definition) (now : Timestamp) : Except Error Definition :=
  match op with
  | rename name description => d.rename name description now
  | updateTrigger trigger => d.updateTrigger trigger now
  | updateGraph graph places => d.updateGraph graph places now
  | applyEdited edited => d.applyEdited edited now
  | govern action actor notes => (d.govern action actor notes now).map Prod.fst
  | activate => d.activate now
  | pause => d.pause now

end Operation

/-- How a definition begins: created from a proposal, or installed from a template. -/
inductive Begun : Definition → Prop where
  | created (p : Proposal) (id : Uuid) (now : Timestamp) {d : Definition}
      (h : create p id now = .ok d) : Begun d
  | installed (t : Template) (context : Context) (name : Value) (id : Uuid) (now : Timestamp)
      {d : Definition} (h : create (t.proposal context name) id now = .ok d) : Begun d

end Workflow.Definition
