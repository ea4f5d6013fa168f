import Workflow.Definition.Wire

/-!
# Templates

A template is a shared, read-only blueprint.  Installing one proposes a new
definition with the template's trigger and graph, under the template's name
unless another is given.
-/

namespace Workflow

structure Template where
  id : Uuid
  /-- the stable key -/
  slug : Value
  name : Value
  description : Value
  category : Value
  /-- whether it is listed first -/
  recommended : Bool
  trigger : Trigger
  graph : Graph
  deriving DecidableEq, Repr

namespace Template

/-- What installing a template proposes. -/
def proposal (t : Template) (context : Context) (name : Value) : Definition.Proposal where
  name := name.orElse t.name
  trigger := t.trigger
  context := context
  graph := t.graph
  description := t.description
  layout := []
  template := some t.id

/-! ## Wire form -/

def toValue (t : Template) : Value :=
  .object [
    ("id", .text t.id.text),
    ("slug", t.slug),
    ("name", t.name),
    ("description", t.description),
    ("category", t.category),
    ("recommended", .bool t.recommended),
    ("trigger", t.trigger.toValue),
    ("graph", t.graph.toValue [])]

/-- Whether a template is read under a new identifier. -/
def needsId (raw : Value) : Bool :=
  match raw with
  | .object ms => !(Value.at ms "id").isTruthy
  | _ => false

/-- Reads a template; `fresh` is the identifier of one that has none. -/
def ofValue (raw : Value) (fresh : Uuid) : Except Error Template :=
  match raw with
  | .object ms => do
    let id ← if needsId raw then pure fresh else Uuid.ofValue (Value.at ms "id")
    let slug ← requireField "slug" ms
    let name ← requireField "name" ms
    let trigger ← Trigger.ofValue (← requireField "trigger" ms)
    let graph ← Graph.ofValue (← requireField "graph" ms)
    pure ⟨id, slug, name, (Value.at ms "description").orElse (.text ""),
      (Value.at ms "category").orElse (.text "general"), (Value.at ms "recommended").isTruthy,
      trigger, graph⟩
  | _ => .error (.faulty .notRecord)

end Template

end Workflow
