import Workflow.Graph.Wire

/-!
# Editor graphs

The visual editor works on another form of a graph: every step has a place on
the canvas, settings may hold convenience fields, and a step carries state that
belongs to the editor alone.  A transition has an identifier of its own, and its
guard is a label.
-/

namespace Workflow.Editor

structure Node where
  id : String
  kind : NodeKind
  name : String
  position : Position
  data : Config
  /-- selection, colour and the like; never executed -/
  ui : Config
  deriving DecidableEq, Repr

structure Edge where
  /-- any value, for it is not checked -/
  id : Value
  source : String
  target : String
  label : Option String
  deriving DecidableEq, Repr

structure Graph where
  nodes : List Node
  edges : List Edge
  deriving DecidableEq, Repr

namespace Graph

def node? (g : Graph) (id : String) : Option Node := g.nodes.find? (·.id = id)

/-- Where the steps are; of steps with one identifier the last one counts. -/
def layout (g : Graph) : Layout := Assoc.ofList (g.nodes.map fun n => (n.id, n.position))

end Graph

/-- The identifier of a transition that has none of its own. -/
def joined (source target : String) : Value := .text (source ++ "-" ++ target)

/-! ## Reading -/

def Node.ofMembers (ms : Config) (id : String) : Except Error Node :=
  let element : Option Value := some (.text id)
  match (Assoc.find? "data" ms).getD (.object []), (Assoc.find? "ui" ms).getD (.object []) with
  | .object data, .object ui => do
    let kind ← requireKind ((Assoc.find? "type" ms).getD .null) id
    let name ← requireText (some ((Assoc.find? "name" ms).getD (.text ""))) "Node 'name'" element
    let position ← Position.ofValue ((Assoc.find? "position" ms).getD .null) id
    pure ⟨id, kind, name, position, data, ui⟩
  | _, _ => misshapen element "Node 'data' and 'ui'" "objects"

def Node.ofValue (index : Nat) (raw : Value) : Except Error Node :=
  let element := placeOf "node" index
  match raw with
  | .object ms => do
    let id ← requireText (Assoc.find? "id" ms) "Node 'id'" element
    Node.ofMembers ms id
  | _ => misshapen element "Node" "an object"

def Node.allOfValues : Nat → List Value → Except Error (List Node)
  | _, [] => .ok []
  | index, raw :: rest => do
    let n ← Node.ofValue index raw
    let ns ← Node.allOfValues (index + 1) rest
    pure (n :: ns)

def Edge.ofValue (index : Nat) (raw : Value) : Except Error Edge :=
  let element := placeOf "edge" index
  match raw with
  | .object ms => do
    let source ← requireText (Assoc.find? "source" ms) "Edge 'source'" element
    let target ← requireText (Assoc.find? "target" ms) "Edge 'target'" element
    let own := (Assoc.find? "id" ms).getD .null
    let id := if own.isTruthy then own else joined source target
    let label ← optionalText (Assoc.find? "label" ms) "Edge 'label'" (some id)
    pure ⟨id, source, target, label⟩
  | _ => misshapen element "Edge" "an object"

def Edge.allOfValues : Nat → List Value → Except Error (List Edge)
  | _, [] => .ok []
  | index, raw :: rest => do
    let e ← Edge.ofValue index raw
    let es ← Edge.allOfValues (index + 1) rest
    pure (e :: es)

def Graph.ofValue (raw : Value) : Except Error Graph := do
  let (nodes, edges) ← requireLists "Editable graph" raw
  let nodes ← Node.allOfValues 0 nodes
  let edges ← Edge.allOfValues 0 edges
  pure ⟨nodes, edges⟩

/-! ## Writing -/

def Node.toValue (n : Node) : Value :=
  .object [("id", .text n.id), ("type", .text (Named.name n.kind)), ("name", .text n.name),
    ("position", n.position.toValue), ("data", .object n.data), ("ui", .object n.ui)]

def Edge.toValue (e : Edge) : Value :=
  .object [("id", e.id), ("source", .text e.source), ("target", .text e.target),
    ("label", .ofText? e.label)]

def Graph.toValue (g : Graph) : Value :=
  .object [("nodes", .list (g.nodes.map Node.toValue)), ("edges", .list (g.edges.map Edge.toValue))]

end Workflow.Editor
