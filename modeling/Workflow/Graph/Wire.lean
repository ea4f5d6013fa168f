import Workflow.Graph.Sketch

/-!
# Wire form of graphs

A graph is written as an object of `nodes` and `edges`; a node may carry its
position.  Reading refuses the first element that is malformed and names it: by
its place if it has no identifier, by its identifier otherwise.

    g.toValue layout is read back by `Graph.ofValue` and `Layout.ofGraphValue`
-/

namespace Workflow

/-! ## Shapes -/

/-- The error that a part of a document is not of the shape it must have. -/
def misshapen {α : Type} (element : Option Value) (subject expected : String) : Except Error α :=
  .error (.malformed element (.shape subject expected))

/-- An element known by its place only. -/
def placeOf (sort : String) (index : Nat) : Option Value :=
  some (.text (sort ++ " " ++ Nat.repr index))

def requireText (v : Option Value) (subject : String) (element : Option Value) :
    Except Error String :=
  match v with
  | some (.text s) => .ok s
  | _ => misshapen element subject "a string"

def requireKind (v : Value) (id : String) : Except Error NodeKind :=
  match Named.ofValue? v with
  | some kind => .ok kind
  | none => .error (.malformed (some (.text id)) (.unknownNodeKind v))

/-- A text or nothing, null being nothing. -/
def optionalText (v : Option Value) (subject : String) (element : Option Value) :
    Except Error (Option String) :=
  match v with
  | none | some .null => .ok none
  | some (.text s) => .ok (some s)
  | some _ => misshapen element subject "a string"

/-- The lists under `nodes` and `edges`, empty if they are missing. -/
def requireLists (subject : String) (raw : Value) : Except Error (List Value × List Value) :=
  match raw with
  | .object ms =>
    match (Assoc.find? "nodes" ms).getD (.list []), (Assoc.find? "edges" ms).getD (.list []) with
    | .list nodes, .list edges => .ok (nodes, edges)
    | _, _ => misshapen none (subject ++ " 'nodes' and 'edges'") "lists"
  | _ => misshapen none subject "an object with 'nodes' and 'edges'"

/-! ## Positions -/

def Position.ofValue (raw : Value) (id : String) : Except Error Position :=
  let element : Option Value := some (.text id)
  match raw with
  | .object ms =>
    match (Assoc.find? "x" ms).bind Value.number?, (Assoc.find? "y" ms).bind Value.number? with
    | some x, some y =>
      match x.toFloat?, y.toFloat? with
      | some x, some y => .ok ⟨.float x, .float y⟩
      | _, _ => .error (.faulty .integerTooLarge)
    | _, _ => misshapen element "Position 'x' and 'y'" "numbers"
  | _ => misshapen element "Position" "an object with 'x' and 'y'"

/-- The positions that nodes carry; a node without an identifier or a position has none. -/
def Layout.ofNodes : Layout → List Value → Except Error Layout
  | found, [] => .ok found
  | found, raw :: rest =>
    match raw.field? "id", raw.field? "position" with
    | some (.text id), some position =>
      if position.isTruthy then
        match Position.ofValue position id with
        | .error e => .error e
        | .ok p =>
          let kept := Assoc.find? id found
          Layout.ofNodes (if kept.isSome then found.map (fun e => if e.1 = id then (id, p) else e)
            else found ++ [(id, p)]) rest
      else Layout.ofNodes found rest
    | _, _ => Layout.ofNodes found rest

/-- The positions in the wire form of a graph. -/
def Layout.ofGraphValue (raw : Value) : Except Error Layout :=
  match raw.field? "nodes" with
  | some (.list nodes) => Layout.ofNodes [] nodes
  | _ => .ok []

/-! ## Reading -/

/-- The settings of a node, empty if missing or null. -/
def Node.configOf (ms : Config) (id : String) : Except Error Config :=
  match Assoc.find? "config" ms with
  | none | some .null => .ok []
  | some (.object config) => .ok config
  | some _ => misshapen (some (.text id)) "Node 'config'" "an object"

/-- Reads the node at a place, after the nodes in `earlier`. -/
def Node.ofValue (earlier : List Node) (index : Nat) (raw : Value) : Except Error Node :=
  match raw with
  | .object ms =>
    match Assoc.find? "id" ms with
    | some (.text id) =>
      if id.isEmpty then misshapen (placeOf "node" index) "Node 'id'" "a non-empty string"
      else if earlier.any (·.id = id) then .error (.malformed (some (.text id)) .duplicateNode)
      else do
        let config ← Node.configOf ms id
        let kind ← requireKind ((Assoc.find? "type" ms).getD .null) id
        let name ← requireText (some ((Assoc.find? "name" ms).getD (.text ""))) "Node 'name'"
          (some (.text id))
        pure ⟨id, kind, name, config⟩
    | _ => misshapen (placeOf "node" index) "Node 'id'" "a non-empty string"
  | _ => misshapen (placeOf "node" index) "Node" "an object"

/-- Reads nodes one after the other; `earlier` holds those read so far. -/
def Node.allOfValues : List Node → List Value → Except Error (List Node)
  | earlier, [] => .ok earlier
  | earlier, raw :: rest => do
    let n ← Node.ofValue earlier earlier.length raw
    Node.allOfValues (earlier ++ [n]) rest

def Edge.ofValue (index : Nat) (raw : Value) : Except Error Edge :=
  let element := placeOf "edge" index
  match raw with
  | .object ms => do
    let condition ← optionalText (Assoc.find? "condition" ms) "Edge 'condition'" element
    let source ← requireText (Assoc.find? "from" ms) "Edge 'from'" element
    let target ← requireText (Assoc.find? "to" ms) "Edge 'to'" element
    pure ⟨source, target, condition⟩
  | _ => misshapen element "Edge" "an object"

def Edge.allOfValues : Nat → List Value → Except Error (List Edge)
  | _, [] => .ok []
  | index, raw :: rest => do
    let e ← Edge.ofValue index raw
    let es ← Edge.allOfValues (index + 1) rest
    pure (e :: es)

def Graph.ofValue (raw : Value) : Except Error Graph := do
  let (nodes, edges) ← requireLists "Graph" raw
  let nodes ← Node.allOfValues [] nodes
  let edges ← Edge.allOfValues 0 edges
  pure ⟨nodes, edges⟩

/-- Reads a graph, unless what is refused cannot be written. -/
def Graph.ofValueBounded (raw : Value) : Except Error Graph :=
  (Graph.ofValue raw).mapError Error.worded

/-! ## Writing -/

def Layout.member (layout : Layout) (id : String) : Config :=
  match Assoc.find? id layout with
  | none => []
  | some p => [("position", p.toValue)]

def Node.toValue (n : Node) (layout : Layout) : Value :=
  .object ([("id", .text n.id), ("type", .text (Named.name n.kind)), ("name", .text n.name),
    ("config", .object n.config)] ++ layout.member n.id)

def Edge.toValue (e : Edge) : Value :=
  .object [("from", .text e.source), ("to", .text e.target), ("condition", .ofText? e.condition)]

def Graph.toValue (g : Graph) (layout : Layout) : Value :=
  .object [("nodes", .list (g.nodes.map (·.toValue layout))),
    ("edges", .list (g.edges.map Edge.toValue))]

/-- The position of a step of a sketch, which is known by its identifier. -/
def Layout.memberOf (layout : Layout) (id : Value) : Except Error Config :=
  if id.isKey then
    match id with
    | .text s => .ok (layout.member s)
    | _ => .ok []
  else .error (.faulty .notKey)

/-- The wire form of a step of a sketch, whose kind must be known. -/
def SketchNode.toValue (n : SketchNode) (layout : Layout) : Except Error Value := do
  let kind ← Named.read (α := NodeKind) n.kind
  let position ← layout.memberOf n.id
  pure (.object ([("id", n.id), ("type", .text (Named.name kind)), ("name", n.name),
    ("config", n.config)] ++ position))

def SketchEdge.toValue (e : SketchEdge) : Value :=
  .object [("from", e.source), ("to", e.target), ("condition", e.condition)]

def Sketch.toValue (s : Sketch) (layout : Layout) : Except Error Value := do
  let nodes ← s.nodes.mapM fun (_, n) => n.toValue layout
  pure (.object [("nodes", .list nodes), ("edges", .list (s.edges.map SketchEdge.toValue))])

end Workflow
