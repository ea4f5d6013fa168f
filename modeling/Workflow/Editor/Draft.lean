import Workflow.Duration
import Workflow.Editor.Basic

/-!
# Compiling what the editor made

The editor hands over a draft, in which any field may hold any value.  Compiling
it drops places and editor state, and turns the label of a delay back into
milliseconds.  The first step or transition that is malformed is named.

    an empty label makes a transition unconditional
    a delay without a label, or with null for one, keeps its milliseconds
-/

namespace Workflow.Editor

structure DraftNode where
  id : Value
  kind : Value
  name : Value
  data : Value
  deriving DecidableEq, Repr

structure DraftEdge where
  id : Value
  source : Value
  target : Value
  label : Value
  deriving DecidableEq, Repr

/-- An editor graph whose fields are not checked. -/
structure Draft where
  nodes : List DraftNode
  edges : List DraftEdge
  deriving DecidableEq, Repr

/-! ## Settings -/

def compileDelay (id : String) (data : Config) : Except Error Config :=
  let element : Option Value := some (.text id)
  let rest := Assoc.drop "duration" data
  match (Assoc.find? "duration" data).getD .null, Assoc.find? "duration_ms" data with
  | .null, none => .error (.malformed element .missingDuration)
  | .null, some (.int _) => .ok rest
  | .null, some _ => misshapen element "'duration_ms'" "an integer"
  | label, _ => do
    let n ← Duration.ofValue label element
    pure (Assoc.put "duration_ms" (.int n) rest)

def compileCondition (id : String) (data : Config) : Except Error Config :=
  match Assoc.find? "expr" data with
  | none | some (.text _) => .ok data
  | some _ => misshapen (some (.text id)) "Condition 'expr'" "a string"

/-- The settings that a step runs with, from those that the editor shows. -/
def compileData : NodeKind → String → Config → Except Error Config
  | .delay => compileDelay
  | .condition => compileCondition
  | .action | .split => fun _ data => .ok data

/-! ## Steps and transitions -/

namespace DraftNode

/-- The identifier of a step that follows the steps in `earlier`. -/
def checkedId (n : DraftNode) (earlier : List Workflow.Node) : Except Error String := do
  let id ← requireText (some n.id) "Node id" none
  if id.isEmpty then .error (.malformed none .emptyNodeId)
  else if earlier.any (·.id = id) then .error (.malformed (some (.text id)) .duplicateNode)
  else pure id

def compile (n : DraftNode) (earlier : List Workflow.Node) : Except Error Workflow.Node := do
  let id ← n.checkedId earlier
  let kind ← requireKind n.kind id
  let name ← requireText (some n.name) "Node name" (some (.text id))
  match n.data with
  | .object data => do
    let config ← compileData kind id data
    pure ⟨id, kind, name, config⟩
  | _ => misshapen (some (.text id)) "Node data" "an object"

/-- Compiles steps one after the other; `earlier` holds those compiled so far. -/
def compileAll : List Workflow.Node → List DraftNode → Except Error (List Workflow.Node)
  | earlier, [] => .ok earlier
  | earlier, n :: rest => do
    let m ← n.compile earlier
    compileAll (earlier ++ [m]) rest

end DraftNode

namespace DraftEdge

/-- A transition is named by its identifier, if that is a text, and by its place otherwise. -/
def element (e : DraftEdge) (index : Nat) : Option Value :=
  match e.id with
  | .text s => if s.isEmpty then placeOf "edge" index else some (.text s)
  | _ => placeOf "edge" index

/-- The guard that a label stands for. -/
def guardOf : Option String → Option String
  | some s => if s.isEmpty then none else some s
  | none => none

def compile (e : DraftEdge) (index : Nat) : Except Error Workflow.Edge := do
  let element := e.element index
  let source ← requireText (some e.source) "Edge source" element
  let target ← requireText (some e.target) "Edge target" element
  let label ← optionalText (some e.label) "Edge label" element
  pure ⟨source, target, guardOf label⟩

def compileAll : Nat → List DraftEdge → Except Error (List Workflow.Edge)
  | _, [] => .ok []
  | index, e :: rest => do
    let e ← e.compile index
    let es ← compileAll (index + 1) rest
    pure (e :: es)

end DraftEdge

def Draft.compile (d : Draft) : Except Error Workflow.Graph := do
  let nodes ← DraftNode.compileAll [] d.nodes
  let edges ← DraftEdge.compileAll 0 d.edges
  pure ⟨nodes, edges⟩

/-! ## Labels of too many digits -/

namespace DraftNode

/-- The number of digits of the label of a delay, if there are too many. -/
def overlong? (n : DraftNode) : Option Nat :=
  if n.kind = .text (Named.name NodeKind.delay) then
    (n.data.field? "duration").bind Duration.overlong?
  else none

/-- The same step with a short label. -/
def shortened (n : DraftNode) : DraftNode :=
  match n.data with
  | .object data =>
    { n with data := .object (Assoc.put "duration" (.text (Duration.label 0)) data) }
  | _ => n

end DraftNode

/-- Refuses a draft in which a label has a number of too many digits.  Such a label is
refused when its step is reached, so what is wrong before it is reported first. -/
def Draft.checkLabels (d : Draft) : Except Error Unit :=
  let before := d.nodes.takeWhile fun n => n.overlong?.isNone
  match d.nodes.drop before.length with
  | [] => .ok ()
  | n :: _ => do
    let _ ← (Draft.mk (before ++ [n.shortened]) []).compile
    .error (.faulty (.tooManyDigits (n.overlong?.getD 0)))

/-- Compiles a draft, unless a label has a number of too many digits or what is refused cannot
be written. -/
def Draft.compileBounded (d : Draft) : Except Error Workflow.Graph :=
  (do
    d.checkLabels
    d.compile).mapError Error.worded

/-! ## Checked editor graphs -/

def Node.draft (n : Node) : DraftNode :=
  ⟨.text n.id, .text (Named.name n.kind), .text n.name, .object n.data⟩

def Edge.draft (e : Edge) : DraftEdge :=
  ⟨e.id, .text e.source, .text e.target, .ofText? e.label⟩

def Graph.draft (g : Graph) : Draft := ⟨g.nodes.map Node.draft, g.edges.map Edge.draft⟩

/-- The graph that an editor graph stands for. -/
def Graph.compile (g : Graph) : Except Error Workflow.Graph := g.draft.compile

/-- The graph that an editor graph stands for, within the limit of digits. -/
def Graph.compileBounded (g : Graph) : Except Error Workflow.Graph := g.draft.compileBounded

end Workflow.Editor
