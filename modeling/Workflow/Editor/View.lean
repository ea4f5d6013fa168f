import Workflow.Duration
import Workflow.Editor.Basic
import Workflow.Editor.Canvas

/-!
# Graphs as the editor shows them

A step is shown at its stored place or, if it has none, at a drawn one; a delay
is shown with a label in place of its milliseconds, if that can be written.  Draws
are taken in the order of the steps, two for each step without a place, up to the
first delay that cannot be shown.
-/

namespace Workflow.Editor

/-- The settings that the editor shows.  The milliseconds of a delay must be a natural number. -/
def shownData (n : Workflow.Node) : Except Error Config :=
  match n.kind with
  | .delay =>
    match Assoc.find? "duration_ms" n.config with
    | some (.int (.ofNat ms)) => do
      let label ← Duration.labelBounded ms
      pure (Assoc.put "duration" (.text label) (Assoc.drop "duration_ms" n.config))
    | _ => .error (.malformed (some (.text n.id)) .unreadableDelay)
  | .action | .condition | .split => .ok n.config

/-- The number of draws that showing the steps takes. -/
def drawsTaken (layout : Layout) : List Workflow.Node → Nat
  | [] => 0
  | n :: rest =>
    match shownData n with
    | .error _ => 0
    | .ok _ => (if Assoc.contains n.id layout then 0 else 2) + drawsTaken layout rest

/-- The place of a step, from its stored place or from two draws. -/
def place (canvas : Canvas) (draws : Nat → Number) (stored : Option Position) :
    Except Error Position :=
  match stored with
  | some p => .ok p
  | none => (canvas.position (draws 0) (draws 1)).mapError .faulty

def Node.ofNode (canvas : Canvas) (draws : Nat → Number) (layout : Layout) (n : Workflow.Node) :
    Except Error Node := do
  let data ← shownData n
  let p ← place canvas draws (Assoc.find? n.id layout)
  pure ⟨n.id, n.kind, n.name, p, data, []⟩

def Node.allOfNodes (canvas : Canvas) (layout : Layout) :
    (Nat → Number) → List Workflow.Node → Except Error (List Node)
  | _, [] => .ok []
  | draws, n :: rest => do
    let m ← Node.ofNode canvas draws layout n
    let later := if Assoc.contains n.id layout then draws else fun i => draws (i + 2)
    let ms ← Node.allOfNodes canvas layout later rest
    pure (m :: ms)

def Edge.ofEdge (e : Workflow.Edge) : Edge :=
  ⟨joined e.source e.target, e.source, e.target, e.condition⟩

/-- A graph as the editor shows it. -/
def Graph.ofGraph (canvas : Canvas) (draws : Nat → Number) (layout : Layout)
    (g : Workflow.Graph) : Except Error Graph := do
  let nodes ← Node.allOfNodes canvas layout draws g.nodes
  pure ⟨nodes, g.edges.map Edge.ofEdge⟩

end Workflow.Editor
