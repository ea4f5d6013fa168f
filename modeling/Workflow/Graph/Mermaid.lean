import Workflow.Graph.Sketch

/-!
# Flowcharts

A graph as a Mermaid flowchart: one line per step, whose brackets show its kind,
and one line per transition with its guard.  Quotes would end a label early, so
labels are written without them.
-/

namespace Workflow

/-- The brackets of a step of each kind. -/
def NodeKind.brackets : NodeKind → String × String
  | .action => ("[", "]")
  | .condition => ("\x7b", "\x7d")
  | .delay => ("([", "])")
  | .split => ("\x7b\x7b", "\x7d\x7d")

/-- A text without quotes. -/
def unquoted (s : String) : String := String.ofList (s.toList.filter fun c => c ≠ '"' ∧ c ≠ '\'')

/-- A step of unknown kind is drawn like an action; one without a name shows its key. -/
def SketchNode.mermaid (key : Value) (n : SketchNode) : Except Error String := do
  if !n.kind.isKey then .error (.faulty .notKey)
  let (opening, closing) := ((Named.ofValue? n.kind).getD NodeKind.action).brackets
  match n.name.orElse key with
  | .text label => pure ("    " ++ key.bare ++ opening ++ unquoted label ++ closing)
  | _ => .error (.faulty .notText)

def SketchEdge.mermaid (e : SketchEdge) : Except Error String := do
  let guardLabel ←
    if !e.condition.isTruthy then pure ""
    else match e.condition with
      | .text s => pure ("|" ++ unquoted s ++ "|")
      | _ => .error (.faulty .notText)
  pure ("    " ++ e.source.bare ++ " -->" ++ guardLabel ++ " " ++ e.target.bare)

def Sketch.mermaid (s : Sketch) : Except Error String := do
  let nodes ← s.nodes.mapM fun (key, n) => n.mermaid key
  let edges ← s.edges.mapM SketchEdge.mermaid
  pure (String.intercalate "\n" ("graph TD" :: nodes ++ edges))

def Graph.mermaid (g : Graph) : Except Error String := g.sketch.mermaid

end Workflow
