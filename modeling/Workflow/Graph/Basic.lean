import Workflow.Digraph
import Workflow.Error

/-!
# Automation graphs

A graph is what a run executes: steps in display order and guarded transitions in
authored order.  Each step is known by its identifier, which no other step of the
graph has.  Positions on the editor's canvas are kept beside the graph.
-/

namespace Workflow

/-- A step: what it does, its display name and its settings. -/
structure Node where
  id : String
  kind : NodeKind
  name : String
  config : Config
  deriving DecidableEq, Repr, Inhabited

/-- A transition; without a guard it is unconditional. -/
structure Edge where
  source : String
  target : String
  condition : Option String
  deriving DecidableEq, Repr, Inhabited

structure Graph where
  nodes : List Node
  edges : List Edge
  deriving DecidableEq, Repr, Inhabited

/-- A place on the canvas.  Its coordinates are numbers if they were read or drawn. -/
structure Position where
  x : Value
  y : Value
  deriving DecidableEq, Repr, Inhabited

/-- Positions by step. -/
abbrev Layout := List (String × Position)

namespace Graph

def empty : Graph := ⟨[], []⟩

def isEmpty (g : Graph) : Bool := g.nodes.isEmpty

def ids (g : Graph) : List String := g.nodes.map Node.id

def node? (g : Graph) (id : String) : Option Node := g.nodes.find? (·.id = id)

/-- Steps as points, transitions as arrows. -/
def shape (g : Graph) : Digraph := ⟨g.ids, g.edges.map fun e => (e.source, e.target)⟩

end Graph

/-- Settings are the same if they hold the same keys with the same values. -/
def Config.same (a b : Config) : Bool :=
  a.length = b.length && a.all fun (k, v) => Assoc.find? k b = some v

def Node.same (a b : Node) : Bool :=
  a.id = b.id && a.kind = b.kind && a.name = b.name && Config.same a.config b.config

/-- Graphs are the same if steps and transitions agree one by one. -/
def Graph.same (a b : Graph) : Bool :=
  a.nodes.length = b.nodes.length && (a.nodes.zip b.nodes).all (fun (m, n) => m.same n)
    && a.edges = b.edges

def Position.toValue (p : Position) : Value :=
  .object [("x", p.x), ("y", p.y)]

/-- The positions of the steps that a graph has. -/
def Layout.prune (layout : Layout) (g : Graph) : Layout :=
  layout.filter fun (id, _) => g.ids.contains id

/-- What is given as a layout, unchecked: entries that may hold something other than a place, or
something that has no entries. -/
inductive Places where
  | entries (es : List (String × Option Position))
  | shapeless
  deriving DecidableEq, Repr

namespace Places

def ofLayout (layout : Layout) : Places := entries (layout.map fun (id, p) => (id, some p))

/-- The positions of the steps that a graph has; other entries are not looked at. -/
def prune (g : Graph) : Places → Except Error Layout
  | entries es =>
    (es.filter fun (id, _) => g.ids.contains id).mapM fun (id, p) =>
      match p with
      | some p => .ok (id, p)
      | none => .error (.faulty .notRecord)
  | shapeless => .error (.faulty .notRecord)

end Places

def Layout.toValue (layout : Layout) : Value :=
  .object (layout.map fun (id, p) => (id, p.toValue))

end Workflow
