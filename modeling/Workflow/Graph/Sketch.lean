import Workflow.Graph.Basic
import Workflow.Graph.Message
import Workflow.Text.Blank

/-!
# Unchecked graphs

A graph that is put together in memory may break any rule: a step may be filed
under another identifier than its own, its kind may be unknown, its settings may
be no object, or hold what no document can, and what should be a text may be any
value.  What is wrong with a sketch is said step by step, then transition by
transition, in messages that show values of the sketch.  The messages are written
as they come up, so a value that cannot be written ends the report.

    s.messages is all that is wrong with a sketch, s.violations its texts
    s.validate is what is reported of it
    g.violations is what the sketch of a graph breaks
-/

namespace Workflow

/-- A step whose fields are not checked. -/
structure SketchNode where
  id : Value
  kind : Value
  name : Value
  config : Value
  deriving DecidableEq, Repr, Inhabited

structure SketchEdge where
  source : Value
  target : Value
  condition : Value
  deriving DecidableEq, Repr, Inhabited

/-- Steps by the key they are filed under, and transitions. -/
structure Sketch where
  nodes : List (Value × SketchNode)
  edges : List SketchEdge
  deriving DecidableEq, Repr, Inhabited

/-! ## Rules for settings -/

/-- A text that is not blank. -/
def Value.isFilled : Option Value → Bool
  | some (.text s) => !Text.isBlank s
  | _ => false

/-- The entries of a mapping, whatever its keys are. -/
def Value.entries? : Value → Option Config
  | .object ms => some ms
  | .numbered key v => some [(Value.intText key, v)]
  | _ => none

/-- A key of a mapping as it is shown, which need not be a text. -/
def Value.keyMessage : Value → String → Message
  | .numbered key _, _ => (Value.int key).message
  | _, key => key

/-- Whether two values are equal when they are compared themselves, and not as members: what is
not a number then equals nothing. -/
def Value.equals (v w : Value) : Bool := v.same w && !(v.number?.any Number.isNaN)

namespace Sketch

def actionViolations (id : Message) (shownKey : String → Message) (config : Config) :
    List Message :=
  (if Value.isFilled (Assoc.find? "action_kind" config) then []
   else ["Action node '" ++ id ++ "' requires a non-empty 'action_kind'"])
  ++ (config.filter (!·.2.isDocument)).map fun (key, _) =>
    "Action node '" ++ id ++ "' parameter '" ++ shownKey key ++ "' is not JSON-compatible"

def conditionViolations (id : Message) (config : Config) : List Message :=
  if Value.isFilled (Assoc.find? "expr" config) then []
  else ["Condition node '" ++ id ++ "' requires a non-empty 'expr'"]

def delayViolations (id : Message) (config : Config) : List Message :=
  match Assoc.find? "duration_ms" config with
  | some (.int n) =>
    if n < 0 then
      ["Delay node '" ++ id ++ "' has negative 'duration_ms' (" ++ (Value.int n).message ++ ")"]
    else if Assoc.contains "duration" config then
      ["Delay node '" ++ id ++ "' config must not contain 'duration', the editor label key"]
    else []
  | _ => ["Delay node '" ++ id ++ "' requires an integer 'duration_ms'"]

/-- A weight is a number that is not zero or less; an arm without one has weight 1. -/
def isWeight : Option Value → Bool
  | none => true
  | some v => match v.number? with
    | some n => !n.atMostZero
    | none => false

/-- What one arm breaks, given the labels of earlier arms, and its own label if it is new. -/
def armViolations (id : Message) (index : Nat) (seen : List String) (arm : Value) :
    List Message × List String :=
  let arm' : Message := "Split node '" ++ id ++ "' arm " ++ Nat.repr index
  match arm.entries? with
  | none => ([arm' ++ " must be an object"], seen)
  | some ms =>
    let weight :=
      if isWeight (Assoc.find? "weight" ms) then [] else [arm' ++ " requires a positive 'weight'"]
    match Assoc.find? "label" ms with
    | some (.text s) =>
      if Text.isBlank s then ((arm' ++ " requires a non-empty 'label'") :: weight, seen)
      else if seen.contains s then
        (("Split node '" ++ id ++ "' has duplicate arm label '" ++ s ++ "'") :: weight, seen)
      else (weight, s :: seen)
    | _ => ((arm' ++ " requires a non-empty 'label'") :: weight, seen)

def armsViolations (id : Message) : Nat → List String → List Value → List Message
  | _, _, [] => []
  | index, seen, arm :: rest =>
    let (found, seen) := armViolations id index seen arm
    found ++ armsViolations id (index + 1) seen rest

def splitViolations (id : Message) (config : Config) : List Message :=
  (if Value.isFilled (Assoc.find? "label" config) then []
   else ["Split node '" ++ id ++ "' requires a non-empty 'label'"])
  ++ match Assoc.find? "arms" config with
    | none | some .null => []
    | some (.list arms) => armsViolations id 0 [] arms
    | some _ => ["Split node '" ++ id ++ "' 'arms' must be a list"]

def configViolations (kind : NodeKind) (id : Message) (shownKey : String → Message)
    (config : Config) : List Message :=
  match kind with
  | .action => actionViolations id shownKey config
  | .condition => conditionViolations id config
  | .delay => delayViolations id config
  | .split => splitViolations id config

/-! ## Rules for steps, transitions and the whole -/

def keyViolations (key id : Value) : List Message :=
  if !id.isTruthy then ["Node under key '" ++ key.message ++ "' has an empty id"]
  else if !key.equals id then
    ["Node key '" ++ key.message ++ "' does not match node id '" ++ id.message
      ++ "' (duplicate node id)"]
  else []

/-- The settings of a step are looked at only if its kind is known. -/
def nodeViolations (key : Value) (n : SketchNode) : List Message :=
  keyViolations key n.id ++
    match Named.ofValue? (α := NodeKind) n.kind with
    | none => ["Node '" ++ n.id.message ++ "' has unknown type '" ++ n.kind.message ++ "'"]
    | some kind =>
      match n.config.entries? with
      | none => ["Node '" ++ n.id.message ++ "' config must be an object"]
      | some config => configViolations kind n.id.message n.config.keyMessage config

/-- What is wrong with an end of a transition, which is its source or its target. -/
def endViolations (keys : List Value) (index : Nat) (part : String) (v : Value) : List Message :=
  if keys.any (·.same v) then []
  else ["Edge " ++ Nat.repr index ++ ": " ++ part ++ " node '" ++ v.message ++ "' not found"]

def guardViolations (index : Nat) (condition : Value) : List Message :=
  if condition = .null ∨ Value.isFilled (some condition) then []
  else ["Edge " ++ Nat.repr index ++ ": condition must be a non-empty string or null"]

def edgeViolations (keys : List Value) (index : Nat) (e : SketchEdge) : List Message :=
  endViolations keys index "source" e.source ++ endViolations keys index "target" e.target
    ++ guardViolations index e.condition

def keys (s : Sketch) : List Value := Assoc.keys s.nodes

/-- The keys that no transition leads to. -/
def entryPoints (s : Sketch) : List Value :=
  s.keys.filter fun key => !s.edges.any fun e => key.same e.target

def entryViolations (s : Sketch) : List Message :=
  if s.nodes.isEmpty || !s.entryPoints.isEmpty then []
  else ["Graph has no entry point (every node has an incoming edge)"]

/-- What is wrong with a sketch. -/
def messages (s : Sketch) : List Message :=
  s.nodes.flatMap (fun (key, n) => nodeViolations key n)
  ++ s.edges.zipIdx.flatMap (fun (e, index) => edgeViolations s.keys index e)
  ++ s.entryViolations

/-- Every rule that a sketch breaks. -/
def violations (s : Sketch) : List String := s.messages.map Message.text

/-! ## Reports -/

/-- What is reported of an end of a transition, if it can be looked up at all. -/
def reportEnd (keys : List Value) (index : Nat) (part : String) (v : Value) :
    Except Error (List String) :=
  if v.isKey then Message.writeAll (endViolations keys index part v) else .error (.faulty .notKey)

def reportEdge (keys : List Value) (index : Nat) (e : SketchEdge) : Except Error (List String) := do
  let source ← reportEnd keys index "source" e.source
  let target ← reportEnd keys index "target" e.target
  let guarded ← Message.writeAll (guardViolations index e.condition)
  pure (source ++ target ++ guarded)

/-- What is reported of a sketch. -/
def validate (s : Sketch) : Except Error (List String) := do
  let nodes ← s.nodes.mapM fun (key, n) => Message.writeAll (nodeViolations key n)
  let edges ← s.edges.zipIdx.mapM fun (e, index) => reportEdge s.keys index e
  let whole ← Message.writeAll s.entryViolations
  pure (nodes.flatten ++ edges.flatten ++ whole)

/-! ## Building and writing -/

/-- Files steps under the given keys. -/
def ofEntries (nodes : List (Value × SketchNode)) (edges : List SketchEdge) :
    Except Error Sketch :=
  if nodes.all (·.1.isKey) then .ok ⟨Value.merge nodes, edges⟩ else .error (.faulty .notKey)

/-- Files steps under their own identifiers, of which none may come twice. -/
def ofNodes (nodes : List SketchNode) (edges : List SketchEdge) : Except Error Sketch := do
  let s ← ofEntries (nodes.map fun n => (n.id, n)) edges
  let repeated := nodes.zipIdx.filter fun (n, index) => (nodes.take index).any (·.id.same n.id)
  if repeated.isEmpty then pure s
  else .error (.invalid (repeated.map fun (n, _) => "Duplicate node id '" ++ n.id.bare ++ "'"))

end Sketch

/-! ## Checked graphs -/

def Node.sketch (n : Node) : SketchNode :=
  ⟨.text n.id, .text (Named.name n.kind), .text n.name, .object n.config⟩

def Edge.sketch (e : Edge) : SketchEdge :=
  ⟨.text e.source, .text e.target, .ofText? e.condition⟩

def Graph.sketch (g : Graph) : Sketch :=
  ⟨g.nodes.map fun n => (.text n.id, n.sketch), g.edges.map Edge.sketch⟩

/-- Every rule that a graph breaks. -/
def Graph.violations (g : Graph) : List String := g.sketch.violations

/-- What is reported of a graph. -/
def Graph.validate (g : Graph) : Except Error (List String) := g.sketch.validate

end Workflow
