import Workflow.Error

/-!
# Routes

A path names a resource and a method says what is to be done with it.  A path
that names nothing is not found.  The method is looked at before identifiers in
the path are read, so a wrong method on a wrong identifier is a wrong method.
-/

namespace Workflow.Rest

/-- What a request can ask for. -/
inductive Endpoint where
  | listDefinitions
  | createDefinition
  | getDefinition (id : Uuid)
  | updateDefinition (id : Uuid)
  | deleteDefinition (id : Uuid)
  | getEditable (id : Uuid)
  | saveEditable (id : Uuid)
  | getGraph (id : Uuid)
  | govern (id : Uuid)
  | listApprovals (id : Uuid)
  | activate (id : Uuid)
  | pause (id : Uuid)
  | listRuns (id : Uuid)
  | startRun (id : Uuid)
  | summarizeRuns (id : Uuid)
  | listOrgRuns
  | getRun (id : Uuid)
  | completeRun (id : Uuid)
  | cancelRun (id : Uuid)
  | listTemplates
  | installTemplate (key : String)
  deriving DecidableEq, Repr

/-- Why a request leads nowhere, or that it only asks for the methods of a resource. -/
inductive Detour where
  | notFound
  | methodNotAllowed
  | methodsOnly
  deriving DecidableEq, Repr

namespace Route

/-- The non-empty parts of a path. -/
def segments (path : String) : List String := (path.splitOn "/").filter (!·.isEmpty)

/-- What the methods of a resource do. -/
abbrev Methods := List (String × Endpoint)

/-- The methods of a resource whose identifier is read from the path. -/
inductive Resource where
  | fixed (methods : Methods)
  | identified (segment : String) (methods : List (String × (Uuid → Endpoint)))

def definitionPart (segment : String) : List String → Option Resource
  | [] => some (.identified segment
      [("GET", .getDefinition), ("PATCH", .updateDefinition), ("DELETE", .deleteDefinition)])
  | ["editable-graph"] =>
    some (.identified segment [("GET", .getEditable), ("PUT", .saveEditable)])
  | ["graph"] => some (.identified segment [("GET", .getGraph)])
  | ["approval"] => some (.identified segment [("POST", .govern)])
  | ["approvals"] => some (.identified segment [("GET", .listApprovals)])
  | ["activate"] => some (.identified segment [("POST", .activate)])
  | ["pause"] => some (.identified segment [("POST", .pause)])
  | ["runs"] => some (.identified segment [("GET", .listRuns), ("POST", .startRun)])
  | ["runs", "summary"] => some (.identified segment [("GET", .summarizeRuns)])
  | _ => none

def runPart (segment : String) : List String → Option Resource
  | [] => some (.identified segment [("GET", .getRun)])
  | ["complete"] => some (.identified segment [("POST", .completeRun)])
  | ["cancel"] => some (.identified segment [("POST", .cancelRun)])
  | _ => none

/-- The resource that a path names. -/
def resource? : List String → Option Resource
  | ["definitions"] => some (.fixed [("GET", .listDefinitions), ("POST", .createDefinition)])
  | "definitions" :: segment :: rest => definitionPart segment rest
  | ["runs"] => some (.fixed [("GET", .listOrgRuns)])
  | "runs" :: segment :: rest => runPart segment rest
  | ["templates"] => some (.fixed [("GET", .listTemplates)])
  | ["templates", key, "install"] => some (.fixed [("POST", .installTemplate key)])
  | _ => none

/-- The entry of a method. -/
def choose {α : Type} (method : String) (methods : List (String × α)) : Except Detour α :=
  match Assoc.find? method methods with
  | some a => .ok a
  | none => .error (if method = "OPTIONS" then .methodsOnly else .methodNotAllowed)

/-- Where a request with an unreadable part of its path leads. -/
def unreadable {α : Type} : Except Detour α → Detour
  | .error .methodNotAllowed => .methodNotAllowed
  | .error .notFound | .error .methodsOnly | .ok _ => .notFound

/-- What a request with this method and these segments of its path asks for. -/
def resolve (method : String) (path : List String) : Except Detour Endpoint :=
  match resource? path with
  | none => .error .notFound
  | some (.fixed methods) => choose method methods
  | some (.identified segment methods) =>
    match Uuid.ofText segment, choose method methods with
    | .ok id, .ok endpoint => .ok (endpoint id)
    | .ok _, .error detour => .error detour
    | .error _, chosen => .error (unreadable chosen)

end Route

end Workflow.Rest
