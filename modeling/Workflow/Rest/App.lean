import Workflow.Rest.Api
import Workflow.Store.Memory
import Workflow.Template.Builtin

/-!
# The application

The interface can be hung below any path, which may have placeholders, or left
out.  Unless it is given a store, an application starts with an empty one, whose
catalog holds the built-in templates if they are wanted.
-/

namespace Workflow.Rest

structure App where
  /-- the path below which the interface is reached -/
  base : String
  enabled : Bool
  canvas : Editor.Canvas
  deriving DecidableEq, Repr

namespace App

/-- The store that an application starts with: the given one, or an empty one whose
catalog is seeded if that is wanted. -/
def startStore (given : Option Store.Memory) (seeded : Bool) : Except Error Store.Memory :=
  match given with
  | some store => .ok store
  | none => do
    let catalog ← Catalog.ofList (if seeded then Template.builtin else [])
    pure (.empty catalog)

/-! ## Paths -/

/-- A part of the base: a literal, or a placeholder such as `{n:int}` for any value of a
type. -/
inductive Part where
  | literal (s : String)
  | integer
  | real
  | identifier
  | anything
  deriving DecidableEq, Repr

namespace Part

/-- The placeholder for the values of a type. -/
def ofType (type : String) : Part :=
  if type = "int" then integer
  else if type = "float" then real
  else if type = "uuid" then identifier
  else anything

def ofText (s : String) : Part :=
  match s.toList with
  | '\x7b' :: rest =>
    if rest.getLast? = some '\x7d' then
      ofType (Text.strip (String.ofList ((rest.dropLast.dropWhile (· ≠ ':')).drop 1)))
    else literal s
  | _ => literal s

/-- Whether the value in a path can be read; none if the path leads elsewhere. -/
def reads? (part : Part) (s : String) : Option Bool :=
  match part with
  | literal t => if s = t then some true else none
  | integer => some ((Numeral.integer? 10 s).isSome && (Numeral.overlong? s).isNone)
  | real => some (Numeral.isReal s)
  | identifier => some (Uuid.ofText s).toOption.isSome
  | anything => some true

end Part

/-- The parts of the base. -/
def parts (app : App) : List Part := (Route.segments app.base).map Part.ofText

/-- Whether a path starts with the given parts, and whether all values in it can be read;
none if it does not. -/
def meets? : List Part → List String → Option Bool
  | [], _ => some true
  | _ :: _, [] => none
  | part :: rest, s :: path => do
    let readable ← part.reads? s
    let others ← meets? rest path
    pure (readable && others)

/-- A request with the path that remains below the base. -/
def localize (app : App) (r : Request) : Request :=
  { r with path := r.path.drop app.parts.length }

def serve {σ : Type} [Store.Backend σ] (app : App) (r : Request) (now : Timestamp)
    (sources : Program.Sources) (s : Program.Session σ) :
    Response × List Event × Program.Session σ :=
  match if app.enabled then meets? app.parts r.path else none with
  | none => (⟨404, none⟩, [], s)
  | some true => (app.localize r).serve app.canvas now sources s
  | some false =>
    let r := app.localize r
    (.ofDetour (Route.unreadable (Route.resolve r.method r.path)), [], s)

end App

end Workflow.Rest
