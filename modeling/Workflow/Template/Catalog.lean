import Workflow.Template.Basic
import Workflow.Text.Lowercase

/-!
# The catalog

Templates are found by identifier or by slug, and no two of them share either.  A
template that is registered under a known identifier or slug takes the place of
the one that had it.
-/

namespace Workflow

structure Catalog where
  templates : List (Uuid × Template)
  /-- the template under each slug, as a key -/
  slugs : List (Value × Uuid)
  deriving DecidableEq, Repr

namespace Catalog

def empty : Catalog := ⟨[], []⟩

def size (c : Catalog) : Nat := c.templates.length

/-! ## Registration -/

/-- Removes an entry, which must be there. -/
def remove {κ α : Type} [DecidableEq κ] (shown : String) (key : κ) (m : List (κ × α)) :
    Except Error (List (κ × α)) :=
  if Assoc.contains key m then .ok (Assoc.drop key m) else .error (.faulty (.missingEntry shown))

def removeTemplate (c : Catalog) (id : Uuid) : Except Error Catalog := do
  pure { c with templates := ← remove id.literal id c.templates }

def removeSlug (c : Catalog) (slug : Value) : Except Error Catalog := do
  pure { c with slugs := ← remove slug.literal slug.key c.slugs }

/-- Removes another template that holds the slug. -/
def releaseSlug (c : Catalog) (t : Template) : Except Error Catalog :=
  match Assoc.find? t.slug.key c.slugs with
  | some previous => if previous = t.id then .ok c else c.removeTemplate previous
  | none => .ok c

/-- Removes the slug under which the template has been known. -/
def renameSlug (c : Catalog) (t : Template) : Except Error Catalog :=
  match Assoc.find? t.id c.templates with
  | some existing =>
    if existing.slug.key = t.slug.key then .ok c else c.removeSlug existing.slug
  | none => .ok c

def add (c : Catalog) (t : Template) : Except Error Catalog := do
  let c ← c.releaseSlug t
  let c ← c.renameSlug t
  pure ⟨Assoc.put t.id t c.templates, Assoc.put t.slug.key t.id c.slugs⟩

def register (c : Catalog) (t : Template) : Except Error Catalog :=
  if t.slug.isKey then c.add t else .error (.faulty .notKey)

def ofList (templates : List Template) : Except Error Catalog := templates.foldlM register empty

/-! ## Lookup -/

/-- The identifier that a key stands for: a text is a slug first. -/
def resolve (c : Catalog) : TemplateKey → Option Uuid
  | .id id => some id
  | .text s =>
    match Assoc.find? (.text s) c.slugs with
    | some id => some id
    | none => (Uuid.ofText s).toOption

def find? (c : Catalog) (key : TemplateKey) : Option Template :=
  (c.resolve key).bind fun id => Assoc.find? id c.templates

def get (c : Catalog) (key : TemplateKey) : Except Error Template :=
  match c.find? key with
  | some t => .ok t
  | none => .error (.templateMissing key)

/-- Whether a key is an identifier or a slug of the catalog; a text is a slug only. -/
def contains (c : Catalog) : TemplateKey → Bool
  | .id id => Assoc.contains id c.templates
  | .text s => Assoc.contains (.text s) c.slugs

/-- Removes a template and its slug; an unknown key is ignored. -/
def unregister (c : Catalog) (key : TemplateKey) : Except Error Catalog :=
  match c.resolve key with
  | none => .ok c
  | some id =>
    match Assoc.find? id c.templates with
    | none => .ok c
    | some t => { c with templates := Assoc.drop id c.templates }.removeSlug t.slug

/-! ## Listing -/

/-- Recommended templates come first, then the order of the names. -/
def before (fold : Value → String) (t u : Template) : Bool :=
  if t.recommended = u.recommended then !decide (fold u.name < fold t.name) else t.recommended

def namesAreTexts (ts : List Template) : Bool :=
  ts.all fun t => match t.name with
    | .text _ => true
    | _ => false

/-- Templates, all or those of a category, by name regardless of case. -/
def list (c : Catalog) (category : Value) : Except Error (List Template) :=
  let ts := (Assoc.values c.templates).filter fun t =>
    category = .null || t.category.same category
  if namesAreTexts ts then .ok (ts.mergeSort (before fun name => Text.lowercase name.bare))
  else .error (.faulty .notText)

end Catalog

end Workflow
