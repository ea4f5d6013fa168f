import Workflow.Store.Column
import Workflow.Store.Step

/-!
# The store in tables

Definitions, approval events, runs and templates are rows of four tables.  Graphs,
triggers and layouts are kept in their wire form, the history of a definition is
put together from the rows of its events, times are kept by universal time, and
what stands in a column of texts is read back as a text.  A step is a transaction:
if it fails, no table changes.
-/

namespace Workflow.Store

/-- A row for a definition, without its history. -/
structure DefinitionRow where
  id : Uuid
  org : Value
  name : Value
  description : Value
  lifecycle : Lifecycle
  approval : ApprovalStatus
  trigger : Value
  graph : Value
  layout : Value
  version : Int
  createdBy : Value
  createdAt : Timestamp
  updatedAt : Timestamp
  template : Option Uuid
  deriving DecidableEq, Repr

structure TemplateRow where
  id : Uuid
  slug : Value
  name : Value
  description : Value
  category : Value
  recommended : Bool
  trigger : Value
  graph : Value
  deriving DecidableEq, Repr

/-- The rows of each table, in the order in which they were inserted. -/
structure Tables where
  definitions : List DefinitionRow
  approvals : List ApprovalEvent
  runs : List Run
  templates : List TemplateRow
  deriving DecidableEq, Repr

/-! ## Rows -/

namespace DefinitionRow

/-- The row that stands for a definition. -/
def ofDefinition (d : Definition) : Except Fault DefinitionRow := do
  let org ← Column.text d.org
  let name ← Column.text d.name
  let description ← Column.text d.description
  let version ← Column.integer d.version
  let createdBy ← Column.text d.createdBy
  pure {
    id := d.id
    org := org
    name := name
    description := description
    lifecycle := d.lifecycle
    approval := d.approval
    trigger := d.trigger.toValue
    graph := d.graph.toValue []
    layout := d.layout.toValue
    version := version
    createdBy := createdBy
    createdAt := d.createdAt.toUniversal
    updatedAt := d.updatedAt.toUniversal
    template := d.template }

/-- Whether the times and the documents of a definition can be stored. -/
def checkStorable (times : List Timestamp) (d : Definition) : Except Fault Unit :=
  Column.checkStorable times [d.trigger.toValue, d.graph.toValue [], d.layout.toValue]

def checkFilled (row : DefinitionRow) : Except Fault Unit :=
  Column.checkFilled [row.org, row.name]

/-- The definition that a row stands for, with its history. -/
def read (row : DefinitionRow) (history : List ApprovalEvent) :
    Except Error Definition := do
  let trigger ← Trigger.ofValue row.trigger
  let graph ← Graph.ofValue row.graph
  let layout ← Layout.ofValue row.layout
  pure ⟨row.id, row.org, row.name, row.description.orElse (.text ""), trigger, graph, row.lifecycle,
    row.approval, layout, history, row.version, row.createdBy, row.createdAt, row.updatedAt,
    row.template⟩

end DefinitionRow

/-- The row of a run, or an event, is itself with its times by universal time. -/
def runRow (r : Run) : Except Fault Run := do
  Column.checkStorable (r.startedAt :: r.finishedAt.toList) [r.context]
  let org ← Column.text r.org
  let lastError ← Column.text r.lastError
  pure { r with
    org := org
    startedAt := r.startedAt.toUniversal
    finishedAt := r.finishedAt.map Timestamp.toUniversal
    lastError := lastError }

def approvalRow (e : ApprovalEvent) : Except Fault ApprovalEvent := do
  Column.checkStorable [e.time] []
  let actor ← Column.text e.actor
  let notes ← Column.text e.notes
  pure { e with actor := actor, notes := notes, time := e.time.toUniversal }

/-- The run that a row stands for. -/
def readRun (row : Run) : Except Error Run := do
  let context ← row.context.toObject
  pure { row with context := .object context }

namespace TemplateRow

/-- A row for a template, under its identifier. -/
def ofTemplate (id : Uuid) (t : Template) : Except Fault TemplateRow := do
  Column.checkStorable [] [t.trigger.toValue, t.graph.toValue []]
  let slug ← Column.text t.slug
  let name ← Column.text t.name
  let description ← Column.text t.description
  let category ← Column.text t.category
  Column.checkFilled [slug, name, category]
  pure ⟨id, slug, name, description, category, t.recommended, t.trigger.toValue,
    t.graph.toValue []⟩

def read (row : TemplateRow) : Except Error Template := do
  let trigger ← Trigger.ofValue row.trigger
  let graph ← Graph.ofValue row.graph
  pure ⟨row.id, row.slug, row.name, row.description.orElse (.text ""), row.category,
    row.recommended, trigger, graph⟩

end TemplateRow

namespace Tables

def empty : Tables := ⟨[], [], [], []⟩

/-! ## Definitions -/

def row? (t : Tables) (id : Uuid) : Option DefinitionRow := t.definitions.find? (·.id = id)

/-- The events of a definition, oldest first; of equal times the one inserted first. -/
def trail (t : Tables) (id : Uuid) : List ApprovalEvent :=
  (t.approvals.filter (·.definition = id)).mergeSort fun a b => a.time.instant ≤ b.time.instant

def load (t : Tables) (id : Uuid) : Except Error Definition :=
  match t.row? id with
  | some row => row.read (t.trail id)
  | none => .error (.definitionMissing id)

def insert (t : Tables) (d : Definition) : Except Error Tables := Column.inserting do
  DefinitionRow.checkStorable [d.createdAt, d.updatedAt] d
  let row ← DefinitionRow.ofDefinition d
  row.checkFilled
  pure { t with definitions := t.definitions ++ [row] }

/-- Overwrites a row that has the expected version, all but the time of its creation. -/
def update (t : Tables) (d : Definition) (current : DefinitionRow) (expected : Value) :
    Except Error Tables := do
  Column.changing (DefinitionRow.checkStorable [d.updatedAt] d)
  let row ← Column.changing (DefinitionRow.ofDefinition d)
  if ← Column.changing (Column.isInteger current.version expected) then
    Column.changing row.checkFilled
    let row := { row with createdAt := current.createdAt }
    pure { t with definitions := t.definitions.map fun r => if r.id = d.id then row else r }
  else .error (.stale d.id expected current.version)

def save (t : Tables) (d : Definition) (expected : Value) : Except Error Tables :=
  match t.row? d.id with
  | none => if expected = .null then t.insert d else .error (.definitionMissing d.id)
  | some current =>
    t.update d current (if expected = .null then .int current.version else expected)

def delete (t : Tables) (id : Uuid) : Except Error Tables :=
  match t.row? id with
  | none => .error (.definitionMissing id)
  | some _ => .ok { t with
      definitions := t.definitions.filter (·.id ≠ id)
      approvals := t.approvals.filter (·.definition ≠ id)
      runs := t.runs.filter (·.definition ≠ id) }

/-- Last changed first. -/
def changedFirst (a b : DefinitionRow) : Bool := b.updatedAt.instant ≤ a.updatedAt.instant

def list (t : Tables) (org : Value) : Except Error (List Definition) := do
  let wanted ← Column.changing (Column.text org)
  let rows := t.definitions.filter fun row => wanted = .null || row.org = wanted
  (rows.mergeSort changedFirst).mapM fun row => row.read (t.trail row.id)

/-! ## Trails -/

def appendApproval (t : Tables) (e : ApprovalEvent) : Except Error Tables := Column.inserting do
  let row ← approvalRow e
  pure { t with approvals := t.approvals ++ [row] }

/-! ## Runs -/

def runRow? (t : Tables) (id : Uuid) : Option Run := t.runs.find? (·.id = id)

def run (t : Tables) (id : Uuid) : Except Error Run :=
  match t.runRow? id with
  | some row => readRun row
  | none => .error (.runMissing id)

def appendRun (t : Tables) (r : Run) : Except Error Tables := do
  let row ← Column.inserting (runRow r)
  if (t.runRow? r.id).isSome then .error (.faulty .duplicateKey)
  else pure { t with runs := t.runs ++ [row] }

/-- Writes how a running run was finished; all else in its row stays. -/
def updateRun (t : Tables) (r : Run) : Except Error Tables := do
  Column.changing (Column.checkStorable r.finishedAt.toList [r.context])
  let lastError ← Column.changing (Column.text r.lastError)
  match t.runRow? r.id with
  | none => .error (.runMissing r.id)
  | some current =>
    if current.status.isTerminal then .error (.runFinished r.id current.status (actionOf r))
    else
      let row := { current with
        status := r.status
        finishedAt := r.finishedAt.map Timestamp.toUniversal
        lastError := lastError
        context := r.context }
      pure { t with runs := t.runs.map fun q => if q.id = r.id then row else q }

/-- The number of rows that a limit admits; null and negative numbers admit all of them. -/
def limitOf : Value → Except Error (Option Int)
  | .null => .ok none
  | v => do pure (some (← v.toInteger))

/-- The first rows, newest first; of equal times the one inserted first. -/
def recent (rows : List Run) (limit : Option Int) : Except Error (List Run) := do
  let rows := rows.mergeSort Run.startedFirst
  let rows ← match limit with
    | none => pure rows
    | some n => do
      let n ← Column.inserting (Column.integer n)
      pure (if n < 0 then rows else rows.take n.toNat)
  rows.mapM readRun

def runsOf (t : Tables) (id : Uuid) (limit : Value) : Except Error (List Run) := do
  let limit ← limitOf limit
  recent (t.runs.filter (·.definition = id)) limit

def runsOfOrg (t : Tables) (org : Value) (limit : Value) : Except Error (List Run) := do
  let limit ← limitOf limit
  let wanted ← Column.inserting (Column.text org)
  recent (t.runs.filter (·.org = wanted)) limit

/-! ## Templates -/

/-- Lower case of the letters A to Z; other characters stay. -/
def foldName (name : Value) : String := name.bare.map Char.toLower

def rowBefore (a b : TemplateRow) : Bool :=
  if a.recommended = b.recommended then !decide (foldName b.name < foldName a.name)
  else a.recommended

def templateRow? (t : Tables) (key : TemplateKey) : Option TemplateRow :=
  let byId (id : Uuid) := t.templates.find? (·.id = id)
  match key with
  | .id id => byId id
  | .text s =>
    match t.templates.find? (·.slug = .text s) with
    | some row => some row
    | none => (Uuid.ofText s).toOption.bind byId

def template (t : Tables) (key : TemplateKey) : Except Error Template :=
  match t.templateRow? key with
  | some row => row.read
  | none => .error (.templateMissing key)

def listTemplates (t : Tables) : Except Error (List Template) :=
  (t.templates.mergeSort rowBefore).mapM TemplateRow.read

/-- Writes a template under its slug; a row that has the slug keeps its identifier.  A row
that is changed is written by the statement after it, `last` telling that none follows. -/
def seedOne (last : Bool) (rows : List TemplateRow) (t : Template) :
    Except Error (List TemplateRow) := do
  let slug ← Column.inserting (Column.text t.slug)
  match rows.find? fun row => slug ≠ .null ∧ row.slug = slug with
  | some row => do
    let change := TemplateRow.ofTemplate row.id t
    let written ← if last then Column.changing change else Column.inserting change
    pure (rows.map fun r => if r.id = row.id then written else r)
  | none => do
    let written ← Column.inserting (TemplateRow.ofTemplate t.id t)
    if rows.any (·.id = t.id) then .error (.faulty .duplicateKey)
    else pure (rows ++ [written])

def seedAll (rows : List TemplateRow) : List Template → Except Error (List TemplateRow)
  | [] => .ok rows
  | t :: rest => do
    let rows ← seedOne rest.isEmpty rows t
    seedAll rows rest

def seed (t : Tables) (templates : List Template) : Except Error Tables := do
  let rows ← seedAll t.templates templates
  pure { t with templates := rows }

/-! ## Steps -/

/-- The state after a transaction, which stays as it was if the transaction fails. -/
def written (t : Tables) (result : Except Error Tables) : Except Error Unit × Tables :=
  match result with
  | .ok t' => (.ok (), t')
  | .error e => (.error e, t)

def take : (s : Step) → Tables → Except Error s.Answer × Tables
  | .load id, t => (t.load id, t)
  | .save d expected, t => t.written (t.save d expected)
  | .delete id, t => t.written (t.delete id)
  | .definitions org, t => (t.list org, t)
  | .appendApproval e, t => t.written (t.appendApproval e)
  | .approvals id, t => (.ok (t.trail id), t)
  | .appendRun r, t => t.written (t.appendRun r)
  | .updateRun r, t => t.written (t.updateRun r)
  | .run id, t => (t.run id, t)
  | .runs id limit, t => (t.runsOf id limit, t)
  | .orgRuns org limit, t => (t.runsOfOrg org limit, t)
  | .summary id, t => (RunSummary.ofRuns id t.runs, t)
  | .templates, t => (t.listTemplates, t)
  | .template key, t => (t.template key, t)

instance : Backend Tables := ⟨take⟩

end Tables

end Workflow.Store
