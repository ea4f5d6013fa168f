import Workflow.Store.Step

/-!
# The store in memory

Whole definitions, trails and runs are kept as they are given, in maps by
identifier.  A step that fails changes nothing.

    (m.put d).load d.id = .ok d                                 (load_put_self)
    id ≠ d.id → (m.put d).load id = m.load id                   (load_put_of_ne)
-/

namespace Workflow.Store

structure Memory where
  catalog : Catalog
  definitions : List (Uuid × Definition)
  trails : List (Uuid × List ApprovalEvent)
  runs : List (Uuid × Run)
  deriving DecidableEq, Repr

namespace Memory

def empty (catalog : Catalog) : Memory := ⟨catalog, [], [], []⟩

/-! ## Definitions -/

def load (m : Memory) (id : Uuid) : Except Error Definition :=
  match Assoc.find? id m.definitions with
  | some d => .ok d
  | none => .error (.definitionMissing id)

/-- Whether the stored definition has the version that a writer expects. -/
def checkVersion (m : Memory) (id : Uuid) (expected : Value) : Except Error Unit :=
  if expected = .null then .ok ()
  else do
    let current ← m.load id
    if (Value.int current.version).same expected then pure ()
    else .error (.stale id expected current.version)

def put (m : Memory) (d : Definition) : Memory :=
  { m with definitions := Assoc.put d.id d m.definitions }

def save (m : Memory) (d : Definition) (expected : Value) : Except Error Memory := do
  m.checkVersion d.id expected
  pure (m.put d)

def delete (m : Memory) (id : Uuid) : Except Error Memory := do
  let _ ← m.load id
  pure { m with
    definitions := Assoc.drop id m.definitions
    trails := Assoc.drop id m.trails
    runs := m.runs.filter (·.2.definition ≠ id) }

/-- Last changed first. -/
def changedFirst (a b : Definition) : Bool := b.updatedAt.instant ≤ a.updatedAt.instant

def list (m : Memory) (org : Value) : Except Error (List Definition) :=
  let ds := (Assoc.values m.definitions).filter fun d => org = .null || d.org.same org
  if Timestamp.allComparable (ds.map Definition.updatedAt) then .ok (ds.mergeSort changedFirst)
  else .error (.faulty .mixedZones)

/-! ## Trails -/

def trail (m : Memory) (id : Uuid) : List ApprovalEvent := (Assoc.find? id m.trails).getD []

def appendApproval (m : Memory) (e : ApprovalEvent) : Memory :=
  { m with trails := Assoc.put e.definition (m.trail e.definition ++ [e]) m.trails }

/-! ## Runs -/

def run (m : Memory) (id : Uuid) : Except Error Run :=
  match Assoc.find? id m.runs with
  | some r => .ok r
  | none => .error (.runMissing id)

def putRun (m : Memory) (r : Run) : Memory := { m with runs := Assoc.put r.id r m.runs }

def updateRun (m : Memory) (r : Run) : Except Error Memory := do
  let current ← m.run r.id
  if current.status.isTerminal then .error (.runFinished r.id current.status (actionOf r))
  else pure (m.putRun r)

def runsOf (m : Memory) (id : Uuid) (limit : Value) : Except Error (List Run) := do
  Run.recent ((Assoc.values m.runs).filter (·.definition = id)) (← Run.limitOf limit)

def runsOfOrg (m : Memory) (org : Value) (limit : Value) : Except Error (List Run) := do
  Run.recent ((Assoc.values m.runs).filter (·.org.same org)) (← Run.limitOf limit)

def summary (m : Memory) (id : Uuid) : Except Error RunSummary :=
  RunSummary.ofRuns id (Assoc.values m.runs)

/-! ## Steps -/

/-- The state after a write, which stays as it was if the write fails. -/
def written (m : Memory) (result : Except Error Memory) : Except Error Unit × Memory :=
  match result with
  | .ok m' => (.ok (), m')
  | .error e => (.error e, m)

def take : (s : Step) → Memory → Except Error s.Answer × Memory
  | .load id, m => (m.load id, m)
  | .save d expected, m => m.written (m.save d expected)
  | .delete id, m => m.written (m.delete id)
  | .definitions org, m => (m.list org, m)
  | .appendApproval e, m => (.ok (), m.appendApproval e)
  | .approvals id, m => (.ok (m.trail id), m)
  | .appendRun r, m => (.ok (), m.putRun r)
  | .updateRun r, m => m.written (m.updateRun r)
  | .run id, m => (m.run id, m)
  | .runs id limit, m => (m.runsOf id limit, m)
  | .orgRuns org limit, m => (m.runsOfOrg org limit, m)
  | .summary id, m => (m.summary id, m)
  | .templates, m => (m.catalog.list .null, m)
  | .template key, m => (m.catalog.get key, m)

instance : Backend Memory := ⟨take⟩

/-! ## Lemmas -/

@[simp] theorem load_put_self (m : Memory) (d : Definition) : (m.put d).load d.id = .ok d := by
  simp [load, put]

theorem load_put_of_ne (m : Memory) (d : Definition) {id : Uuid} (h : id ≠ d.id) :
    (m.put d).load id = m.load id := by
  simp [load, put, Assoc.find?_put_of_ne h]

end Memory

end Workflow.Store
