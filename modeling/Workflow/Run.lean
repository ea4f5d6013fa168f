import Workflow.Record

/-!
# Runs

A run is one attempt to execute an automation.  It starts running and is finished
exactly once; a finished run never changes.  Runs are listed newest first, and of
runs that started at one instant the one recorded later comes first.

    finish r .. = .ok r'  →  r.status.isTerminal = false ∧ r'.status = the outcome
-/

namespace Workflow

structure Run where
  id : Uuid
  definition : Uuid
  org : Value
  status : RunStatus
  startedAt : Timestamp
  finishedAt : Option Timestamp
  lastError : Value
  /-- what the trigger handed over -/
  context : Value
  deriving DecidableEq, Repr

namespace Run

/-! ## Finishing -/

/-- The run as its start is recorded. -/
def start (id definition : Uuid) (org context : Value) (now : Timestamp) : Run :=
  ⟨id, definition, org, .running, now, none, .null, context⟩

def finish (r : Run) (status : RunStatus) (action : RunAction) (lastError : Value)
    (now : Timestamp) : Except Error Run :=
  if r.status.isTerminal then .error (.runFinished r.id r.status action)
  else .ok { r with status := status, finishedAt := some now, lastError := lastError }

/-- Finishes a run with an outcome; only a failure keeps its error. -/
def complete (r : Run) (outcome : RunStatus) (error : Value) (now : Timestamp) : Except Error Run :=
  match outcome with
  | .success => r.finish .success .complete .null now
  | .failed => r.finish .failed .complete error now
  | .running | .cancelled => .error (.faulty (.noOutcome outcome))

def cancel (r : Run) (now : Timestamp) : Except Error Run := r.finish .cancelled .cancel .null now

/-! ## Duration -/

/-- Seconds from start to finish, of a finished run. -/
def seconds? (r : Run) : Except Error (Option Binary64) :=
  match r.finishedAt with
  | none => .ok none
  | some t =>
    match r.startedAt.elapsed? t with
    | none => .error (.faulty .mixedZones)
    | some us =>
      match Binary64.ofRatio? (us < 0) us.natAbs 1000000 with
      | some x => .ok (some x)
      | none => .error (.faulty .integerTooLarge)

/-! ## Lists -/

/-- The integer that a limit stands for.  A negative double stands for zero. -/
def limitOf : Value → Except Error Int
  | .int n => .ok n
  | .bool b => .ok (Value.ofBit b)
  | .float x => if x.negative && !x.isZero then .ok 0 else .error (.faulty .notNumber)
  | .null | .text _ | .list _ | .object _ | .numbered .. | .foreign => .error (.faulty .notNumber)

/-- The default length of a list of runs. -/
def listLimit : Int := 50

def startedFirst (a b : Run) : Bool := b.startedAt.instant ≤ a.startedAt.instant

/-- Newest first. -/
def newestFirst (runs : List Run) : List Run := runs.reverse.mergeSort startedFirst

/-- The newest runs, as many as the limit admits. -/
def recent (runs : List Run) (limit : Int) : Except Error (List Run) :=
  if Timestamp.allComparable (runs.map startedAt) then .ok ((newestFirst runs).take limit.toNat)
  else .error (.faulty .mixedZones)

end Run

/-! ## Summaries -/

/-- Statistics of the runs of one automation. -/
structure RunSummary where
  definition : Uuid
  total : Nat
  /-- the start of the newest run -/
  lastStart : Option Timestamp
  /-- the number of runs by status -/
  counts : List (RunStatus × Nat)
  deriving DecidableEq, Repr

namespace RunSummary

/-- Nothing counted yet, under any status. -/
def blank (definition : Uuid) : RunSummary :=
  ⟨definition, 0, none, (Named.cases (α := RunStatus)).map fun s => (s, 0)⟩

/-- The later of two starts; of equal instants the one that came first. -/
def later (seen : Option Timestamp) (t : Timestamp) : Except Error Timestamp :=
  match seen with
  | none => .ok t
  | some u =>
    if Timestamp.comparable t u then .ok (if u.instant < t.instant then t else u)
    else .error (.faulty .mixedZones)

/-- Counts one more under a status. -/
def countOne (s : RunStatus) (counts : List (RunStatus × Nat)) : List (RunStatus × Nat) :=
  counts.map fun e => (e.1, if e.1 = s then e.2 + 1 else e.2)

/-- Takes one more run into account; runs of other automations are ignored. -/
def add (s : RunSummary) (r : Run) : Except Error RunSummary :=
  if r.definition = s.definition then do
    let start ← later s.lastStart r.startedAt
    pure { s with lastStart := some start, counts := countOne r.status s.counts }
  else .ok s

/-- Summarizes the runs of an automation, one after the other. -/
def ofRuns (definition : Uuid) (runs : List Run) : Except Error RunSummary := do
  let s ← runs.foldlM add (blank definition)
  pure { s with total := (s.counts.map Prod.snd).foldl (· + ·) 0 }

end RunSummary

/-! ## Lemmas -/

namespace Run

theorem finish_running (r : Run) (status : RunStatus) (action : RunAction) (lastError : Value)
    (now : Timestamp) (h : r.status.isTerminal = false) :
    r.finish status action lastError now =
      .ok { r with status := status, finishedAt := some now, lastError := lastError } := by
  simp [finish, h]

theorem finish_terminal (r : Run) (status : RunStatus) (action : RunAction) (lastError : Value)
    (now : Timestamp) (h : r.status.isTerminal = true) :
    r.finish status action lastError now = .error (.runFinished r.id r.status action) := by
  simp [finish, h]

end Run

end Workflow
