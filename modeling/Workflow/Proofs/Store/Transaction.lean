import Mathlib.Data.List.Nodup
import Workflow.Proofs.Store.Tables

/-!
# Deleting a definition, statement by statement

On a connection, what its statements have changed is seen by the statements that
follow, and kept only once it is committed; a rollback discards it.  A definition is
deleted by three statements, for its events, its runs and its own row, and only the
last one tells whether there was such a definition: if there was none, what the first
two have removed comes back.

    no such row → all statements are undone           (delete_missing)
    the whole is the one step of the store            (delete_eq_take)
-/

namespace Workflow.Store

/-- What is committed, and what the statements of a connection see. -/
structure Connection where
  committed : Tables
  working : Tables
  deriving DecidableEq, Repr

namespace Connection

/-! ## Statements -/

/-- A connection on which nothing has been changed. -/
def fresh (t : Tables) : Connection := ⟨t, t⟩

def execute (c : Connection) (statement : Tables → Tables) : Connection :=
  { c with working := statement c.working }

def commit (c : Connection) : Connection := fresh c.working

def rollback (c : Connection) : Connection := fresh c.committed

def removeApprovals (id : Uuid) (t : Tables) : Tables :=
  { t with approvals := t.approvals.filter (·.definition ≠ id) }

def removeRuns (id : Uuid) (t : Tables) : Tables :=
  { t with runs := t.runs.filter (·.definition ≠ id) }

def removeDefinition (id : Uuid) (t : Tables) : Tables :=
  { t with definitions := t.definitions.filter (·.id ≠ id) }

/-- The number of rows that `removeDefinition` removes. -/
def matching (id : Uuid) (t : Tables) : Nat := (t.definitions.map DefinitionRow.id).count id

/-- Removes the events, the runs and the row of a definition, and looks then whether that
was one row. -/
def delete (c : Connection) (id : Uuid) : Except Error Unit × Connection :=
  let c := c.execute (removeApprovals id)
  let c := c.execute (removeRuns id)
  let removed := matching id c.working
  let c := c.execute (removeDefinition id)
  if removed = 1 then (.ok (), c.commit) else (.error (.definitionMissing id), c.rollback)

/-! ## Lemmas -/

/-- No two rows have one identifier. -/
def Keyed (t : Tables) : Prop := (t.definitions.map DefinitionRow.id).Nodup

variable {t : Tables} {id : Uuid}

theorem matching_eq_zero (h : t.row? id = none) : matching id t = 0 := by
  refine List.count_eq_zero_of_not_mem fun hm => ?_
  obtain ⟨row, hrow, hid⟩ := List.mem_map.1 hm
  exact List.find?_eq_none.1 h row hrow (decide_eq_true hid)

theorem matching_eq_one (hk : Keyed t) {row : DefinitionRow} (h : t.row? id = some row) :
    matching id t = 1 := by
  refine List.nodup_iff_count_eq_one.1 hk id (List.mem_map.2 ?_)
  exact ⟨row, List.mem_of_find?_eq_some h, Tables.id_of_row? h⟩

/-- The events and the runs that were removed come back if there is no definition. -/
theorem delete_missing (h : t.row? id = none) :
    (fresh t).delete id = (.error (.definitionMissing id), fresh t) := by
  have hnone : matching id (removeRuns id (removeApprovals id t)) ≠ 1 := by
    rw [show matching id (removeRuns id (removeApprovals id t)) = 0 from matching_eq_zero h]
    decide
  unfold delete
  exact if_neg hnone

/-- All statements together are one step of the store, and leave nothing uncommitted. -/
theorem delete_eq_take (hk : Keyed t) (id : Uuid) :
    (fresh t).delete id =
      ((Backend.take (.delete id) t).1, fresh (Backend.take (.delete id) t).2) := by
  show _ = ((t.written (t.delete id)).1, fresh (t.written (t.delete id)).2)
  unfold Tables.delete
  cases h : t.row? id with
  | none => exact delete_missing h
  | some row =>
    have hone : matching id (removeRuns id (removeApprovals id t)) = 1 := matching_eq_one hk h
    unfold delete
    exact if_pos hone

end Connection

end Workflow.Store
