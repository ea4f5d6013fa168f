import Workflow.Proofs.Store.Memory
import Workflow.Proofs.Store.Tables

/-!
# How a store keeps the status of definitions

Whether a definition is active and how its approval stands can be read off either
store, whatever else of a definition its row leaves out or does not give back.
Unlike the whole definition, its status is kept whether or not the fields of the
definition are of their declared types.

    after saving d the status of d.id is that of d, all others stay    (save_ok)
    d was saved → the event of its last change can be recorded         (record_ok)

Memory and tables both keep it so (`Memory.registry`, `Tables.registry`).
-/

namespace Workflow

/-- Where a definition stands: in its lifecycle, and with its approval. -/
def Definition.status (d : Definition) : Lifecycle × ApprovalStatus := (d.lifecycle, d.approval)

namespace Store

open Service (writesDefinitions Shelf)

/-- Where a store keeps the status of definitions, and how its steps treat it. -/
structure Registry (σ : Type) [Backend σ] where
  status : σ → Uuid → Option (Lifecycle × ApprovalStatus)
  Sound : σ → Prop
  /-- what must be so for an event to be recorded -/
  Records : ApprovalEvent → Prop
  load_ok : ∀ {st st' : σ} {id d}, Sound st → Backend.take (.load id) st = (.ok d, st') →
    d.id = id ∧ status st id = some d.status
  save_ok : ∀ {st st' : σ} {d v}, Sound st → Backend.take (.save d v) st = (.ok (), st') →
    Sound st' ∧ ∀ id, status st' id = if id = d.id then some d.status else status st id
  /-- what could be saved had a time that can be stored, so its event has one as well -/
  record_ok : ∀ {st st' : σ} {d v e}, Backend.take (.save d v) st = (.ok (), st') → Records e →
    e.time = d.updatedAt → ∃ st'', Backend.take (.appendApproval e) st' = (.ok (), st'')
  delete_ok : ∀ {st st' : σ} {id}, Sound st → Backend.take (.delete id) st = (.ok (), st') →
    Sound st' ∧ ∀ id', status st' id' = if id' = id then none else status st id'
  take_other : ∀ {s : Step} {st st' : σ} {a}, Sound st → writesDefinitions s = false →
    Backend.take s st = (.ok a, st') → Sound st' ∧ status st' = status st

/-! ## Memory -/

namespace Memory

def status (m : Memory) (id : Uuid) : Option (Lifecycle × ApprovalStatus) :=
  (m.shelf id).map Definition.status

theorem status_put (m : Memory) (d : Definition) (id : Uuid) :
    (m.put d).status id = if id = d.id then some d.status else m.status id := by
  unfold status
  rw [shelf_put]
  by_cases hid : id = d.id
  · rw [if_pos hid, hid, Shelf.put_self]
    rfl
  · rw [if_neg hid, Shelf.put_of_ne _ hid]

/-- Any event can be recorded. -/
def registry : Registry Memory where
  status := status
  Sound := Sound
  Records _ := True
  load_ok := by
    intro m m' id d hs h
    obtain ⟨-, hid, -, hshelf⟩ := shelving.load_ok hs h
    exact ⟨hid, congrArg (Option.map Definition.status) hshelf⟩
  save_ok := by
    intro m m' d v hs h
    obtain rfl := take_save_eq_ok h
    exact ⟨hs.put d, status_put m d⟩
  record_ok := fun _ _ _ => ⟨_, rfl⟩
  delete_ok := by
    intro m m' id hs h
    obtain ⟨hs', hshelf⟩ := shelving.delete_ok hs h
    refine ⟨hs', fun id' => ?_⟩
    show ((shelving.shelf m') id').map Definition.status = _
    rw [hshelf]
    by_cases hid : id' = id
    · rw [if_pos hid, hid, Shelf.put_self]
      rfl
    · rw [if_neg hid, Shelf.put_of_ne _ hid]
      rfl
  take_other := by
    intro s m m' a hs hw h
    obtain ⟨hs', hshelf⟩ := shelving.take_other hs hw h
    have hshelf : m'.shelf = m.shelf := hshelf
    refine ⟨hs', ?_⟩
    unfold status
    rw [hshelf]

end Memory

/-! ## Tables -/

namespace Tables

variable {t t' : Tables} {d : Definition} {v : Value}

def status (t : Tables) (id : Uuid) : Option (Lifecycle × ApprovalStatus) :=
  (t.row? id).map fun row => (row.lifecycle, row.approval)

/-- A row that has the identifier and the status of a definition. -/
structure StandsFor (row : DefinitionRow) (d : Definition) : Prop where
  id : row.id = d.id
  status : (row.lifecycle, row.approval) = d.status

theorem standsFor_of_ofDefinition {row : DefinitionRow}
    (h : DefinitionRow.ofDefinition d = .ok row) :
    StandsFor row d ∧ row.graph = d.graph.toValue [] := by
  obtain ⟨_, -, h⟩ := bind_eq_ok.1 h
  obtain ⟨_, -, h⟩ := bind_eq_ok.1 h
  obtain ⟨_, -, h⟩ := bind_eq_ok.1 h
  obtain ⟨_, -, h⟩ := bind_eq_ok.1 h
  obtain ⟨_, -, h⟩ := bind_eq_ok.1 h
  obtain rfl := pure_eq_ok.1 h
  exact ⟨⟨rfl, rfl⟩, rfl⟩

theorem storable_of_checkStorable {times : List Timestamp}
    (h : DefinitionRow.checkStorable times d = .ok ()) :
    (∀ t ∈ times, t.isStorable = true) ∧ (d.graph.toValue []).isWritable = true := by
  unfold DefinitionRow.checkStorable Column.checkStorable at h
  split at h
  next hall =>
    obtain ⟨htimes, hdocuments⟩ := Bool.and_eq_true_iff.1 hall
    exact ⟨List.all_eq_true.1 htimes, List.all_eq_true.1 hdocuments _ (by simp)⟩
  · cases h

theorem read_eq_ok {row : DefinitionRow} {history : List ApprovalEvent}
    (h : row.read history = .ok d) : StandsFor row d ∧ d.history = history := by
  obtain ⟨_, -, h⟩ := bind_eq_ok.1 h
  obtain ⟨_, -, h⟩ := bind_eq_ok.1 h
  obtain ⟨_, -, h⟩ := bind_eq_ok.1 h
  obtain rfl := pure_eq_ok.1 h
  exact ⟨⟨rfl, rfl⟩, rfl⟩

/-- What is saved has a new row, or takes the place of the row that it had. -/
theorem save_eq_ok (h : t.save d v = .ok t') :
    d.updatedAt.isStorable = true ∧ ∃ row, StandsFor row d ∧ row.graph.isWritable = true ∧
      ((t.row? d.id = none ∧ t' = { t with definitions := t.definitions ++ [row] }) ∨
        ((t.row? d.id).isSome = true ∧ t' = { t with
          definitions := t.definitions.map fun r => if r.id = d.id then row else r })) := by
  unfold save at h
  cases hr : t.row? d.id with
  | none =>
    simp only [hr] at h
    split at h
    · obtain ⟨_, hcheck, h⟩ := bind_eq_ok.1 (Column.inserting_eq_ok.1 h)
      obtain ⟨row, hrow, h⟩ := bind_eq_ok.1 h
      obtain ⟨_, -, h⟩ := bind_eq_ok.1 h
      obtain rfl := pure_eq_ok.1 h
      obtain ⟨htimes, hgraph⟩ := storable_of_checkStorable hcheck
      obtain ⟨hstands, hwritten⟩ := standsFor_of_ofDefinition hrow
      exact ⟨htimes _ (by simp), row, hstands, hwritten ▸ hgraph, Or.inl ⟨rfl, rfl⟩⟩
    · cases h
  | some current =>
    simp only [hr] at h
    obtain ⟨_, hcheck, h⟩ := bind_eq_ok.1 h
    obtain ⟨row, hrow, h⟩ := bind_eq_ok.1 h
    obtain ⟨same, -, h⟩ := bind_eq_ok.1 h
    split at h
    · obtain ⟨_, -, h⟩ := bind_eq_ok.1 h
      obtain rfl := pure_eq_ok.1 h
      obtain ⟨htimes, hgraph⟩ := storable_of_checkStorable (Column.changing_eq_ok.1 hcheck)
      obtain ⟨hstands, hwritten⟩ := standsFor_of_ofDefinition (Column.changing_eq_ok.1 hrow)
      exact ⟨htimes _ (by simp), { row with createdAt := current.createdAt },
        ⟨hstands.id, hstands.status⟩, hwritten ▸ hgraph, Or.inr ⟨rfl, rfl⟩⟩
    · cases h

/-- No step touches the templates. -/
theorem take_templates {s : Step} {r : Except Error s.Answer} (h : Backend.take s t = (r, t')) :
    t'.templates = t.templates := by
  cases r with
  | error e => rw [take_error_eq h]
  | ok a =>
    cases s with
    | save d expected =>
      obtain ⟨-, _, -, -, ⟨-, rfl⟩ | ⟨-, rfl⟩⟩ := save_eq_ok (written_eq_ok h)
      · rfl
      · rfl
    | delete id => rw [delete_eq_ok (written_eq_ok h)]
    | load _ | definitions _ | appendApproval _ | approvals _ | appendRun _ | updateRun _ | run _
    | runs _ _ | orgRuns _ _ | summary _ | templates | template _ =>
      exact (take_other_definitions rfl h).2

/-- The graph of each row can be written. -/
def Written (t : Tables) : Prop := ∀ row ∈ t.definitions, row.graph.isWritable = true

theorem Written.take {s : Step} {r : Except Error s.Answer} (hw : t.Written)
    (h : Backend.take s t = (r, t')) : t'.Written := by
  cases r with
  | error e =>
    rw [take_error_eq h]
    exact hw
  | ok a =>
    cases s with
    | save d expected =>
      obtain ⟨-, row, -, hgraph, ⟨-, rfl⟩ | ⟨-, rfl⟩⟩ := save_eq_ok (written_eq_ok h)
      · intro r hr
        rcases List.mem_append.1 hr with hr | hr
        · exact hw r hr
        · rwa [List.mem_singleton.1 hr]
      · intro r hr
        obtain ⟨q, hq, rfl⟩ := List.mem_map.1 hr
        show (if q.id = d.id then row else q).graph.isWritable = true
        split
        · exact hgraph
        · exact hw q hq
    | delete id =>
      obtain rfl := delete_eq_ok (written_eq_ok h)
      exact fun r hr => hw r (List.mem_filter.1 hr).1
    | load _ | definitions _ | appendApproval _ | approvals _ | appendRun _ | updateRun _ | run _
    | runs _ _ | orgRuns _ _ | summary _ | templates | template _ =>
      unfold Written
      rw [(take_other_definitions rfl h).1]
      exact hw

/-- What is loaded has the trail for its history. -/
theorem history_of_load {id : Uuid} (h : t.load id = .ok d) : d.history = t.trail id := by
  unfold load at h
  split at h
  · exact (read_eq_ok h).2
  · cases h

/-- An event is recorded if its time can be stored, and its actor and its notes fit columns. -/
theorem appendApproval_of_column (t : Tables) {e : ApprovalEvent} {actor notes : Value}
    (htime : e.time.isStorable = true) (hactor : Column.text e.actor = .ok actor)
    (hnotes : Column.text e.notes = .ok notes) :
    t.appendApproval e = .ok { t with approvals := t.approvals ++
      [{ e with actor := actor, notes := notes, time := e.time.toUniversal }] } := by
  have hcheck : Column.checkStorable [e.time] [] = .ok () := by
    unfold Column.checkStorable
    simp [htime]
  unfold appendApproval approvalRow
  rw [hcheck, hactor, hnotes]
  rfl

/-- What is loaded has a row. -/
theorem row?_of_load {id : Uuid} (h : t.load id = .ok d) :
    ∃ row, t.row? id = some row ∧ StandsFor row d := by
  unfold load at h
  split at h
  next row hrow => exact ⟨row, hrow, (read_eq_ok h).1⟩
  · cases h

/-- An event is recorded if its actor and its notes fit columns of texts. -/
def registry : Registry Tables where
  status := status
  Sound _ := True
  Records e := e.actor.IsTextOrNull ∧ e.notes.IsTextOrNull
  load_ok := by
    intro t t' id d _ h
    obtain ⟨hl, -⟩ := Prod.mk.inj h
    obtain ⟨row, hr, hstands⟩ := row?_of_load hl
    refine ⟨hstands.id.symm.trans (id_of_row? hr), ?_⟩
    unfold status
    rw [hr, Option.map_some, hstands.status]
  save_ok := by
    intro t t' d v _ h
    obtain ⟨-, row, hstands, -, hrows⟩ := save_eq_ok (written_eq_ok h)
    refine ⟨trivial, fun id => ?_⟩
    unfold status
    rw [← hstands.id] at hrows ⊢
    rcases hrows with ⟨hnone, rfl⟩ | ⟨hsome, rfl⟩
    · rw [row?_append hnone rfl]
      split
      · rw [Option.map_some, hstands.status]
      · rfl
    · rw [row?_replace row rfl]
      split
      next hid =>
        obtain ⟨current, hcurrent⟩ := Option.isSome_iff_exists.1 hsome
        rw [hid, hcurrent, Option.map_some, Option.map_some, hstands.status]
      · rfl
  record_ok := by
    rintro t t' d v e h ⟨hactor, hnotes⟩ htime
    obtain ⟨hstorable, -⟩ := save_eq_ok (written_eq_ok h)
    have happend := t'.appendApproval_of_column (htime ▸ hstorable) hactor.column hnotes.column
    exact ⟨_, congrArg t'.written happend⟩
  delete_ok := by
    intro t t' id _ h
    obtain rfl := delete_eq_ok (written_eq_ok h)
    refine ⟨trivial, fun id' => ?_⟩
    unfold status
    rw [row?_remove rfl]
    split
    · rfl
    · rfl
  take_other := by
    intro s t t' a _ hw h
    obtain ⟨hd, -⟩ := take_other_definitions hw h
    refine ⟨trivial, ?_⟩
    unfold status row?
    rw [hd]

end Tables

end Store

end Workflow
