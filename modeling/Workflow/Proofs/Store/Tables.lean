import Workflow.Proofs.Service.Shelving
import Workflow.Proofs.Store.Row

/-!
# Definitions in tables

The store in tables keeps definitions of declared types without their history,
and refuses what does not fit its columns.  A table that holds only rows of such
definitions stays so.

    d typed → after saving d the shelf has d, the history apart   (shelf_append, shelf_replace)
    d fits → d is saved over v ↔ the stored version is v          (update_of_fits)
-/

namespace Workflow.Store

open Service (Shelf Shelving writesDefinitions)

namespace Tables

/-- Each row is that of a definition of declared types. -/
structure Sound (t : Tables) : Prop where
  definitions : ∀ row ∈ t.definitions, ∃ d : Definition, d.Typed ∧ row = DefinitionRow.of d
  templates : ∀ row ∈ t.templates, row.description.IsTextOrNull

/-- The definitions that the rows stand for, without their history. -/
def shelf (t : Tables) : Shelf := fun id => (t.row? id).bind fun row => (row.read []).toOption

variable {t t' : Tables} {d c : Definition} {id : Uuid} {row : DefinitionRow}

/-! ## Rows -/

theorem id_of_row? (h : t.row? id = some row) : row.id = id := by
  have hid := List.find?_some h
  simpa using hid

theorem row_of_row? (hs : t.Sound) (h : t.row? id = some row) :
    ∃ d : Definition, d.Typed ∧ row = DefinitionRow.of d ∧ d.id = id ∧
      t.shelf id = some d.withoutHistory := by
  obtain ⟨d, hd, rfl⟩ := hs.definitions row (List.mem_of_find?_eq_some h)
  have hid : d.id = id := id_of_row? h
  refine ⟨d, hd, rfl, hid, ?_⟩
  unfold shelf
  rw [h, Option.bind_some, DefinitionRow.read_of hd]
  rfl

theorem row?_of_shelf (hs : t.Sound) (h : t.shelf id = some c) :
    t.row? id = some (DefinitionRow.of c) ∧ c.Typed ∧ c.id = id := by
  cases hr : t.row? id with
  | none =>
    unfold shelf at h
    rw [hr] at h
    cases h
  | some row =>
    obtain ⟨d, hd, rfl, hid, hshelf⟩ := row_of_row? hs hr
    obtain rfl := Option.some.inj (hshelf.symm.trans h)
    exact ⟨rfl, { hd with }, hid⟩

theorem shelf_eq_none_iff (hs : t.Sound) : t.shelf id = none ↔ t.row? id = none := by
  constructor
  · intro h
    cases hr : t.row? id with
    | none => rfl
    | some row =>
      obtain ⟨d, -, -, -, hshelf⟩ := row_of_row? hs hr
      rw [h] at hshelf
      cases hshelf
  · intro h
    unfold shelf
    rw [h]
    rfl

/-- Each row can be read. -/
theorem load_of_mem (hs : t.Sound) (h : row ∈ t.definitions) : ∃ d, t.load row.id = .ok d := by
  have hsome : (t.row? row.id).isSome = true := List.find?_isSome.2 ⟨row, h, by simp⟩
  obtain ⟨row', hrow⟩ := Option.isSome_iff_exists.1 hsome
  obtain ⟨d, hd, rfl, -⟩ := row_of_row? hs hrow
  refine ⟨{ d with history := t.trail row.id }, ?_⟩
  unfold load
  rw [hrow]
  exact DefinitionRow.read_of hd _

theorem read_of_nil (hd : d.Typed) :
    ((DefinitionRow.of d).read []).toOption = some d.withoutHistory := by
  rw [DefinitionRow.read_of hd]
  rfl

/-! ## Writing rows -/

theorem row?_append (hr : t.row? row.id = none) (h : t'.definitions = t.definitions ++ [row])
    (id : Uuid) : t'.row? id = if id = row.id then some row else t.row? id := by
  unfold row?
  rw [h]
  exact Assoc.find?_snoc DefinitionRow.id hr id

theorem row?_replace (row : DefinitionRow)
    (h : t'.definitions = t.definitions.map fun r => if r.id = row.id then row else r)
    (id : Uuid) :
    t'.row? id = if id = row.id then (t.row? id).map fun _ => row else t.row? id := by
  unfold row?
  rw [h]
  exact Assoc.find?_map_replace DefinitionRow.id t.definitions row id

theorem row?_remove (h : t'.definitions = t.definitions.filter (·.id ≠ id)) (id' : Uuid) :
    t'.row? id' = if id' = id then none else t.row? id' := by
  unfold row?
  rw [h]
  exact Assoc.find?_remove DefinitionRow.id t.definitions id id'

theorem shelf_put (hd : d.Typed)
    (h : ∀ id, t'.row? id = if id = d.id then some (DefinitionRow.of d) else t.row? id) :
    t'.shelf = t.shelf.put d.id (some d.withoutHistory) := by
  funext id
  unfold shelf
  rw [h]
  by_cases hid : id = d.id
  · rw [if_pos hid, hid, Shelf.put_self]
    exact read_of_nil hd
  · rw [if_neg hid, Shelf.put_of_ne _ hid]

theorem shelf_append (hd : d.Typed) (hr : t.row? d.id = none)
    (h : t'.definitions = t.definitions ++ [DefinitionRow.of d]) :
    t'.shelf = t.shelf.put d.id (some d.withoutHistory) :=
  shelf_put hd (row?_append hr h)

theorem shelf_replace (hd : d.Typed) (hr : t.row? d.id = some row)
    (h : t'.definitions = t.definitions.map fun r =>
      if r.id = d.id then DefinitionRow.of d else r) :
    t'.shelf = t.shelf.put d.id (some d.withoutHistory) := by
  have hrow : ∀ id, t'.row? id
      = if id = d.id then (t.row? id).map fun _ => DefinitionRow.of d else t.row? id :=
    row?_replace (DefinitionRow.of d) h
  refine shelf_put hd fun id => ?_
  rw [hrow]
  by_cases hid : id = d.id
  · rw [if_pos hid, if_pos hid, hid, hr, Option.map_some]
  · rw [if_neg hid, if_neg hid]

theorem shelf_remove (h : t'.definitions = t.definitions.filter (·.id ≠ id)) :
    t'.shelf = t.shelf.put id none := by
  funext id'
  unfold shelf
  rw [row?_remove h]
  by_cases hid : id' = id
  · rw [if_pos hid, hid, Shelf.put_self]
    rfl
  · rw [if_neg hid, Shelf.put_of_ne _ hid]

/-! ## Saving -/

theorem save_of_none {v : Int} (h : t.row? d.id = none) :
    t.save d (.int v) = .error (.definitionMissing d.id) := by
  unfold save
  rw [h]
  show (if Value.int v = .null then _ else _ : Except Error Tables) = _
  rw [if_neg Value.noConfusion]

theorem save_of_some {v : Int} (h : t.row? d.id = some row) :
    t.save d (.int v) = t.update d row (.int v) := by
  unfold save
  rw [h]
  show t.update d row (if Value.int v = .null then _ else _) = _
  rw [if_neg Value.noConfusion]

/-- What fits is written just if the expected version is the stored one. -/
theorem update_of_fits (hd : d.Typed) (hf : DefinitionRow.Fits d) {v : Int}
    (hv : -(2 ^ 63) ≤ v ∧ v < 2 ^ 63) :
    t.update d row (.int v) =
      if row.version = v then .ok { t with definitions := t.definitions.map fun r =>
        if r.id = d.id then { DefinitionRow.of d with createdAt := row.createdAt } else r }
      else .error (.stale d.id (.int v) row.version) := by
  have hi : Column.isInteger row.version (.int v) = .ok (decide (row.version = v)) := by
    show (Column.integer v >>= fun n => pure (decide (row.version = n))) = _
    rw [Column.integer_of_fits hv]
    rfl
  unfold update
  rw [hf.1, DefinitionRow.ofDefinition_of_typed hd hf.2, hi]
  show (if decide (row.version = v) = true then _ else _ : Except Error Tables) = _
  by_cases hver : row.version = v
  · rw [if_pos (decide_eq_true hver), if_pos hver, DefinitionRow.checkFilled_of hd]
    rfl
  · rw [if_neg (by simpa using hver), if_neg hver]

/-- What does not fit is refused before the version is looked at. -/
theorem update_of_not_fits (hd : d.Typed) (hf : ¬DefinitionRow.Fits d) (expected : Value) :
    ∃ e, t.update d row expected = .error e := by
  unfold update
  cases hc : DefinitionRow.checkStorable [d.updatedAt] d with
  | error fault => exact ⟨_, rfl⟩
  | ok _ =>
    have hr : ¬(-(2 ^ 63) ≤ d.version ∧ d.version < 2 ^ 63) := fun hr => hf ⟨hc, hr⟩
    have hi : Column.integer d.version = .error .integerTooWide := by
      unfold Column.integer
      exact if_neg hr
    rw [DefinitionRow.ofDefinition_eq hd, hi]
    exact ⟨_, rfl⟩

theorem insert_of_fits (hd : d.Typed)
    (hc : DefinitionRow.checkStorable [d.createdAt, d.updatedAt] d = .ok ())
    (hv : -(2 ^ 63) ≤ d.version ∧ d.version < 2 ^ 63) :
    t.insert d = .ok { t with definitions := t.definitions ++ [DefinitionRow.of d] } := by
  unfold insert
  rw [hc, DefinitionRow.ofDefinition_of_typed hd hv]
  show Column.inserting ((DefinitionRow.of d).checkFilled >>= _) = _
  rw [DefinitionRow.checkFilled_of hd]
  rfl

/-- A definition that is new is inserted or refused. -/
theorem insert_eq (hd : d.Typed) :
    (∃ e, t.insert d = .error e) ∨
      t.insert d = .ok { t with definitions := t.definitions ++ [DefinitionRow.of d] } := by
  cases hc : DefinitionRow.checkStorable [d.createdAt, d.updatedAt] d with
  | error fault =>
    unfold insert
    rw [hc]
    exact Or.inl ⟨_, rfl⟩
  | ok _ =>
    cases hi : Column.integer d.version with
    | error fault =>
      unfold insert
      rw [hc, DefinitionRow.ofDefinition_eq hd, hi]
      exact Or.inl ⟨_, rfl⟩
    | ok n => exact Or.inr (insert_of_fits hd hc (Column.integer_eq_ok hi).2)

/-! ## Soundness -/

theorem Sound.append (hs : t.Sound) (hd : d.Typed) :
    ({ t with definitions := t.definitions ++ [DefinitionRow.of d] } : Tables).Sound where
  definitions := by
    intro row hrow
    rcases List.mem_append.1 hrow with hrow | hrow
    · exact hs.definitions row hrow
    · exact ⟨d, hd, List.mem_singleton.1 hrow⟩
  templates := hs.templates

theorem Sound.replace (hs : t.Sound) (hd : d.Typed) :
    ({ t with definitions := t.definitions.map fun r =>
      if r.id = d.id then DefinitionRow.of d else r } : Tables).Sound where
  definitions := by
    intro row hrow
    obtain ⟨r, hr, rfl⟩ := List.mem_map.1 hrow
    by_cases hid : r.id = d.id
    · rw [if_pos hid]
      exact ⟨d, hd, rfl⟩
    · rw [if_neg hid]
      exact hs.definitions r hr
  templates := hs.templates

/-! ## Steps -/

theorem written_eq_error {r : Except Error Tables} {e : Error}
    (h : t.written r = (.error e, t')) : t' = t := by
  unfold written at h
  cases r with
  | ok a => cases h
  | error e => exact (Prod.mk.inj h).2.symm

theorem refused_of_written {r : Except Error Tables} {e : Error}
    (h : t.written r = (.error e, t')) : r = .error e := by
  cases r with
  | ok t => cases h
  | error e' =>
    obtain rfl := Except.error.inj (Prod.mk.inj h).1
    rfl

theorem written_eq_ok {r : Except Error Tables} (h : t.written r = (.ok (), t')) :
    r = .ok t' := by
  unfold written at h
  cases r with
  | ok a => rw [(Prod.mk.inj h).2]
  | error e => cases h

theorem take_save (t : Tables) (d : Definition) (expected : Value) :
    Backend.take (.save d expected) t = t.written (t.save d expected) := rfl

theorem appendApproval_eq_ok {e : ApprovalEvent} (h : t.appendApproval e = .ok t') :
    ∃ row, approvalRow e = .ok row ∧ t' = { t with approvals := t.approvals ++ [row] } := by
  obtain ⟨row, hrow, h⟩ := bind_eq_ok.1 (Column.inserting_eq_ok.1 h)
  exact ⟨row, hrow, (pure_eq_ok.1 h).symm⟩

theorem appendRun_eq_ok {r : Run} (h : t.appendRun r = .ok t') :
    ∃ row, runRow r = .ok row ∧ t.runRow? r.id = none ∧
      t' = { t with runs := t.runs ++ [row] } := by
  obtain ⟨row, hrow, h⟩ := bind_eq_ok.1 h
  split at h
  · cases h
  next hfree =>
    have hnone : t.runRow? r.id = none := by simpa using hfree
    exact ⟨row, Column.inserting_eq_ok.1 hrow, hnone, (pure_eq_ok.1 h).symm⟩

/-- Only how a run ended is written over what its row has. -/
theorem updateRun_eq_ok {r : Run} (h : t.updateRun r = .ok t') :
    ∃ current lastError, t.runRow? r.id = some current ∧ current.status.isTerminal = false ∧
      Column.text r.lastError = .ok lastError ∧
      t' = { t with runs := t.runs.map fun q => if q.id = r.id then { current with
        status := r.status
        finishedAt := r.finishedAt.map Timestamp.toUniversal
        lastError := lastError
        context := r.context } else q } := by
  obtain ⟨_, -, h⟩ := bind_eq_ok.1 h
  obtain ⟨lastError, hlast, h⟩ := bind_eq_ok.1 h
  cases hr : t.runRow? r.id with
  | none => simp [hr] at h
  | some current =>
    simp only [hr] at h
    split at h
    · cases h
    next hrunning =>
      have hrunning : current.status.isTerminal = false := by simpa using hrunning
      exact ⟨current, lastError, rfl, hrunning, Column.changing_eq_ok.1 hlast,
        (pure_eq_ok.1 h).symm⟩

/-- Only saving and deleting touch the definitions, and nothing touches the templates. -/
theorem take_other_definitions {s : Step} {a : s.Answer} (hw : writesDefinitions s = false)
    (h : Backend.take s t = (.ok a, t')) :
    t'.definitions = t.definitions ∧ t'.templates = t.templates := by
  cases s with
  | save d expected => cases hw
  | delete id => cases hw
  | updateRun r =>
    obtain ⟨_, _, -, -, -, rfl⟩ := updateRun_eq_ok (written_eq_ok h)
    exact ⟨rfl, rfl⟩
  | appendApproval e =>
    obtain ⟨_, -, rfl⟩ := appendApproval_eq_ok (written_eq_ok h)
    exact ⟨rfl, rfl⟩
  | appendRun r =>
    obtain ⟨_, -, -, rfl⟩ := appendRun_eq_ok (written_eq_ok h)
    exact ⟨rfl, rfl⟩
  | load _ | definitions _ | approvals _ | run _ | runs _ _ | orgRuns _ _ | summary _
  | templates | template _ =>
    rw [← (Prod.mk.inj h).2]
    exact ⟨rfl, rfl⟩

theorem take_error_eq {s : Step} {e : Error} (h : Backend.take s t = (.error e, t')) :
    t' = t := by
  cases s with
  | save d expected => exact written_eq_error h
  | delete id => exact written_eq_error h
  | updateRun r => exact written_eq_error h
  | appendApproval e => exact written_eq_error h
  | appendRun r => exact written_eq_error h
  | load _ | definitions _ | approvals _ | run _ | runs _ _ | orgRuns _ _ | summary _
  | templates | template _ => exact (Prod.mk.inj h).2.symm

theorem delete_eq_ok (h : t.delete id = .ok t') :
    t' = { t with
      definitions := t.definitions.filter (·.id ≠ id)
      approvals := t.approvals.filter (·.definition ≠ id)
      runs := t.runs.filter (·.definition ≠ id) } := by
  unfold delete at h
  cases hr : t.row? id with
  | none => simp [hr] at h
  | some row =>
    simp only [hr] at h
    exact (Except.ok.inj h).symm

theorem mem_of_templateRow? {key : TemplateKey} {row : TemplateRow}
    (h : t.templateRow? key = some row) : row ∈ t.templates := by
  unfold templateRow? at h
  cases key with
  | id id => exact List.mem_of_find?_eq_some h
  | text s =>
    simp only at h
    cases hf : t.templates.find? (·.slug = .text s) with
    | some row' =>
      rw [hf] at h
      obtain rfl := Option.some.inj h
      exact List.mem_of_find?_eq_some hf
    | none =>
      rw [hf] at h
      obtain ⟨id, -, h⟩ := Option.bind_eq_some_iff.1 h
      exact List.mem_of_find?_eq_some h

/-- A template that was read has a text for its description and a readable graph. -/
theorem template_eq_ok (hs : t.Sound) {key : TemplateKey} {tp : Template}
    (h : t.template key = .ok tp) : tp.description.IsText ∧ tp.graph.ids.Nodup := by
  unfold template at h
  cases hr : t.templateRow? key with
  | none => simp [hr] at h
  | some row =>
    simp only [hr] at h
    obtain ⟨trigger, -, h⟩ := bind_eq_ok.1 h
    obtain ⟨graph, hg, h⟩ := bind_eq_ok.1 h
    obtain rfl := pure_eq_ok.1 h
    refine ⟨?_, (Graph.readable_of_ofValue hg).ids_nodup⟩
    rcases hs.templates row (mem_of_templateRow? hr) with hn | hn
    · show (row.description.orElse (.text "")).IsText
      rw [hn]
      exact ⟨"", rfl⟩
    · show (row.description.orElse (.text "")).IsText
      rw [hn.orElse_empty]
      exact hn

/-- Definitions of declared types are kept without their history. -/
def shelving : Shelving Tables where
  core := Definition.withoutHistory
  shelf := shelf
  Typed := Definition.Typed
  TypedTemplate tp := tp.description.IsText ∧ tp.graph.ids.Nodup
  Fits := DefinitionRow.Fits
  Sound := Sound
  core_version _ := rfl
  core_createdAt _ := rfl
  core_change call now d := Service.Call.ignoresHistory call now d
  shelf_core := by
    intro t id c hs hc
    obtain ⟨row, hr, -⟩ := Option.bind_eq_some_iff.1 hc
    obtain ⟨d, -, -, -, hshelf⟩ := row_of_row? hs hr
    obtain rfl := Option.some.inj (hshelf.symm.trans hc)
    rfl
  take_error := take_error_eq
  load_ok := by
    intro t t' id d hs h
    obtain ⟨hl, rfl⟩ := Prod.mk.inj h
    unfold load at hl
    cases hr : t.row? id with
    | none => simp [hr] at hl
    | some row =>
      obtain ⟨c, hc, rfl, hid, hshelf⟩ := row_of_row? hs hr
      simp only [hr, DefinitionRow.read_of hc] at hl
      obtain rfl := Except.ok.inj hl
      exact ⟨rfl, hid, { hc with }, hshelf⟩
  template_ok := by
    intro t t' key tp hs h
    exact template_eq_ok hs (Prod.mk.inj h).1
  save_new := by
    intro t d hs hd hnone
    have hr := (shelf_eq_none_iff hs).1 hnone
    have hsave : t.save d .null = t.insert d := by
      unfold save
      rw [hr]
      rfl
    rcases insert_eq (t := t) hd with ⟨e, he⟩ | hi
    · left
      refine ⟨e, ?_⟩
      rw [take_save, hsave, he]
      rfl
    · right
      refine ⟨_, ?_, hs.append hd, shelf_append hd hr rfl⟩
      rw [take_save, hsave, hi]
      rfl
  save_missing := by
    intro t d v hs hnone
    rw [take_save, save_of_none ((shelf_eq_none_iff hs).1 hnone)]
    rfl
  save_unfit := by
    intro t d c v hs hd hf hc
    obtain ⟨hr, -, -⟩ := row?_of_shelf hs hc
    have hrefused : ∃ e, t.update d (DefinitionRow.of c) (.int v) = .error e :=
      update_of_not_fits hd hf (.int v)
    obtain ⟨e, he⟩ := hrefused
    refine ⟨e, ?_⟩
    rw [take_save, save_of_some hr, he]
    rfl
  save_stale := by
    intro t h d c hs hh hd hf hv hc hne
    obtain ⟨hr, -, -⟩ := row?_of_shelf hs hc
    have hpos := hh.version
    have hmax := hf.2.2
    have hne' : ¬(DefinitionRow.of c).version = h.version := hne
    rw [take_save, save_of_some hr, update_of_fits hd hf (by omega), if_neg hne']
    rfl
  save_current := by
    intro t h d c hs hh hd hf hv hc heq hcreated
    obtain ⟨hr, -, -⟩ := row?_of_shelf hs hc
    have hpos := hh.version
    have hmax := hf.2.2
    have hrow : ({ DefinitionRow.of d with createdAt := (DefinitionRow.of c).createdAt }
        : DefinitionRow) = DefinitionRow.of d := by
      show ({ DefinitionRow.of d with createdAt := c.createdAt } : DefinitionRow) = _
      rw [hcreated]
      rfl
    have heq' : (DefinitionRow.of c).version = h.version := heq
    refine ⟨_, ?_, hs.replace hd, shelf_replace hd hr rfl⟩
    rw [take_save, save_of_some hr, update_of_fits hd hf (by omega), if_pos heq', hrow]
    rfl
  delete_ok := by
    intro t t' id hs h
    obtain rfl := delete_eq_ok (written_eq_ok h)
    refine ⟨⟨?_, hs.templates⟩, shelf_remove rfl⟩
    intro row hrow
    exact hs.definitions row (List.mem_filter.1 hrow).1
  take_other := by
    intro s t t' a hs hw h
    obtain ⟨hd, ht⟩ := take_other_definitions hw h
    refine ⟨⟨?_, ?_⟩, ?_⟩
    · rw [hd]
      exact hs.definitions
    · rw [ht]
      exact hs.templates
    · unfold shelf row?
      rw [hd]

end Tables

end Workflow.Store
