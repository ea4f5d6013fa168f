import Workflow.Proofs.Definition.Presentation
import Workflow.Proofs.Service.Fitting
import Workflow.Proofs.Service.Interleaving
import Workflow.Proofs.Service.Orderly

/-!
# An editor session without edits

Whatever has been asked of a store before, with documents that were read, the editor
opens each definition that is stored, and saves what it has opened.  Nothing of the
definition changes but its version, its layout and the time of the change, and what
is opened then is what was opened before.

    every definition on the shelf is presentable          (Shelving.Presents)
    each call keeps it so                                 (Shelving.Presents.effect)
    what is stored is opened, saved and opened again       (Shelving.Presents.reopens)

So it is in memory and in tables (`reopened_unedited`).
-/

namespace Workflow.Service

open Store (Backend Step Memory Tables Registry Ledger)
open Program (Session Outcome)
open Editor (Canvas)

/-! ## Statement -/

/-- An editor session without edits: `d` is opened, what is shown is read back from its wire form
and saved over the version of `d`, and opened again on any canvas without draws. -/
def Reopens {σ : Type} [Backend σ] (sources : Program.Sources) (canvas : Canvas)
    (now : Timestamp) (s : Session σ) (d : Definition) : Prop :=
  ∃ e d' s₁ s₂,
    (editorView canvas d.id).run sources s = ⟨.ok e, [], s₁⟩ ∧
    Editor.Graph.ofValue e.toValue = .ok e ∧
    (saveEdited d.id e (.int d.version) now).run sources s₁ = ⟨.ok d', [], s₂⟩ ∧
    Backend.take (.load d.id) s₂.store = (.ok d', s₂.store) ∧
    d.graph.same d'.graph = true ∧
    d' = { d with
      graph := d'.graph, layout := e.places, version := d.version + 1, updatedAt := now } ∧
    ∀ canvas', (editorView canvas' d.id).run sources s₂ = ⟨.ok e, [], s₂⟩

/-- The documents that a call is given were read, and places are doubles. -/
def Call.IsRead : Call → Prop
  | create p => p.graph.IsRead ∧ p.layout.IsReal
  | update _ r _ => ∀ g ∈ r.graph, g.IsRead
  | saveEdited _ edited _ => edited.IsRead
  | get _ | list _ | editorView _ | delete _ | govern .. | approvals _ | activate _ | pause _
  | templates | install .. | startRun .. | completeRun .. | cancelRun _ | getRun _ | listRuns ..
  | listOrgRuns .. | summary _ => True

theorem Call.IsRead.performs {call : Call} (hc : call.IsRead) {op : Definition.Operation}
    (h : call.Performs op) : op.IsRead := by
  cases op with
  | updateGraph graph places =>
    cases call with
    | update id r expected =>
      obtain ⟨hg, rfl⟩ := h
      exact ⟨hc graph hg, nofun⟩
    | _ => exact h.elim
  | applyEdited edited =>
    cases call with
    | saveEdited id edited' expected =>
      obtain rfl : edited = edited' := h
      exact hc
    | _ => exact h.elim
  | rename name description | updateTrigger trigger | govern action actor notes | activate
  | pause => trivial

theorem Call.IsRead.change {call : Call} (hc : call.IsRead) {now : Timestamp}
    {d d' : Definition} (hd : d.Presentable) (h : call.change now d = .ok d') :
    d'.Presentable := by
  refine change_induction (R := fun d d' => d.Presentable → d'.Presentable) ?_ ?_ ?_ h hd
  · exact fun d hd => hd
  · exact fun d₁ d₂ d₃ h₁ h₂ hd => h₂ (h₁ hd)
  · exact fun op d d' hp h hd => hd.apply (hc.performs hp) h

/-! ## Stores -/

section

variable {σ : Type} [Backend σ] {S : Shelving σ} {R : Registry σ} {L : Ledger σ}
  {sources : Program.Sources} {s : Session σ} {now : Timestamp} {st st' : σ}

/-- What a store must guarantee for what it holds to be opened. -/
structure Shelving.Rereads (S : Shelving σ) (R : Registry σ) : Prop where
  /-- what is left out of a definition is not shown -/
  core : ∀ d, (S.core d).Presentable ↔ d.Presentable
  vacant : ∀ {st : σ} {id}, R.status st id = none → S.shelf st id = none
  /-- no step writes templates -/
  stock : ∀ {step : Step} {st st' : σ} {r} (key : TemplateKey), Backend.take step st = (r, st') →
    (Backend.take (.template key) st').1 = (Backend.take (.template key) st).1
  /-- what was saved over what was loaded is loaded as it was saved, if its history is the same -/
  reload : ∀ {st st' : σ} {id d d'}, S.Sound st → S.Sound st' →
    Backend.take (.load id) st = (.ok d, st) →
    Backend.take (.save d' (.int d.version)) st = (.ok (), st') → d'.id = id →
    d'.history = d.history → S.shelf st' = (S.shelf st).put id (some (S.core d')) →
    Backend.take (.load id) st' = (.ok d', st')

/-- A save over what was loaded that succeeds has replaced it. -/
theorem Shelving.save_ok (S : Shelving σ) (hs : S.Sound st) {id : Uuid} {d d' : Definition}
    (hload : Backend.take (.load id) st = (.ok d, st)) (hid : d'.id = d.id)
    (hcreated : d'.createdAt = d.createdAt) (hv : d.version ≤ d'.version) (ht : S.Typed d')
    (hsave : Backend.take (.save d' (.int d.version)) st = (.ok (), st')) :
    S.Sound st' ∧ S.shelf st' = (S.shelf st).put d'.id (some (S.core d')) := by
  obtain ⟨-, hdid, htyped, hshelf⟩ := S.load_ok hs hload
  rw [← hdid, ← hid] at hshelf
  by_cases hf : S.Fits d'
  · obtain ⟨st'', htake, hsound, hput⟩ := S.save_current hs htyped ht hf hv hshelf
      (S.core_version d) ((S.core_createdAt d).trans hcreated.symm)
    obtain rfl := (Prod.mk.inj (htake.symm.trans hsave)).2
    exact ⟨hsound, hput⟩
  · obtain ⟨e, he⟩ := S.save_unfit hs ht hf hshelf
    cases he.symm.trans hsave

/-- All that is stored can be opened, and so can what is made of a template. -/
structure Shelving.Presents (S : Shelving σ) (st : σ) : Prop where
  sound : S.Sound st
  definitions : ∀ id c, S.shelf st id = some c → c.Presentable
  templates : ∀ key t, (Backend.take (.template key) st).1 = .ok t → t.graph.IsRead

namespace Shelving.Presents

variable {d d' : Definition} {id : Uuid}

theorem load (h : S.Presents st) (hr : S.Rereads R)
    (hload : Backend.take (.load id) st = (.ok d, st)) : d.Presentable := by
  obtain ⟨-, -, -, hshelf⟩ := S.load_ok h.sound hload
  exact (hr.core d).1 (h.definitions id _ hshelf)

theorem stock (h : S.Presents st) (hr : S.Rereads R) {step : Step} {r}
    (ht : Backend.take step st = (r, st')) :
    ∀ key t, (Backend.take (.template key) st').1 = .ok t → t.graph.IsRead := by
  intro key t htemplate
  rw [hr.stock key ht] at htemplate
  exact h.templates key t htemplate

/-- One definition was written, or one place was cleared. -/
theorem put (h : S.Presents st) (hr : S.Rereads R) {step : Step} {r}
    (ht : Backend.take step st = (r, st')) (hs : S.Sound st') {c : Option Definition}
    (hput : S.shelf st' = (S.shelf st).put id c) (hc : ∀ d ∈ c, d.Presentable) :
    S.Presents st' where
  sound := hs
  definitions := by
    intro id' d hd
    rw [hput] at hd
    by_cases hid : id' = id
    · rw [hid, Shelf.put_self] at hd
      exact hc d hd
    · rw [Shelf.put_of_ne _ hid] at hd
      exact h.definitions id' d hd
  templates := h.stock hr ht

theorem other (h : S.Presents st) (hr : S.Rereads R) {step : Step} {a}
    (hw : writesDefinitions step = false) (ht : Backend.take step st = (.ok a, st')) :
    S.Presents st' := by
  obtain ⟨hs, hshelf⟩ := S.take_other h.sound hw ht
  refine ⟨hs, ?_, h.stock hr ht⟩
  rw [hshelf]
  exact h.definitions

theorem save (h : S.Presents st) (hr : S.Rereads R)
    (hload : Backend.take (.load id) st = (.ok d, st)) {call : Call} (hc : call.IsRead)
    (hadmits : S.Admits now call) (hchange : call.change now d = .ok d')
    (hsave : Backend.take (.save d' (.int d.version)) st = (.ok (), st')) : S.Presents st' := by
  obtain ⟨-, -, htyped, -⟩ := S.load_ok h.sound hload
  obtain ⟨hid, hcreated, -⟩ := Call.change_keeps hchange
  obtain ⟨hs, hput⟩ := S.save_ok h.sound hload hid hcreated (Call.change_version hchange)
    (hadmits.change d d' htyped hchange) hsave
  refine h.put hr hsave hs hput ?_
  intro c hcore
  obtain rfl := Option.some.inj hcore
  exact (hr.core d').2 (hc.change (h.load hr hload) hchange)

/-- What a call proposes is presentable once it is accepted. -/
theorem proposed (h : S.Presents st) {call : Call} (hc : call.IsRead)
    (hadmits : S.Admits now call) {p : Definition.Proposal} (hp : Proposes st call p)
    {name : String} (ha : p.accept = .ok name) (id : Uuid) :
    (p.define name id now).Presentable ∧ S.Typed (p.define name id now) := by
  cases hp with
  | given p =>
    exact ⟨.define ha hc.1 hc.2 id, hadmits.create p rfl name id ha⟩
  | @offered key t context name found =>
    have hread := h.templates key t (congrArg Prod.fst found)
    exact ⟨.define ha hread nofun id,
      hadmits.install key context name rfl t (S.template_ok h.sound found) _ id ha⟩

/-- Every effect of a call keeps what is stored presentable. -/
theorem effect (h : S.Presents s.store) (hr : S.Rereads R) {bound : Nat}
    (ho : Orderly R L sources bound s) (hs : s.idsTaken < bound) {call : Call} (hc : call.IsRead)
    (hadmits : S.Admits now call) {o : Outcome σ Reply} (he : Effect sources now s call o) :
    S.Presents o.session.store := by
  cases he with
  | quiet result drawsTaken first last => exact h
  | @founded _ p name d events store proposed accepted named saved told =>
    obtain ⟨hd, htyped⟩ := h.proposed hc hadmits proposed accepted (sources.ids s.idsTaken)
    rw [← named] at hd htyped
    have hid : d.id = sources.ids s.idsTaken := by rw [named]; rfl
    have hvacant : S.shelf s.store d.id = none := by
      rw [hid]
      exact hr.vacant (ho.definitions s.idsTaken (Nat.le_refl _) hs)
    rcases S.save_new h.sound htyped hvacant with ⟨e, he⟩ | ⟨store', hsave, hsound, hput⟩
    · cases he.symm.trans saved
    · obtain rfl := (Prod.mk.inj (hsave.symm.trans saved)).2
      refine h.put hr saved hsound hput fun c hcore => ?_
      obtain rfl := Option.some.inj hcore
      exact (hr.core d).2 hd
  | edited own loaded changed saved => exact h.save hr loaded hc hadmits changed saved
  | governed loaded changed saved recorded =>
    exact (h.save hr loaded hc hadmits (map_eq_ok.2 ⟨_, changed, rfl⟩) saved).other hr rfl recorded
  | unrecorded loaded changed saved refused =>
    exact h.save hr loaded hc hadmits (map_eq_ok.2 ⟨_, changed, rfl⟩) saved
  | deleted loaded removed =>
    obtain ⟨hsound, hput⟩ := S.delete_ok h.sound removed
    exact h.put hr removed hsound hput fun d hd => absurd hd (Option.not_mem_none d)
  | started loaded active given appended => exact h.other hr rfl appended
  | finished own found ended updated => exact h.other hr rfl updated

end Shelving.Presents

/-! ## Opening and saving -/

/-- What is stored is shown by the editor, with draws for the steps that have no place. -/
theorem run_editorView {id : Uuid} {d : Definition} (canvas : Canvas)
    (hload : Backend.take (.load id) s.store = (.ok d, s.store)) {e : Editor.Graph}
    (he : d.edited canvas (fun i => sources.draws (s.drawsTaken + i)) = .ok e) :
    (editorView canvas id).run sources s
      = ⟨.ok e, [], { s with drawsTaken := s.drawsTaken + d.drawsTaken }⟩ := by
  show (Program.take (.load id) fun d => .draw d.drawsTaken fun draws =>
    Program.lift (d.edited canvas draws)).run sources s = _
  simp only [Program.run, hload, he, Program.lift]

/-- A graph that the editor read is saved over the version that is stored. -/
theorem run_saveEdited {id : Uuid} {d d' : Definition} {e : Editor.Graph} {store : σ}
    (hload : Backend.take (.load id) s.store = (.ok d, s.store))
    (he : d.applyEdited e now = .ok d')
    (hsave : Backend.take (.save d' (.int d.version)) s.store = (.ok (), store)) :
    (saveEdited id e (.int d.version) now).run sources s =
      ⟨.ok d', [], { s with store := store }⟩ := by
  have hversion : ¬(Value.int d.version ≠ .null ∧
      (!(Value.int d.version).same (.int d.version)) = true) := by simp
  show (Program.bind (mutate id (.int d.version)
    fun d => (d.applyEdited e now).map (·, ())) _).run sources s = _
  rw [mutate_eq]
  show (Program.take (.load id) _).run sources s = _
  simp only [Program.run, hload]
  rw [if_neg hversion, he]
  show (Program.take (.save d' (.int d.version)) _).run sources s = _
  simp only [Program.run, hsave]
  rfl

/-- What is stored is opened, saved and opened again, if what is saved fits the store. -/
theorem Shelving.Presents.reopens (h : S.Presents s.store) (hr : S.Rereads R) {id : Uuid}
    {d : Definition} {canvas : Canvas} (hcanvas : canvas.IsFinite)
    (hdraws : ∀ i, Canvas.IsDraw (sources.draws i))
    (hload : Backend.take (.load id) s.store = (.ok d, s.store))
    (hfit : ∀ e d', e.IsPlaced → (Definition.Operation.applyEdited e).apply d now = .ok d' →
      d.graph.same d'.graph = true → S.Typed d' ∧ S.Fits d') :
    Reopens sources canvas now s d := by
  obtain ⟨-, rfl, htyped, hshelf⟩ := S.load_ok h.sound hload
  have hd := h.load hr hload
  obtain ⟨e, he, hview⟩ := hd.opened hcanvas fun i => hdraws (s.drawsTaken + i)
  obtain ⟨g', hsame, happly, hnone, hagain⟩ := hd.reopen hview now
  let d' := { d with graph := g', layout := e.places }.touch now
  obtain ⟨htyped', hfits⟩ := hfit e d' hview.placed happly hsame
  obtain ⟨store, hsave, hsound, hput⟩ := S.save_current (d := d') h.sound htyped htyped' hfits
    (Int.le_add_one (Int.le_refl _)) hshelf (S.core_version d) (S.core_createdAt d)
  have hreload : Backend.take (.load d.id) store = (.ok d', store) :=
    hr.reload h.sound hsound hload hsave rfl rfl hput
  let s₁ : Session σ := { s with drawsTaken := s.drawsTaken + d.drawsTaken }
  let s₂ : Session σ := { s₁ with store := store }
  refine ⟨e, d', s₁, s₂, run_editorView canvas hload he, hview.ofValue_toValue,
    run_saveEdited hload happly hsave, hreload, hsame, rfl, fun canvas' => ?_⟩
  have he' : (d'.edited canvas' fun i => sources.draws (s₂.drawsTaken + i)) = .ok e :=
    hagain canvas' _
  have hdrawn : d'.drawsTaken = 0 := hnone
  rw [run_editorView canvas' (s := s₂) hreload he', hdrawn]
  rfl

end

/-! ## The two stores -/

theorem rereads_memory : Memory.shelving.Rereads Memory.registry where
  core _ := Iff.rfl
  vacant h := Option.map_eq_none_iff.1 h
  stock := by
    intro step m m' r key h
    show m'.catalog.get key = m.catalog.get key
    rw [Memory.take_catalog h]
  reload := by
    intro m m' id d d' _ _ _ _ hid _ hput
    have hshelf : m'.shelf id = some d' := by
      rw [show m'.shelf = _ from hput, Shelf.put_self]
      rfl
    exact congrArg (·, m') (Memory.load_eq_ok.2 hshelf)

theorem presents_memory (catalog : Catalog)
    (hcatalog : ∀ key t, catalog.get key = .ok t → t.graph.IsRead) :
    Memory.shelving.Presents (Memory.empty catalog) where
  sound _ _ h := nomatch h
  definitions _ _ h := nomatch h
  templates := hcatalog

theorem presentable_withoutHistory (d : Definition) :
    d.withoutHistory.Presentable ↔ d.Presentable :=
  ⟨fun h => ⟨h.graph, h.filled_of_active, h.layout⟩, fun h => { h with }⟩

theorem rereads_tables : Tables.shelving.Rereads Tables.registry where
  core := presentable_withoutHistory
  vacant := by
    intro t id h
    show (t.row? id).bind _ = none
    rw [Option.map_eq_none_iff.1 h]
    rfl
  stock := by
    intro step t t' r key h
    show t'.template key = t.template key
    unfold Tables.template Tables.templateRow?
    rw [Tables.take_templates h]
  reload := by
    intro t t' id d d' hs hs' hload hsave hid hhistory hput
    have hshelf : t'.shelf id = some d'.withoutHistory := by
      rw [show t'.shelf = _ from hput, Shelf.put_self]
      rfl
    obtain ⟨hrow, htyped, -⟩ := Tables.row?_of_shelf hs' hshelf
    have htrail : t'.trail id = d'.history := by
      rw [hhistory, Tables.history_of_load (Prod.mk.inj hload).1]
      obtain ⟨-, _, -, -, ⟨-, rfl⟩ | ⟨-, rfl⟩⟩ := Tables.save_eq_ok (Tables.written_eq_ok hsave)
      · rfl
      · rfl
    have hload' : t'.load id = .ok d' := by
      unfold Tables.load
      rw [hrow, htrail]
      exact Store.DefinitionRow.read_of htyped d'.history
    exact congrArg (·, t') hload'

theorem presents_tables {templates : List Store.TemplateRow}
    (ht : ∀ row ∈ templates, row.description.IsTextOrNull ∧ row.graph.IsRead) :
    Tables.shelving.Presents (Tables.mk [] [] [] templates) where
  sound := ⟨fun _ h => absurd h List.not_mem_nil, fun row hrow => (ht row hrow).1⟩
  definitions _ _ h := nomatch h
  templates := by
    intro key tp h
    have h : (Tables.mk [] [] [] templates).template key = .ok tp := h
    unfold Tables.template at h
    split at h
    next row hrow =>
      obtain ⟨_, -, h⟩ := bind_eq_ok.1 h
      obtain ⟨graph, hgraph, h⟩ := bind_eq_ok.1 h
      obtain rfl := pure_eq_ok.1 h
      exact ⟨row.graph, (ht row (Tables.mem_of_templateRow? hrow)).2, hgraph⟩
    · cases h

/-- What the editor makes of a definition without edits fits its row. -/
theorem fits_of_same {t : Tables} (hs : t.Sound) (hw : t.Written) {id : Uuid}
    {d d' : Definition} {e : Editor.Graph} {now : Timestamp} (hn : now.IsUniversal)
    (hstorable : now.isStorable = true) (hload : Backend.take (.load id) t = (.ok d, t))
    (hd : d.Presentable) (hv : d.version + 1 < 2 ^ 63) (hp : e.IsPlaced)
    (h : (Definition.Operation.applyEdited e).apply d now = .ok d')
    (hsame : d.graph.same d'.graph = true) : d'.Typed ∧ Store.DefinitionRow.Fits d' := by
  obtain ⟨-, -, htyped, hshelf⟩ := Tables.shelving.load_ok hs hload
  have hop : (Definition.Operation.applyEdited e).Typed := hp
  have htyped' : d'.Typed := htyped.apply hop hn h
  obtain ⟨hrow, -, -⟩ := Tables.row?_of_shelf hs hshelf
  have hgraph : (d.graph.toValue []).isWritable = true :=
    hw _ (List.mem_of_find?_eq_some hrow)
  have hgraph' := Graph.isWritable_of_same hd.graph.wellFormed hsame hgraph
  obtain ⟨graph, -, h⟩ := Definition.applyEdited_eq_ok h
  obtain ⟨-, -, _, -, rfl⟩ := Definition.updateGraph_eq_ok h
  exact ⟨htyped', Definition.Storable.fits ⟨hstorable, hgraph'⟩ htyped' hv⟩

/-! ## Theorem -/

/-- After any calls that were given documents as they are read, each definition that is stored
can be opened by the editor and saved without edits, in memory and in tables.  Tables need
arguments of the declared types, and room for the next version. -/
theorem reopened_unedited (sources : Program.Sources) (canvas : Canvas)
    (calls : List (Timestamp × Call)) (now : Timestamp) (hids : sources.Distinct calls.length)
    (hdraws : ∀ i, Canvas.IsDraw (sources.draws i)) (hcanvas : canvas.IsFinite)
    (hread : ∀ c ∈ calls, c.2.IsRead) :
    (∀ catalog : Catalog, (∀ key t, catalog.get key = .ok t → t.graph.IsRead) →
      ∀ s : Session Memory,
        s = sessionAfter sources canvas (newSession (Memory.empty catalog)) calls →
        ∀ id d, s.store.load id = .ok d → Reopens sources canvas now s d) ∧
    (∀ templates : List Store.TemplateRow,
      (∀ row ∈ templates, row.description.IsTextOrNull ∧ row.graph.IsRead) →
      (∀ c ∈ calls, c.1.IsUniversal ∧ c.2.Typed) → now.IsUniversal → now.isStorable = true →
      ∀ s : Session Tables,
        s = sessionAfter sources canvas (newSession (Tables.mk [] [] [] templates)) calls →
        ∀ row ∈ s.store.definitions, ∃ d, s.store.load row.id = .ok d ∧
          (d.version + 1 < 2 ^ 63 → Reopens sources canvas now s d)) := by
  have hroom : 0 + calls.length ≤ calls.length := Nat.le_of_eq (Nat.zero_add _)
  constructor
  · rintro catalog hcatalog s rfl id d hload
    have hpresents := (orderly_memory catalog).induction hids atomic_memory canvas hroom
      (I := Memory.shelving.Presents) (presents_memory catalog hcatalog)
      fun c hc s o ho hs h he =>
        h.effect rereads_memory ho hs (hread c hc) (admits_memory c.1 c.2) he
    exact hpresents.reopens rereads_memory hcanvas hdraws (congrArg (·, _) hload)
      fun _ _ _ _ _ => ⟨trivial, trivial⟩
  · rintro templates htemplates hcalls hn hstorable s rfl row hrow
    have hkept := (orderly_tables templates).induction hids atomic_tables canvas hroom
      (I := fun t => Tables.shelving.Presents t ∧ t.Written)
      ⟨presents_tables htemplates, fun _ h => absurd h List.not_mem_nil⟩
      fun c hc s o ho hs h he =>
        ⟨h.1.effect rereads_tables ho hs (hread c hc)
          (admits_tables (hcalls c hc).1 (hcalls c hc).2) he,
          he.keeps (fun ht hw => hw.take ht) h.2⟩
    obtain ⟨hpresents, hwritten⟩ := hkept
    obtain ⟨d, hload⟩ := Tables.load_of_mem hpresents.sound hrow
    refine ⟨d, hload, fun hv => ?_⟩
    have htake := congrArg (·, (sessionAfter sources canvas
      (newSession (Tables.mk [] [] [] templates)) calls).store) hload
    exact hpresents.reopens rereads_tables hcanvas hdraws htake fun e d' hp h hsame =>
      fits_of_same hpresents.sound hwritten hn hstorable htake
        (hpresents.load rereads_tables htake) hv hp h hsame

/-! ## A reminder -/

/-- Identifiers in order, and draws of one half. -/
def halving : Program.Sources := ⟨Uuid.ofNat, fun _ => Editor.half⟩

/-- An automation of two steps, of which one has a place, is approved and activated. -/
def reminded : List (Timestamp × Call) :=
  [(⟨0, some 0⟩, .create ⟨.text "Reminder", .event "lead.created", ⟨.text "acme", .null⟩,
      Editor.reminder, .text "", [("open", ⟨.float ⟨false, 2 ^ 52, -50⟩, .float ⟨true, 2 ^ 52, -49⟩⟩)],
      none⟩),
    (⟨1, some 0⟩, .govern .request (Uuid.ofNat 0) .null .null),
    (⟨2, some 0⟩, .govern .approve (Uuid.ofNat 0) (.text "ann") .null),
    (⟨3, some 0⟩, .activate (Uuid.ofNat 0))]

def remindedInMemory : Session Memory :=
  sessionAfter halving .standard (newSession (Memory.empty .empty)) reminded

def remindedInTables : Session Tables :=
  sessionAfter halving .standard (newSession (Tables.mk [] [] [] [])) reminded

theorem reopened_unedited_reminder :
    (∃ d, remindedInMemory.store.load (Uuid.ofNat 0) = .ok d ∧ d.isActive = true ∧
      d.layout.length = 1 ∧ Reopens halving .standard ⟨4, some 0⟩ remindedInMemory d) ∧
    (∃ d, remindedInTables.store.load (Uuid.ofNat 0) = .ok d ∧ d.isActive = true ∧
      d.layout.length = 1 ∧ Reopens halving .standard ⟨4, some 0⟩ remindedInTables d) := by
  have hids : halving.Distinct reminded.length := distinct_counting (by decide)
  have hdraws : ∀ i, Canvas.IsDraw (halving.draws i) := fun _ => ⟨_, rfl, rfl, by decide⟩
  have hcanvas : Canvas.standard.IsFinite :=
    ⟨⟨_, rfl, by decide, by decide⟩, ⟨_, rfl, by decide, by decide⟩⟩
  have hgraph : Editor.reminder.IsRead := ⟨Editor.reminderValue, ⟨by decide, by decide +kernel⟩, rfl⟩
  have hread : ∀ c ∈ reminded, c.2.IsRead := by
    intro c hc
    simp only [reminded, List.mem_cons, List.not_mem_nil, or_false] at hc
    rcases hc with rfl | rfl | rfl | rfl
    · refine ⟨hgraph, fun e he => ?_⟩
      rw [List.mem_singleton.1 he]
      exact ⟨_, _, rfl⟩
    · trivial
    · trivial
    · trivial
  have htyped : ∀ c ∈ reminded, c.1.IsUniversal ∧ c.2.Typed := by
    intro c hc
    simp only [reminded, List.mem_cons, List.not_mem_nil, or_false] at hc
    rcases hc with rfl | rfl | rfl | rfl
    · refine ⟨rfl, ⟨_, rfl⟩, Or.inl rfl, ⟨_, rfl⟩, by decide, fun e he => ?_⟩
      rw [List.mem_singleton.1 he]
      exact ⟨_, _, rfl⟩
    · exact ⟨rfl, Or.inl rfl, Or.inl rfl⟩
    · exact ⟨rfl, Or.inr ⟨_, rfl⟩, Or.inl rfl⟩
    · exact ⟨rfl, trivial⟩
  have hcatalog : ∀ key t, Catalog.empty.get key = .ok t → t.graph.IsRead := by
    intro key t h
    have hnone : Catalog.empty.find? key = none := Option.bind_fun_none _
    unfold Catalog.get at h
    rw [hnone] at h
    cases h
  obtain ⟨hmemory, htables⟩ :=
    reopened_unedited halving .standard reminded ⟨4, some 0⟩ hids hdraws hcanvas hread
  constructor
  · have hstored : ((remindedInMemory.store.load (Uuid.ofNat 0)).toOption.map fun d =>
        (d.isActive, d.layout.length)) = some (true, 1) := by decide +kernel
    cases hload : remindedInMemory.store.load (Uuid.ofNat 0) with
    | error e =>
      rw [hload] at hstored
      cases hstored
    | ok d =>
      rw [hload] at hstored
      obtain ⟨hactive, hlayout⟩ := Prod.mk.inj (Option.some.inj hstored)
      exact ⟨d, rfl, hactive, hlayout, hmemory .empty hcatalog remindedInMemory rfl _ d hload⟩
  · have hstored : ((remindedInTables.store.load (Uuid.ofNat 0)).toOption.map fun d =>
        (d.isActive, d.layout.length, d.version)) = some (true, 1, 4) := by decide +kernel
    have hrow : remindedInTables.store.definitions.map (·.id) = [Uuid.ofNat 0] := by
      decide +kernel
    obtain ⟨row, hmem, hid⟩ := List.mem_map.1 (hrow ▸ List.mem_singleton.2 rfl)
    obtain ⟨d, hload, hreopens⟩ := htables [] nofun htyped rfl (by decide) remindedInTables rfl row hmem
    rw [hid] at hload
    rw [hload] at hstored
    obtain ⟨hactive, hstored⟩ := Prod.mk.inj (Option.some.inj hstored)
    obtain ⟨hlayout, hversion⟩ := Prod.mk.inj hstored
    exact ⟨d, hload, hactive, hlayout, hreopens (by omega)⟩

end Workflow.Service
