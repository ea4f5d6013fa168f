import Workflow.Proofs.Service.Change

/-!
# What fits the tables

A document is written if none of its integers has too many digits, and a time if it
lies within the years.  Triggers and layouts always fit, so of a definition only the
graph and the time of the last change can be refused, and its version.

    d fits, the call fits → what the call makes of d fits       (Call.Fits.change)
-/

namespace Workflow

/-! ## Documents -/

theorem Trigger.isWritable_toValue (t : Trigger) : t.toValue.isWritable = true := by
  cases t <;> rfl

theorem Layout.IsReal.isWritable {layout : Layout} (h : layout.IsReal) :
    layout.toValue.isWritable = true := by
  show Value.membersWritable (layout.map _) = true
  induction layout with
  | nil => rfl
  | cons e rest ih =>
    obtain ⟨x, y, hp⟩ := h e List.mem_cons_self
    have hrest := ih fun e' he' => h e' (List.mem_cons_of_mem e he')
    show (e.2.toValue.isWritable && Value.membersWritable _) = true
    rw [hrest, hp]
    rfl

/-! ## Definitions -/

namespace Definition

/-- The time of the last change and the graph can be stored. -/
structure Storable (d : Definition) : Prop where
  updatedAt : d.updatedAt.isStorable = true
  graph : (d.graph.toValue []).isWritable = true

variable {d d' : Definition} {now : Timestamp}

theorem Storable.check (hs : d.Storable) (hd : d.Typed) {times : List Timestamp}
    (ht : ∀ t ∈ times, t.isStorable = true) :
    Store.DefinitionRow.checkStorable times d = .ok () := by
  have hdocuments : [d.trigger.toValue, d.graph.toValue [], d.layout.toValue].all
      Value.isWritable = true := by
    simp [Trigger.isWritable_toValue, hs.graph, hd.layout.isWritable]
  unfold Store.DefinitionRow.checkStorable Store.Column.checkStorable
  rw [List.all_eq_true.2 ht, hdocuments]
  rfl

theorem Storable.fits (hs : d.Storable) (hd : d.Typed) (hv : d.version < 2 ^ 63) :
    Store.DefinitionRow.Fits d := by
  have hpos := hd.version
  refine ⟨hs.check hd ?_, by omega, hv⟩
  intro t ht
  rw [List.mem_singleton.1 ht]
  exact hs.updatedAt

/-- The graph of an operation can be stored. -/
def Operation.Fits : Operation → Prop
  | .updateGraph graph _ => (graph.toValue []).isWritable = true
  | .applyEdited edited => ∀ g, edited.compileBounded = .ok g → (g.toValue []).isWritable = true
  | .rename .. | .updateTrigger _ | .govern .. | .activate | .pause => True

theorem Storable.apply (hs : d.Storable) {op : Operation} (hop : op.Fits)
    (hn : now.isStorable = true) (h : op.apply d now = .ok d') : d'.Storable := by
  cases op with
  | rename name description =>
    obtain ⟨t, -, -, rfl⟩ := rename_eq_ok h
    exact ⟨hn, hs.graph⟩
  | updateTrigger trigger =>
    obtain ⟨-, rfl⟩ := updateTrigger_eq_ok h
    exact ⟨hn, hs.graph⟩
  | updateGraph graph places =>
    obtain ⟨-, -, _, -, rfl⟩ := updateGraph_eq_ok h
    exact ⟨hn, hop⟩
  | applyEdited edited =>
    obtain ⟨graph, hc, h⟩ := applyEdited_eq_ok h
    obtain ⟨-, -, _, -, rfl⟩ := updateGraph_eq_ok h
    exact ⟨hn, hop graph hc⟩
  | govern action actor notes =>
    obtain ⟨⟨d₁, e⟩, hg, rfl⟩ := map_eq_ok.1 h
    obtain ⟨target, -, -, -, rfl⟩ := govern_eq_ok hg
    unfold suspend
    split
    · exact ⟨hn, hs.graph⟩
    · exact ⟨hn, hs.graph⟩
  | activate =>
    obtain ⟨-, ⟨-, rfl⟩ | ⟨-, -, -, rfl⟩⟩ := activate_eq_ok h
    · exact hs
    · exact ⟨hn, hs.graph⟩
  | pause =>
    obtain ⟨-, rfl⟩ := pause_eq_ok h
    exact ⟨hn, hs.graph⟩

end Definition

/-- A template whose proposals can be stored. -/
structure Template.Storable (t : Template) : Prop where
  description : t.description.IsText
  ids_nodup : t.graph.ids.Nodup
  graph : (t.graph.toValue []).isWritable = true

/-! ## Calls -/

namespace Service.Call

open Definition (Operation)

/-- What a call hands over can be stored, and a list of runs has a limit that a column can
hold. -/
def Fits : Call → Prop
  | create p => (p.graph.toValue []).isWritable = true
  | update _ r _ => ∀ g ∈ r.graph, (g.toValue []).isWritable = true
  | saveEdited _ edited _ => ∀ g, edited.compileBounded = .ok g → (g.toValue []).isWritable = true
  | startRun _ context => context.isWritable = true
  | listRuns _ limit | listOrgRuns _ limit => ∃ n : Int, limit = .int n ∧ 0 ≤ n ∧ n < 2 ^ 63
  | get _ | list _ | editorView _ | delete _ | govern .. | approvals _ | activate _ | pause _
  | templates | install .. | completeRun .. | cancelRun _ | getRun _ | summary _ => True

variable {call : Call} {now : Timestamp} {d d' : Definition}

theorem Fits.performs (hc : call.Fits) {op : Operation} (h : call.Performs op) : op.Fits := by
  cases op with
  | updateGraph graph places =>
    cases call with
    | update id r expected => exact hc graph h.1
    | _ => exact h.elim
  | applyEdited edited =>
    cases call with
    | saveEdited id edited' expected =>
      obtain rfl : edited = edited' := h
      exact hc
    | _ => exact h.elim
  | rename name description | updateTrigger trigger | govern action actor notes | activate
  | pause => trivial

theorem Fits.change (hc : call.Fits) (hn : now.isStorable = true) (hd : d.Storable)
    (h : call.change now d = .ok d') : d'.Storable := by
  refine change_induction (R := fun d d' => d.Storable → d'.Storable) ?_ ?_ ?_ h hd
  · exact fun d hd => hd
  · exact fun d₁ d₂ d₃ h₁ h₂ hd => h₂ (h₁ hd)
  · exact fun op d d' hp h hd => hd.apply (hc.performs hp) hn h

/-- Only an action on the approval is recorded in the history. -/
theorem change_history (hc : ∀ op, call.Performs op → op.isRecorded = false)
    (h : call.change now d = .ok d') : d'.history = d.history := by
  refine change_induction (R := fun d d' => d'.history = d.history) ?_ ?_ ?_ h
  · exact fun d => rfl
  · exact fun d₁ d₂ d₃ h₁ h₂ => h₂.trans h₁
  · exact fun op d d' hp h => (Operation.apply_keeps h).history (hc op hp)

end Service.Call

end Workflow
