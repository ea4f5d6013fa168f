import Mathlib.Algebra.Group.Int.Defs
import Mathlib.Algebra.Group.Nat.Defs
import Workflow.Definition.Wire
import Workflow.Proofs.Graph.Reading
import Workflow.Store.Tables

/-!
# Rows of definitions

A definition whose fields are of their declared types is read back from its row
as it was, but for the history, which no row holds.  What can still stand in the
way of a row is its size: a version beyond 64 bits, a time beyond the years, or
an integer of too many digits.

    d typed → d storable → the row of d is `DefinitionRow.of d`        (ofDefinition_of_typed)
    d typed → (of d).read history = .ok { d with history }             (read_of)
-/

namespace Workflow

/-! ## Declared types -/

def Value.IsText (v : Value) : Prop := ∃ s, v = .text s

def Value.IsTextOrNull (v : Value) : Prop := v = .null ∨ v.IsText

def Timestamp.IsUniversal (t : Timestamp) : Prop := t.offset = some 0

/-- The coordinates are doubles. -/
def Position.IsReal (p : Position) : Prop := ∃ x y, p = ⟨.float x, .float y⟩

def Layout.IsReal (layout : Layout) : Prop := ∀ e ∈ layout, e.2.IsReal

/-- The fields of a definition are of their declared types. -/
structure Definition.Typed (d : Definition) : Prop where
  org : d.org.IsText
  name : d.name.IsText
  description : d.description.IsText
  createdBy : d.createdBy.IsTextOrNull
  graph : d.graph.Readable
  layout : d.layout.IsReal
  createdAt : d.createdAt.IsUniversal
  updatedAt : d.updatedAt.IsUniversal
  version : 0 ≤ d.version

/-- What is known of a definition by its row. -/
def Definition.withoutHistory (d : Definition) : Definition := { d with history := [] }

/-! ## Columns -/

theorem Value.IsText.column {v : Value} (h : v.IsText) : Store.Column.text v = .ok v := by
  obtain ⟨s, rfl⟩ := h
  rfl

theorem Value.IsTextOrNull.column {v : Value} (h : v.IsTextOrNull) :
    Store.Column.text v = .ok v := by
  rcases h with rfl | h
  · rfl
  · exact h.column

theorem Value.IsText.ne_null {v : Value} (h : v.IsText) : v ≠ .null := by
  obtain ⟨s, rfl⟩ := h
  exact Value.noConfusion

theorem Value.IsText.isKey {v : Value} (h : v.IsText) : v.isKey = true := by
  obtain ⟨s, rfl⟩ := h
  rfl

theorem Value.IsText.key_eq {v : Value} (h : v.IsText) : v.key = v := by
  obtain ⟨s, rfl⟩ := h
  rfl

/-- A text that may be kept stays a text. -/
theorem Value.IsText.ite_null {v w : Value} (hv : v.IsText) (hw : w.IsTextOrNull) :
    (if w = .null then v else w).IsText := by
  by_cases hnull : w = .null
  · rwa [if_pos hnull]
  · rw [if_neg hnull]
    exact hw.resolve_left hnull

/-- An empty text is what an absent one is read as. -/
theorem Value.IsText.orElse_empty {v : Value} (h : v.IsText) : v.orElse (.text "") = v := by
  obtain ⟨s, rfl⟩ := h
  unfold orElse
  by_cases hs : s = ""
  · subst hs
    rfl
  · rw [if_pos (by simp [isTruthy, hs])]

theorem Timestamp.IsUniversal.toUniversal {t : Timestamp} (h : t.IsUniversal) :
    t.toUniversal = t := by
  obtain ⟨clock, offset⟩ := t
  obtain rfl : offset = some 0 := h
  unfold Timestamp.toUniversal instant
  simp

theorem Layout.positionOf_toValue {p : Position} (h : p.IsReal) :
    Layout.positionOf p.toValue = .ok p := by
  obtain ⟨x, y, rfl⟩ := h
  rfl

theorem Layout.ofValue_toValue {layout : Layout} (h : layout.IsReal) :
    Layout.ofValue layout.toValue = .ok layout := by
  have hm : (layout.map fun e => (e.1, e.2.toValue)).mapM (fun e => do
      let p ← Layout.positionOf e.2
      pure (e.1, p)) = (Except.ok layout : Except Error Layout) := by
    refine mapM_map_eq_ok fun e he => ?_
    rw [Layout.positionOf_toValue (h e he)]
    rfl
  cases layout with
  | nil => rfl
  | cons e rest => exact hm

namespace Store

theorem Column.integer_of_fits {n : Int} (h : -(2 ^ 63) ≤ n ∧ n < 2 ^ 63) :
    Column.integer n = .ok n := by
  unfold Column.integer
  exact if_pos h

theorem Column.integer_eq_ok {m n : Int} (h : Column.integer n = .ok m) :
    m = n ∧ -(2 ^ 63) ≤ n ∧ n < 2 ^ 63 := by
  unfold Column.integer at h
  split at h
  next hn => exact ⟨(Except.ok.inj h).symm, hn⟩
  · cases h

theorem Column.changing_eq_ok {α : Type} {r : Except Fault α} {a : α} :
    Column.changing r = .ok a ↔ r = .ok a := by
  cases r with
  | error fault => exact ⟨nofun, nofun⟩
  | ok b => exact ⟨fun h => congrArg Except.ok (Except.ok.inj h), fun h => congrArg Except.ok (Except.ok.inj h)⟩

theorem Column.inserting_eq_ok {α : Type} {r : Except Fault α} {a : α} :
    Column.inserting r = .ok a ↔ r = .ok a := by
  cases r with
  | error fault => exact ⟨nofun, nofun⟩
  | ok b => exact ⟨fun h => congrArg Except.ok (Except.ok.inj h), fun h => congrArg Except.ok (Except.ok.inj h)⟩

/-! ## Rows -/

namespace DefinitionRow

/-- The row of a definition whose fields are of their declared types. -/
def of (d : Definition) : DefinitionRow where
  id := d.id
  org := d.org
  name := d.name
  description := d.description
  lifecycle := d.lifecycle
  approval := d.approval
  trigger := d.trigger.toValue
  graph := d.graph.toValue []
  layout := d.layout.toValue
  version := d.version
  createdBy := d.createdBy
  createdAt := d.createdAt
  updatedAt := d.updatedAt
  template := d.template

/-- The version, the time of the last change and the documents of a definition fit the
columns. -/
def Fits (d : Definition) : Prop :=
  checkStorable [d.updatedAt] d = .ok () ∧ -(2 ^ 63) ≤ d.version ∧ d.version < 2 ^ 63

variable {d : Definition}

theorem ofDefinition_eq (hd : d.Typed) :
    ofDefinition d = (Column.integer d.version).map fun _ => of d := by
  unfold ofDefinition
  rw [hd.org.column, hd.name.column, hd.description.column, hd.createdBy.column,
    hd.createdAt.toUniversal, hd.updatedAt.toUniversal]
  cases h : Column.integer d.version with
  | error e => rfl
  | ok n =>
    obtain rfl := (Column.integer_eq_ok h).1
    rfl

theorem ofDefinition_of_typed (hd : d.Typed) (hf : -(2 ^ 63) ≤ d.version ∧ d.version < 2 ^ 63) :
    ofDefinition d = .ok (of d) := by
  rw [ofDefinition_eq hd, Column.integer_of_fits hf]
  rfl

theorem checkFilled_of (hd : d.Typed) : (of d).checkFilled = .ok () := by
  unfold checkFilled Column.checkFilled
  have ho := hd.org.ne_null
  have hn := hd.name.ne_null
  rw [if_neg]
  show ¬([d.org, d.name].contains Value.null = true)
  simp [ho.symm, hn.symm]

/-- A row is read back as the definition it was made of, with the history that is given. -/
theorem read_of (hd : d.Typed) (history : List ApprovalEvent) :
    (of d).read history = .ok { d with history := history } := by
  have hg := Graph.ofValue_toValue hd.graph []
  have hl := Layout.ofValue_toValue hd.layout
  refine bind_eq_ok.2 ⟨d.trigger, Trigger.ofValue_toValue d.trigger, bind_eq_ok.2 ⟨d.graph, hg,
    bind_eq_ok.2 ⟨d.layout, hl, ?_⟩⟩⟩
  rw [show (of d).description.orElse (.text "") = d.description from hd.description.orElse_empty]
  rfl

end DefinitionRow

end Store

end Workflow
