import Workflow.Value.Basic

/-!
# What a document may hold

A document is null, a truth value, a number or a text, or it is a list of documents
or an object whose values are documents, to any depth.  A mapping under an integer
key is no document, and neither is anything that holds one.

    v.isDocument ↔ v is a document                   (Value.isDocument_iff)
-/

namespace Workflow.Value

inductive IsJson : Value → Prop where
  | null : IsJson .null
  | bool (b : Bool) : IsJson (.bool b)
  | int (n : Int) : IsJson (.int n)
  | float (x : Binary64) : IsJson (.float x)
  | text (s : String) : IsJson (.text s)
  | list {items : List Value} (h : ∀ v ∈ items, IsJson v) : IsJson (.list items)
  | object {members : Config} (h : ∀ e ∈ members, IsJson e.2) : IsJson (.object members)

@[simp] theorem isJson_list_iff {items : List Value} :
    (Value.list items).IsJson ↔ ∀ v ∈ items, v.IsJson :=
  ⟨fun h => by cases h; assumption, .list⟩

@[simp] theorem isJson_object_iff {members : Config} :
    (Value.object members).IsJson ↔ ∀ e ∈ members, e.2.IsJson :=
  ⟨fun h => by cases h; assumption, .object⟩

@[simp] theorem isJson_null : Value.null.IsJson := .null

@[simp] theorem isJson_text (s : String) : (Value.text s).IsJson := .text s

@[simp] theorem isJson_ofText? (s : Option String) : (Value.ofText? s).IsJson := by
  cases s with
  | none => exact .null
  | some s => exact .text s

@[simp] theorem not_isJson_numbered (key : Int) (v : Value) : ¬ (Value.numbered key v).IsJson :=
  nofun

@[simp] theorem not_isJson_foreign : ¬ Value.foreign.IsJson := nofun

mutual

/-- The check goes through a value to any depth. -/
theorem isDocument_iff : (v : Value) → (v.isDocument = true ↔ v.IsJson)
  | .null => iff_of_true rfl .null
  | .bool b => iff_of_true rfl (.bool b)
  | .int n => iff_of_true rfl (.int n)
  | .float x => iff_of_true rfl (.float x)
  | .text s => iff_of_true rfl (.text s)
  | .list items => by
    rw [isDocument, isJson_list_iff]
    exact areDocuments_iff items
  | .object members => by
    rw [isDocument, isJson_object_iff]
    exact membersAreDocuments_iff members
  | .numbered key v => iff_of_false nofun (not_isJson_numbered key v)
  | .foreign => iff_of_false nofun not_isJson_foreign

theorem areDocuments_iff : (vs : List Value) → (areDocuments vs = true ↔ ∀ v ∈ vs, v.IsJson)
  | [] => by simp [areDocuments]
  | v :: rest => by
    rw [areDocuments, Bool.and_eq_true, isDocument_iff v, areDocuments_iff rest,
      List.forall_mem_cons]

theorem membersAreDocuments_iff :
    (ms : Config) → (membersAreDocuments ms = true ↔ ∀ e ∈ ms, e.2.IsJson)
  | [] => by simp [membersAreDocuments]
  | (_, v) :: rest => by
    rw [membersAreDocuments, Bool.and_eq_true, isDocument_iff v, membersAreDocuments_iff rest,
      List.forall_mem_cons]

end

end Workflow.Value
