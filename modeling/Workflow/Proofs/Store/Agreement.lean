import Workflow.Proofs.Service.Fitting
import Workflow.Proofs.Store.Memory
import Workflow.Proofs.Store.Runs
import Workflow.Proofs.Store.Tables

/-!
# Two stores that agree

The store in memory and the store in tables agree if the rows stand for what memory
keeps, in the same order: a row for each definition, which has all of it but its
history, an event for each event of a trail, and a row for each run.  The history of
a definition is its trail, but for events that are still to be recorded.

    they agree, one step on both → the same answer, and they agree again
-/

namespace Workflow.Store

/-! ## Definitions -/

/-- Definitions, and the rows that stand for them; no version is above `limit`. -/
structure DefinitionsAgree (limit : Int) (ds : List (Uuid × Definition))
    (rows : List DefinitionRow) : Prop where
  rows_eq : rows = (Assoc.values ds).map DefinitionRow.of
  filed : Assoc.Filed Definition.id ds
  typed : ∀ d ∈ Assoc.values ds, d.Typed
  storable : ∀ d ∈ Assoc.values ds, d.Storable
  version : ∀ d ∈ Assoc.values ds, d.version ≤ limit

namespace DefinitionsAgree

variable {limit limit' : Int} {ds : List (Uuid × Definition)} {rows : List DefinitionRow}
  {d h : Definition} {id : Uuid}

theorem nil (limit : Int) : DefinitionsAgree limit [] [] where
  rows_eq := rfl
  filed := Assoc.Filed.nil
  typed := by simp [Assoc.values]
  storable := by simp [Assoc.values]
  version := by simp [Assoc.values]

theorem mem_of_find? (hf : Assoc.find? id ds = some d) : d ∈ Assoc.values ds :=
  List.mem_map.2 ⟨(id, d), Assoc.mem_of_find? hf, rfl⟩

theorem mono (ha : DefinitionsAgree limit ds rows) (hle : limit ≤ limit') :
    DefinitionsAgree limit' ds rows :=
  { ha with version := fun d hd => Int.le_trans (ha.version d hd) hle }

theorem find?_eq (ha : DefinitionsAgree limit ds rows) (id : Uuid) :
    rows.find? (·.id = id) = (Assoc.find? id ds).map DefinitionRow.of := by
  rw [ha.rows_eq, List.find?_map, ha.filed.find?_eq id]
  rfl

/-- What is written is a definition that can be written. -/
theorem put (ha : DefinitionsAgree limit ds rows) (hle : limit ≤ limit') (ht : d.Typed)
    (hs : d.Storable) (hv : d.version ≤ limit') {rows' : List DefinitionRow}
    (hr : rows' = (Assoc.values (Assoc.put d.id d ds)).map DefinitionRow.of) :
    DefinitionsAgree limit' (Assoc.put d.id d ds) rows' where
  rows_eq := hr
  filed := ha.filed.put rfl
  typed := by
    intro x hx
    rcases Assoc.mem_values_put hx with rfl | hx
    · exact ht
    · exact ha.typed x hx
  storable := by
    intro x hx
    rcases Assoc.mem_values_put hx with rfl | hx
    · exact hs
    · exact ha.storable x hx
  version := by
    intro x hx
    rcases Assoc.mem_values_put hx with rfl | hx
    · exact hv
    · exact Int.le_trans (ha.version x hx) hle

theorem append (ha : DefinitionsAgree limit ds rows) (ht : d.Typed) (hs : d.Storable)
    (hv : d.version ≤ limit) (hnew : Assoc.find? d.id ds = none) :
    DefinitionsAgree limit (Assoc.put d.id d ds) (rows ++ [DefinitionRow.of d]) := by
  refine ha.put (Int.le_refl _) ht hs hv ?_
  rw [Assoc.values_put_of_none hnew, List.map_append, ha.rows_eq]
  rfl

theorem replace (ha : DefinitionsAgree limit ds rows) (hle : limit ≤ limit') (ht : d.Typed)
    (hs : d.Storable) (hv : d.version ≤ limit') (hf : Assoc.find? d.id ds = some h) :
    DefinitionsAgree limit' (Assoc.put d.id d ds)
      (rows.map fun r => if r.id = d.id then DefinitionRow.of d else r) := by
  refine ha.put hle ht hs hv ?_
  rw [ha.filed.values_put_of_some hf, ha.rows_eq, List.map_map, List.map_map]
  refine List.map_congr_left fun x _ => ?_
  show (if x.id = d.id then DefinitionRow.of d else DefinitionRow.of x)
    = DefinitionRow.of (if x.id = d.id then d else x)
  split
  · rfl
  · rfl

theorem remove (ha : DefinitionsAgree limit ds rows) (id : Uuid) :
    DefinitionsAgree limit (Assoc.drop id ds) (rows.filter (·.id ≠ id)) := by
  have hsub : ∀ d ∈ Assoc.values (Assoc.drop id ds), d ∈ Assoc.values ds :=
    fun d hd => ((Assoc.drop_sublist id ds).map Prod.snd).subset hd
  refine ⟨?_, ha.filed.drop id, ?_, ?_, ?_⟩
  · rw [ha.filed.values_drop id, ha.rows_eq, List.filter_map]
    rfl
  · exact fun d hd => ha.typed d (hsub d hd)
  · exact fun d hd => ha.storable d (hsub d hd)
  · exact fun d hd => ha.version d (hsub d hd)

end DefinitionsAgree

/-! ## Trails -/

/-- Trails, and the events of all of them in the order in which they were recorded; none was
recorded after `clock`. -/
structure TrailsAgree (clock : Int) (trails : List (Uuid × List ApprovalEvent))
    (rows : List ApprovalEvent) : Prop where
  trail_eq : ∀ id, rows.filter (·.definition = id) = (Assoc.find? id trails).getD []
  ordered : rows.Pairwise fun a b => a.time.instant ≤ b.time.instant
  past : ∀ e ∈ rows, e.time.instant ≤ clock

namespace TrailsAgree

variable {clock clock' : Int} {trails : List (Uuid × List ApprovalEvent)}
  {rows : List ApprovalEvent}

theorem nil (clock : Int) : TrailsAgree clock [] [] where
  trail_eq _ := rfl
  ordered := List.Pairwise.nil
  past := by simp

theorem mono (ha : TrailsAgree clock trails rows) (hc : clock ≤ clock') :
    TrailsAgree clock' trails rows :=
  { ha with past := fun e he => Int.le_trans (ha.past e he) hc }

/-- The events of a definition are in order already. -/
theorem mergeSort_eq (ha : TrailsAgree clock trails rows) (id : Uuid) :
    (rows.filter (·.definition = id)).mergeSort (fun a b => a.time.instant ≤ b.time.instant)
      = (Assoc.find? id trails).getD [] := by
  rw [← ha.trail_eq id]
  refine List.mergeSort_of_pairwise ((ha.ordered.filter _).imp ?_)
  intro a b hab
  exact decide_eq_true hab

theorem append (ha : TrailsAgree clock trails rows) {e : ApprovalEvent}
    (he : clock ≤ e.time.instant) :
    TrailsAgree e.time.instant
      (Assoc.put e.definition ((Assoc.find? e.definition trails).getD [] ++ [e]) trails)
      (rows ++ [e]) where
  trail_eq := by
    intro id
    rw [List.filter_append, ha.trail_eq id]
    by_cases hid : e.definition = id
    · subst hid
      simp
    · rw [Assoc.find?_put_of_ne (Ne.symm hid)]
      simp [hid]
  ordered := by
    refine List.pairwise_append.2 ⟨ha.ordered, List.pairwise_singleton _ _, ?_⟩
    intro a haRow b hb
    rw [List.mem_singleton.1 hb]
    exact Int.le_trans (ha.past a haRow) he
  past := by
    intro a haRow
    rcases List.mem_append.1 haRow with haRow | haRow
    · exact Int.le_trans (ha.past a haRow) he
    · obtain rfl := List.mem_singleton.1 haRow
      exact Int.le_refl _

theorem remove (ha : TrailsAgree clock trails rows) (id : Uuid) :
    TrailsAgree clock (Assoc.drop id trails) (rows.filter (·.definition ≠ id)) where
  trail_eq := by
    intro id'
    rw [List.filter_filter]
    by_cases hid : id' = id
    · subst hid
      simp
    · rw [Assoc.find?_drop_of_ne hid, ← ha.trail_eq id']
      refine List.filter_congr fun e _ => ?_
      by_cases he : e.definition = id'
      · simp [he, hid]
      · simp [he]
  ordered := ha.ordered.filter _
  past e he := ha.past e (List.mem_filter.1 he).1

end TrailsAgree

/-! ## Templates -/

/-- A catalog, and tables that have its templates. -/
structure TemplatesAgree (catalog : Catalog) (t : Tables) : Prop where
  found : ∀ key, t.template key = catalog.get key
  listed : t.listTemplates = catalog.list .null
  storable : ∀ key tp, catalog.get key = .ok tp → tp.Storable

theorem TemplatesAgree.of_templates {catalog : Catalog} {t t' : Tables}
    (ha : TemplatesAgree catalog t) (h : t'.templates = t.templates) :
    TemplatesAgree catalog t' where
  found := by
    intro key
    rw [← ha.found key]
    unfold Tables.template Tables.templateRow?
    rw [h]
  listed := by
    rw [← ha.listed]
    unfold Tables.listTemplates
    rw [h]
  storable := ha.storable

end Workflow.Store
