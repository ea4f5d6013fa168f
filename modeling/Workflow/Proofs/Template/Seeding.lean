import Workflow.Proofs.Store.Agreement
import Workflow.Proofs.Template.Listing
import Workflow.Template.Builtin

/-!
# Templates that both stores are given

The catalog is made of templates that share neither identifier nor slug, and the
table is seeded with them in the order in which the catalog lists them.  The two
then find the same template by each key and list the same.

    portable templates, all distinct → catalog and table agree    (seed_agree)
-/

namespace Workflow

open Store (Tables TemplateRow)

/-- Templates that a table can keep, no two of which share an identifier or a slug. -/
structure Template.Apart (ts : List Template) : Prop where
  keepable : ∀ t ∈ ts, t.Keepable
  ids : (ts.map Template.id).Nodup
  slugs : (ts.map Template.slug).Nodup

/-- Templates that can be kept alike, no two of which share an identifier or a slug. -/
structure Template.Distinct (ts : List Template) : Prop where
  portable : ∀ t ∈ ts, t.Portable
  ids : (ts.map Template.id).Nodup
  slugs : (ts.map Template.slug).Nodup

variable {ts ls : List Template}

theorem Template.Distinct.apart (h : Template.Distinct ts) : Template.Apart ts where
  keepable t ht := (h.portable t ht).keepable
  ids := h.ids
  slugs := h.slugs

theorem Template.Apart.perm (h : Template.Apart ts) (hp : ls.Perm ts) : Template.Apart ls where
  keepable t ht := h.keepable t (hp.mem_iff.1 ht)
  ids := (hp.map Template.id).nodup_iff.2 h.ids
  slugs := (hp.map Template.slug).nodup_iff.2 h.slugs

/-- Of templates apart the last shares nothing with those before it. -/
theorem Template.Apart.fresh {t : Template} {rest : List Template}
    (h : Template.Apart (ts ++ t :: rest)) :
    (∀ u ∈ ts, u.id ≠ t.id) ∧ ∀ u ∈ ts, u.slug ≠ t.slug := by
  have hids := h.ids
  have hslugs := h.slugs
  rw [List.map_append, List.map_cons] at hids hslugs
  constructor
  · intro u hu
    exact (List.nodup_append.1 hids).2.2 u.id (List.mem_map_of_mem hu) t.id List.mem_cons_self
  · intro u hu
    exact (List.nodup_append.1 hslugs).2.2 u.slug (List.mem_map_of_mem hu) t.slug
      List.mem_cons_self

/-- Templates apart are taken one after another, each of them new to those before it. -/
theorem Template.Apart.induction {P : List Template → List Template → Prop}
    (nil : ∀ earlier, P earlier [])
    (cons : ∀ earlier t rest, t.Keepable → (∀ u ∈ earlier, u.id ≠ t.id) →
      (∀ u ∈ earlier, u.slug ≠ t.slug) → P (earlier ++ [t]) rest → P earlier (t :: rest))
    (h : Template.Apart ts) : P [] ts := by
  have hall : ∀ earlier, Template.Apart (earlier ++ ts) → P earlier ts := by
    clear h
    induction ts with
    | nil => exact fun earlier _ => nil earlier
    | cons t rest ih =>
      intro earlier h
      obtain ⟨hid, hslug⟩ := h.fresh
      have ht := h.keepable t (List.mem_append_right _ List.mem_cons_self)
      refine cons earlier t rest ht hid hslug (ih (earlier ++ [t]) ?_)
      rwa [List.append_assoc, List.singleton_append]
  exact hall [] h

/-- The templates that come with the library can be kept alike. -/
theorem Template.distinct_builtin : Template.Distinct Template.builtin where
  portable := by
    intro t ht
    simp only [Template.builtin, List.mem_cons, List.not_mem_nil, or_false] at ht
    rcases ht with rfl | rfl | rfl | rfl
    all_goals exact {
      description := ⟨_, rfl⟩
      ids_nodup := by decide
      graph := by decide +kernel
      slug := ⟨_, rfl⟩
      name := ⟨_, rfl, by decide +kernel⟩
      category := ⟨_, rfl⟩
      ids_ne_empty := by decide }
  ids := by decide +kernel
  slugs := by decide +kernel

/-! ## The catalog -/

namespace Catalog

/-- The catalog that has registered distinct templates one after another. -/
def holding (ts : List Template) : Catalog :=
  ⟨Assoc.index Template.id ts, (Assoc.index Template.slug ts).map fun e => (e.1, e.2.id)⟩

theorem holding_register {t : Template} (hs : t.slug.IsText) (hid : ∀ u ∈ ts, u.id ≠ t.id)
    (hslug : ∀ u ∈ ts, u.slug ≠ t.slug) :
    (holding ts).register t = .ok (holding (ts ++ [t])) := by
  have hnewId : Assoc.find? t.id (holding ts).templates = none := Assoc.find?_index_eq_none hid
  have hnewSlug : Assoc.find? t.slug (holding ts).slugs = none := by
    show Assoc.find? t.slug ((Assoc.index Template.slug ts).map fun e => (e.1, e.2.id)) = none
    rw [Assoc.find?_map, Assoc.find?_index_eq_none hslug]
    rfl
  have hrelease : (holding ts).releaseSlug t = .ok (holding ts) := by
    unfold releaseSlug
    rw [hs.key_eq, hnewSlug]
  have hrename : (holding ts).renameSlug t = .ok (holding ts) := by
    unfold renameSlug
    rw [hnewId]
  have hadd : (holding ts).add t = .ok (holding (ts ++ [t])) := by
    refine bind_eq_ok.2 ⟨_, hrelease, bind_eq_ok.2 ⟨_, hrename, ?_⟩⟩
    rw [hs.key_eq, Assoc.put_of_find?_eq_none hnewId, Assoc.put_of_find?_eq_none hnewSlug]
    unfold holding Assoc.index
    simp [pure, Except.pure]
  unfold register
  rw [if_pos hs.isKey, hadd]

theorem ofList_eq (h : Template.Apart ts) : ofList ts = .ok (holding ts) := by
  refine h.induction
    (P := fun earlier ts => ts.foldlM register (holding earlier) = .ok (holding (earlier ++ ts)))
    ?_ ?_
  · intro earlier
    rw [List.append_nil]
    rfl
  · intro earlier t rest ht hid hslug ih
    rw [List.append_assoc, List.singleton_append] at ih
    rw [List.foldlM_cons, holding_register ht.slug hid hslug]
    exact ih

/-- A text is a slug if a template has it, and else the text of an identifier. -/
theorem resolve_holding (ts : List Template) (s : String) :
    (holding ts).resolve (.text s)
      = match Assoc.find? (Value.text s) (Assoc.index Template.slug ts) with
        | some t => some t.id
        | none => (Uuid.ofText s).toOption := by
  have hfind : Assoc.find? (Value.text s) (holding ts).slugs
      = (Assoc.find? (Value.text s) (Assoc.index Template.slug ts)).map Template.id :=
    Assoc.find?_map _ _ _
  unfold resolve
  dsimp only
  rw [hfind]
  cases Assoc.find? (Value.text s) (Assoc.index Template.slug ts) with
  | none => rfl
  | some t => rfl

/-- The catalog lists what it holds in an order of its own. -/
theorem list_holding (h : ∀ t ∈ ts, t.name.IsText) :
    (holding ts).list .null
      = .ok (ts.mergeSort (before fun name => Text.lowercase name.bare)) := by
  have hvalues : (Assoc.values (holding ts).templates).filter (fun t =>
      Value.null = .null || t.category.same .null) = ts := by
    show (Assoc.values (Assoc.index Template.id ts)).filter _ = ts
    rw [Assoc.values_index]
    exact List.filter_eq_self.2 fun _ _ => rfl
  unfold list
  rw [hvalues]
  show (if namesAreTexts ts = true then _ else _) = _
  rw [if_pos (namesAreTexts_of_texts h)]

end Catalog

/-! ## The table -/

namespace Store.Tables

theorem seedOne_eq {t : Template} (ht : t.Keepable) (hid : ∀ u ∈ ts, u.id ≠ t.id)
    (hslug : ∀ u ∈ ts, u.slug ≠ t.slug) (last : Bool) :
    seedOne last (ts.map TemplateRow.of) t = .ok ((ts ++ [t]).map TemplateRow.of) := by
  have hnone : (ts.map TemplateRow.of).find? (fun row => t.slug ≠ .null ∧ row.slug = t.slug)
      = none := by
    refine List.find?_eq_none.2 fun row hrow hsame => ?_
    obtain ⟨u, hu, rfl⟩ := List.mem_map.1 hrow
    exact hslug u hu (of_decide_eq_true hsame).2
  have hany : (ts.map TemplateRow.of).any (·.id = t.id) = false := by
    refine List.any_eq_false.2 fun row hrow hsame => ?_
    obtain ⟨u, hu, rfl⟩ := List.mem_map.1 hrow
    exact hid u hu (of_decide_eq_true hsame)
  have hcolumn : Column.inserting (Column.text t.slug) = .ok t.slug := by
    rw [ht.slug.column]
    rfl
  refine bind_eq_ok.2 ⟨t.slug, hcolumn, ?_⟩
  rw [hnone, TemplateRow.ofTemplate_eq ht]
  show (if (ts.map TemplateRow.of).any (·.id = t.id) = true then _ else _) = _
  rw [if_neg (by simp [hany]), List.map_append]
  rfl

theorem seed_empty (h : Template.Apart ts) :
    empty.seed ts = .ok { empty with templates := ts.map TemplateRow.of } := by
  have hall : seedAll [] ts = .ok (ts.map TemplateRow.of) := by
    refine h.induction
      (P := fun earlier ts =>
        seedAll (earlier.map TemplateRow.of) ts = .ok ((earlier ++ ts).map TemplateRow.of))
      ?_ ?_
    · intro earlier
      rw [List.append_nil]
      rfl
    · intro earlier t rest ht hid hslug ih
      rw [List.append_assoc, List.singleton_append] at ih
      rw [seedAll, seedOne_eq ht hid hslug]
      exact ih
  unfold seed
  rw [show seedAll empty.templates ts = _ from hall]
  rfl

end Store.Tables

/-! ## Agreement -/

namespace Store

/-- A row is found by a key of its own wherever it stands. -/
theorem find?_rows {κ : Type} [DecidableEq κ] {key : Template → κ} {rowKey : TemplateRow → κ}
    (hkey : ∀ t, rowKey (TemplateRow.of t) = key t) (hn : (ts.map key).Nodup)
    (hp : ls.Perm ts) (k : κ) :
    (ls.map TemplateRow.of).find? (rowKey · = k)
      = (Assoc.find? k (Assoc.index key ts)).map TemplateRow.of := by
  rw [← Assoc.find?_of_perm hn hp, List.find?_map]
  congr 2
  funext t
  show decide (rowKey (TemplateRow.of t) = k) = decide (key t = k)
  rw [hkey t]

/-- Tables in which nothing but templates stands. -/
def Tables.ofTemplates (ls : List Template) : Tables :=
  { Tables.empty with templates := ls.map TemplateRow.of }

theorem find?_holding_text (h : Template.Distinct ts) {s : String} {t : Template}
    (hf : Assoc.find? (Value.text s) (Assoc.index Template.slug ts) = some t) :
    (Catalog.holding ts).find? (.text s) = some t := by
  have hmem := (Assoc.find?_index_eq_some hf).1
  unfold Catalog.find?
  rw [Catalog.resolve_holding, hf]
  show Assoc.find? t.id (Assoc.index Template.id ts) = some t
  exact Assoc.find?_of_mem (Assoc.filed_index h.ids).nodup (List.mem_map_of_mem hmem)

/-- A key is looked up as a slug first, and as an identifier if no template has the slug. -/
theorem templateRow?_eq (h : Template.Distinct ts) (hp : ls.Perm ts) (key : TemplateKey) :
    (Tables.ofTemplates ls).templateRow? key
      = ((Catalog.holding ts).find? key).map TemplateRow.of := by
  have hid : ∀ id, (ls.map TemplateRow.of).find? (·.id = id)
      = (Assoc.find? id (Assoc.index Template.id ts)).map TemplateRow.of :=
    fun id => find?_rows (fun _ => rfl) h.ids hp id
  cases key with
  | id id => exact hid id
  | text s =>
    have hslug : (Tables.ofTemplates ls).templates.find? (·.slug = Value.text s)
        = (Assoc.find? (Value.text s) (Assoc.index Template.slug ts)).map TemplateRow.of :=
      find?_rows (fun _ => rfl) h.slugs hp (Value.text s)
    unfold Tables.templateRow?
    dsimp only
    rw [hslug]
    cases hf : Assoc.find? (Value.text s) (Assoc.index Template.slug ts) with
    | some t =>
      rw [find?_holding_text h hf]
      rfl
    | none =>
      unfold Catalog.find?
      rw [Catalog.resolve_holding, hf]
      show ((Uuid.ofText s).toOption.bind fun id =>
        (ls.map TemplateRow.of).find? (·.id = id)) = _
      cases (Uuid.ofText s).toOption with
      | none => rfl
      | some id => exact hid id

theorem mem_of_get {key : TemplateKey} {t : Template}
    (hg : (Catalog.holding ts).get key = .ok t) : t ∈ ts := by
  unfold Catalog.get at hg
  split at hg
  next u hf =>
    obtain rfl := Except.ok.inj hg
    obtain ⟨id, -, hid⟩ := Option.bind_eq_some_iff.1 hf
    exact (Assoc.find?_index_eq_some hid).1
  next => cases hg

theorem template_eq (h : Template.Distinct ts) (hp : ls.Perm ts) (key : TemplateKey) :
    (Tables.ofTemplates ls).template key = (Catalog.holding ts).get key := by
  unfold Tables.template
  rw [templateRow?_eq h hp key]
  cases hf : (Catalog.holding ts).find? key with
  | none =>
    unfold Catalog.get
    rw [hf]
    rfl
  | some t =>
    have hg : (Catalog.holding ts).get key = .ok t := by
      unfold Catalog.get
      rw [hf]
    rw [hg]
    exact TemplateRow.read_of (h.portable t (mem_of_get hg)).keepable

/-- The table lists its templates by the names with the Latin letters in lower case. -/
theorem listTemplates_ofTemplates (h : ∀ t ∈ ts, t.Keepable) :
    (Tables.ofTemplates ts).listTemplates
      = .ok (ts.mergeSort (Catalog.before Tables.foldName)) := by
  have hkeepable : ∀ t ∈ ts.mergeSort (Catalog.before Tables.foldName), t.Keepable :=
    fun t ht => h t (List.mem_mergeSort.1 ht)
  show ((ts.map TemplateRow.of).mergeSort Tables.rowBefore).mapM TemplateRow.read = _
  rw [← List.map_mergeSort fun t _ u _ => (TemplateRow.rowBefore_of t u).symm]
  exact mapM_map_eq_ok fun t ht => TemplateRow.read_of (hkeepable t ht)

/-- What has been sorted once is listed as it stands. -/
theorem listTemplates_eq (h : ∀ t ∈ ts, t.Portable) :
    (Tables.ofTemplates
      (ts.mergeSort (Catalog.before fun name => Text.lowercase name.bare))).listTemplates
      = .ok (ts.mergeSort (Catalog.before fun name => Text.lowercase name.bare)) := by
  have hportable : ∀ t ∈ ts.mergeSort (Catalog.before fun name => Text.lowercase name.bare),
      t.Portable := fun t ht => h t (List.mem_mergeSort.1 ht)
  rw [listTemplates_ofTemplates fun t ht => (hportable t ht).keepable]
  refine congrArg _ (List.mergeSort_of_pairwise ?_)
  refine (List.pairwise_mergeSort (Catalog.before_trans _) (Catalog.before_total _) ts).imp_of_mem
    fun {t u} ht hu hbefore => ?_
  rwa [(hportable t ht).before_eq (hportable u hu)]

/-- A catalog of distinct templates and tables that are seeded from its list agree. -/
theorem seed_agree (h : Template.Distinct ts) : ∃ catalog listed tables,
    Catalog.ofList ts = .ok catalog ∧ catalog.list .null = .ok listed ∧
      Tables.empty.seed listed = .ok tables ∧ tables = Tables.ofTemplates listed ∧
      TemplatesAgree catalog tables := by
  have hperm : (ts.mergeSort (Catalog.before fun name => Text.lowercase name.bare)).Perm ts :=
    List.mergeSort_perm _ _
  have hlist := Catalog.list_holding fun t ht => (h.portable t ht).keepable.name
  refine ⟨Catalog.holding ts, _, _, Catalog.ofList_eq h.apart, hlist,
    Tables.seed_empty (h.apart.perm hperm), rfl, ?_⟩
  exact {
    found := template_eq h hperm
    listed := (listTemplates_eq h.portable).trans hlist.symm
    storable key t hg := (h.portable t (mem_of_get hg)).toStorable }

end Store

end Workflow
