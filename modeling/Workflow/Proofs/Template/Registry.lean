import Mathlib.Data.List.Nodup
import Mathlib.Data.Prod.Lex
import Workflow.Proofs.Sorting
import Workflow.Proofs.Template.Listing
import Workflow.Template.Builtin

/-!
# What a catalog holds

The catalog is two maps that are changed one after the other.  Whatever has been
registered and removed, they are inverse to each other: the template under an
identifier has that identifier, and a slug leads to the one template that has it.  So
each entry that a change removes is there, and no change fails.

    a registered template takes the place of all that share its identifier or slug
                                                                (InStep.register_eq)
    a removed one is taken out of both maps                     (InStep.unregister_eq)
    any changes → the maps are in step                          (exists_after)
    what is listed is what is stored, in order                  (listing_mergeSort)
    what holds of any catalog, in all                           (kept_always)
-/

namespace Workflow

/-- A template whose slug and name are texts, as they are declared. -/
structure Template.Typed (t : Template) : Prop where
  slug : t.slug.IsText
  name : t.name.IsText

namespace Catalog

variable {c c' : Catalog} {t u : Template}

/-- The templates in the order of the map that holds them. -/
def stored (c : Catalog) : List Template := Assoc.values c.templates

/-! ## Maps in step -/

/-- A slug leads to an identifier just if the template under it has the slug. -/
structure InStep (c : Catalog) : Prop where
  filed : Assoc.Filed Template.id c.templates
  slugs_nodup : (Assoc.keys c.slugs).Nodup
  slug_iff : ∀ slug id, Assoc.find? slug c.slugs = some id ↔
    ∃ t, Assoc.find? id c.templates = some t ∧ t.slug = slug
  typed : ∀ t ∈ c.stored, t.Typed

namespace InStep

theorem empty : InStep Catalog.empty where
  filed := .nil
  slugs_nodup := List.nodup_nil
  slug_iff := by simp [Catalog.empty]
  typed := by simp [Catalog.empty, stored, Assoc.values]

theorem mem_stored_iff (h : c.InStep) : t ∈ c.stored ↔ Assoc.find? t.id c.templates = some t := by
  constructor
  · exact h.filed.find?_of_mem_values
  · intro hf
    exact List.mem_map_of_mem (Assoc.mem_of_find? hf)

theorem mem_stored_of_find? (h : c.InStep) {id : Uuid} (hf : Assoc.find? id c.templates = some t) :
    t ∈ c.stored ∧ t.id = id := by
  have hid : t.id = id := h.filed.key_of_find? hf
  refine ⟨h.mem_stored_iff.2 ?_, hid⟩
  rw [hid]
  exact hf

theorem find?_slug (h : c.InStep) (ht : t ∈ c.stored) : Assoc.find? t.slug c.slugs = some t.id :=
  (h.slug_iff _ _).2 ⟨t, h.mem_stored_iff.1 ht, rfl⟩

theorem eq_of_id (h : c.InStep) (ht : t ∈ c.stored) (hu : u ∈ c.stored) (he : u.id = t.id) :
    u = t := by
  have hf := h.mem_stored_iff.1 hu
  rw [he, h.mem_stored_iff.1 ht] at hf
  exact (Option.some.inj hf).symm

theorem eq_of_slug (h : c.InStep) (ht : t ∈ c.stored) (hu : u ∈ c.stored)
    (he : u.slug = t.slug) : u = t := by
  have hf := h.find?_slug hu
  rw [he, h.find?_slug ht] at hf
  exact h.eq_of_id ht hu (Option.some.inj hf).symm

theorem stored_nodup (h : c.InStep) : c.stored.Nodup := by
  have hids : (c.stored.map Template.id).Nodup := by
    have hkeys : c.stored.map Template.id = Assoc.keys c.templates := by
      unfold stored Assoc.values Assoc.keys
      rw [List.map_map]
      exact List.map_congr_left h.filed.own
    rw [hkeys]
    exact h.filed.nodup
  exact hids.of_map

theorem ids_nodup (h : c.InStep) : (c.stored.map Template.id).Nodup :=
  (List.nodup_map_iff_inj_on h.stored_nodup).2 fun _ hu _ ht he => h.eq_of_id ht hu he

theorem stored_slugs_nodup (h : c.InStep) : (c.stored.map Template.slug).Nodup :=
  (List.nodup_map_iff_inj_on h.stored_nodup).2 fun _ hu _ ht he => h.eq_of_slug ht hu he

/-- The slugs that are known are those of the stored templates. -/
theorem slugs_perm (h : c.InStep) : (Assoc.keys c.slugs).Perm (c.stored.map Template.slug) := by
  refine (List.perm_ext_iff_of_nodup h.slugs_nodup h.stored_slugs_nodup).2 fun slug => ?_
  constructor
  · intro hs
    obtain ⟨e, he, rfl⟩ := List.mem_map.1 hs
    obtain ⟨t, hf, hslug⟩ := (h.slug_iff e.1 e.2).1 (Assoc.find?_of_mem h.slugs_nodup he)
    exact List.mem_map.2 ⟨t, (h.mem_stored_of_find? hf).1, hslug⟩
  · intro hs
    obtain ⟨t, ht, rfl⟩ := List.mem_map.1 hs
    exact List.mem_map.2 ⟨(t.slug, t.id), Assoc.mem_of_find? (h.find?_slug ht), rfl⟩

theorem length_slugs (h : c.InStep) : c.slugs.length = c.size := by
  show c.slugs.length = c.templates.length
  simpa [Assoc.keys, stored, Assoc.values] using h.slugs_perm.length_eq

/-- An entry has a slug just if the slug leads to it. -/
theorem slug_eq_iff (h : c.InStep) {e : Uuid × Template} (he : e ∈ c.templates) (slug : Value) :
    e.2.slug = slug ↔ Assoc.find? slug c.slugs = some e.1 := by
  have hf : Assoc.find? e.1 c.templates = some e.2 := Assoc.find?_of_mem h.filed.nodup he
  rw [h.slug_iff]
  simp [hf]

end InStep

/-! ## Registering -/

/-- The catalog in which a template has taken the place of all that share its identifier or
its slug. -/
def replacing (c : Catalog) (t : Template) : Catalog where
  templates := Assoc.put t.id t (c.templates.filter fun e => e.2.slug ≠ t.slug ∨ e.1 = t.id)
  slugs := Assoc.put t.slug t.id (c.slugs.filter fun e => e.2 ≠ t.id ∨ e.1 = t.slug)

theorem remove_eq {κ α : Type} [DecidableEq κ] {shown : String} {k : κ} {v : α} {m : List (κ × α)}
    (h : Assoc.find? k m = some v) : remove shown k m = .ok (Assoc.drop k m) := by
  unfold remove Assoc.contains
  rw [h]
  rfl

namespace InStep

/-- The other template that is removed, if there is one, is the one that has the slug. -/
theorem releaseSlug_eq (h : c.InStep) (ht : t.Typed) : c.releaseSlug t =
    .ok { c with templates := c.templates.filter fun e => e.2.slug ≠ t.slug ∨ e.1 = t.id } := by
  have hkeep (hall : ∀ e ∈ c.templates, e.2.slug ≠ t.slug ∨ e.1 = t.id) :
      c.templates.filter (fun e => e.2.slug ≠ t.slug ∨ e.1 = t.id) = c.templates :=
    List.filter_eq_self.2 fun e he => decide_eq_true (hall e he)
  unfold releaseSlug
  rw [ht.slug.key_eq]
  cases hs : Assoc.find? t.slug c.slugs with
  | none =>
    dsimp only
    rw [hkeep]
    intro e he
    left
    rw [Ne, h.slug_eq_iff he, hs]
    simp
  | some previous =>
    dsimp only
    by_cases hp : previous = t.id
    · rw [if_pos hp, hkeep]
      intro e he
      by_cases hslug : e.2.slug = t.slug
      · right
        rw [h.slug_eq_iff he, hs] at hslug
        rw [← Option.some.inj hslug, hp]
      · exact .inl hslug
    · obtain ⟨u, hu, -⟩ := (h.slug_iff _ _).1 hs
      rw [if_neg hp, removeTemplate, remove_eq hu, Assoc.drop_eq_filter]
      refine congrArg (fun m => Except.ok { c with templates := m }) (List.filter_congr ?_)
      intro e he
      have hslug : e.2.slug = t.slug ↔ previous = e.1 := by
        rw [h.slug_eq_iff he, hs, Option.some.injEq]
      rw [decide_eq_decide, Ne, Ne, hslug]
      constructor
      · exact .inl
      · rintro (he | he)
        · exact he
        · rw [he]
          exact hp

/-- The slug that is removed, if there is one, is the one under which the identifier is known. -/
theorem renameSlug_eq (h : c.InStep) (ht : t.Typed) {m : List (Uuid × Template)}
    (hm : Assoc.find? t.id m = Assoc.find? t.id c.templates) :
    renameSlug { c with templates := m } t =
      .ok ⟨m, c.slugs.filter fun e => e.2 ≠ t.id ∨ e.1 = t.slug⟩ := by
  have hkeep (hall : ∀ e ∈ c.slugs, e.2 ≠ t.id ∨ e.1 = t.slug) :
      c.slugs.filter (fun e => e.2 ≠ t.id ∨ e.1 = t.slug) = c.slugs :=
    List.filter_eq_self.2 fun e he => decide_eq_true (hall e he)
  have hslug {e : Value × Uuid} (he : e ∈ c.slugs) :
      e.2 = t.id ↔ ∃ u, Assoc.find? t.id c.templates = some u ∧ u.slug = e.1 := by
    rw [← h.slug_iff, Assoc.find?_of_mem h.slugs_nodup he, Option.some.injEq]
  unfold renameSlug
  rw [ht.slug.key_eq]
  dsimp only
  rw [hm]
  cases hf : Assoc.find? t.id c.templates with
  | none =>
    dsimp only
    rw [hkeep]
    intro e he
    left
    rw [Ne, hslug he, hf]
    simp
  | some existing =>
    have hexisting := (h.mem_stored_of_find? hf).1
    dsimp only
    rw [(h.typed existing hexisting).slug.key_eq]
    by_cases he : existing.slug = t.slug
    · rw [if_pos he, hkeep]
      intro e hmem
      by_cases hid : e.2 = t.id
      · right
        obtain ⟨u, hu, hs⟩ := (hslug hmem).1 hid
        obtain rfl := Option.some.inj (hf.symm.trans hu)
        rw [← hs, he]
      · exact .inl hid
    · rw [if_neg he, removeSlug, (h.typed existing hexisting).slug.key_eq,
        remove_eq (h.find?_slug hexisting), Assoc.drop_eq_filter]
      refine congrArg (fun s => Except.ok (⟨m, s⟩ : Catalog)) (List.filter_congr ?_)
      intro e hmem
      have hown : e.2 = t.id ↔ existing.slug = e.1 := by
        rw [hslug hmem, hf]
        simp
      rw [decide_eq_decide, Ne, Ne, hown]
      constructor
      · exact .inl
      · rintro (hne | heq)
        · exact hne
        · rw [heq]
          exact he

theorem register_eq (h : c.InStep) (ht : t.Typed) : c.register t = .ok (c.replacing t) := by
  have hfind : Assoc.find? t.id (c.templates.filter fun e => e.2.slug ≠ t.slug ∨ e.1 = t.id) =
      Assoc.find? t.id c.templates := by
    rw [Assoc.find?_filter_entries h.filed.nodup]
    cases Assoc.find? t.id c.templates <;> simp
  unfold register
  rw [if_pos ht.slug.isKey]
  refine bind_eq_ok.2 ⟨_, h.releaseSlug_eq ht, bind_eq_ok.2 ⟨_, h.renameSlug_eq ht hfind, ?_⟩⟩
  rw [ht.slug.key_eq]
  rfl

theorem find?_replacing_templates (h : c.InStep) (t : Template) (id : Uuid) :
    Assoc.find? id (c.replacing t).templates = if id = t.id then some t
      else (Assoc.find? id c.templates).filter fun u => u.slug ≠ t.slug := by
  unfold replacing
  by_cases hid : id = t.id
  · rw [if_pos hid, hid, Assoc.find?_put_self]
  · rw [if_neg hid, Assoc.find?_put_of_ne hid, Assoc.find?_filter_entries h.filed.nodup]
    simp [hid]

theorem find?_replacing_slugs (h : c.InStep) (t : Template) (slug : Value) :
    Assoc.find? slug (c.replacing t).slugs = if slug = t.slug then some t.id
      else (Assoc.find? slug c.slugs).filter fun id => id ≠ t.id := by
  unfold replacing
  by_cases hs : slug = t.slug
  · rw [if_pos hs, hs, Assoc.find?_put_self]
  · rw [if_neg hs, Assoc.find?_put_of_ne hs, Assoc.find?_filter_entries h.slugs_nodup]
    simp [hs]

theorem replacing (h : c.InStep) (ht : t.Typed) : (c.replacing t).InStep where
  filed := (h.filed.filter _).put rfl
  slugs_nodup := Assoc.nodup_keys_put (h.slugs_nodup.sublist (List.filter_sublist.map Prod.fst))
  slug_iff slug id := by
    rw [h.find?_replacing_slugs, h.find?_replacing_templates]
    by_cases hs : slug = t.slug
    · rw [if_pos hs]
      by_cases hid : id = t.id
      · simp [hid, hs]
      · simp [hid, hs, Ne.symm hid]
    · rw [if_neg hs, Option.filter_eq_some_iff, h.slug_iff]
      by_cases hid : id = t.id
      · simp [hid, Ne.symm hs]
      · rw [if_neg hid]
        simp only [Option.filter_eq_some_iff]
        constructor
        · rintro ⟨⟨u, hu, rfl⟩, -⟩
          exact ⟨u, ⟨hu, decide_eq_true hs⟩, rfl⟩
        · rintro ⟨u, ⟨hu, -⟩, rfl⟩
          exact ⟨⟨u, hu, rfl⟩, decide_eq_true hid⟩
  typed u hu := by
    rcases Assoc.mem_values_put hu with rfl | hu
    · exact ht
    · obtain ⟨e, he, rfl⟩ := List.mem_map.1 hu
      exact h.typed e.2 (List.mem_map_of_mem (List.mem_filter.1 he).1)

/-- A stored template is found by its identifier and by its slug. -/
theorem get_of_mem (h : c.InStep) (ht : t ∈ c.stored) :
    c.get (.id t.id) = .ok t ∧ ∀ s, t.slug = .text s → c.get (.text s) = .ok t := by
  have hf := h.mem_stored_iff.1 ht
  constructor
  · simp [get, find?, resolve, hf]
  · intro s hs
    have hslug := h.find?_slug ht
    rw [hs] at hslug
    simp [get, find?, resolve, hslug, hf]

end InStep

/-- Whether a template shares neither its identifier nor its slug with another. -/
def apart (t u : Template) : Bool := u.id ≠ t.id && u.slug ≠ t.slug

/-- What a catalog is once a template has been registered. -/
structure Registered (c : Catalog) (t : Template) (c' : Catalog) : Prop where
  byId : c'.get (.id t.id) = .ok t
  bySlug : ∀ s, t.slug = .text s → c'.get (.text s) = .ok t
  others : c'.stored.filter (apart t) = c.stored.filter (apart t)
  gone : ∀ u ∈ c'.stored, u.id = t.id ∨ u.slug = t.slug → u = t

theorem InStep.registered (h : c.InStep) (ht : t.Typed) : Registered c t (c.replacing t) := by
  have h' : (c.replacing t).InStep := h.replacing ht
  have hmem : t ∈ (c.replacing t).stored := by
    rw [h'.mem_stored_iff, h.find?_replacing_templates, if_pos rfl]
  refine ⟨(h'.get_of_mem hmem).1, (h'.get_of_mem hmem).2, ?_, ?_⟩
  · have hkept := h.filed.filter fun e => e.2.slug ≠ t.slug ∨ e.1 = t.id
    refine (Assoc.filter_values_put (by simp [apart]) fun u hu => ?_).trans
      (Assoc.filter_values_filter fun e _ hdropped => ?_)
    · simp [apart, hkept.key_of_find? hu]
    · simp only [decide_eq_false_iff_not, not_or, Decidable.not_not] at hdropped
      simp [apart, hdropped.1]
  · rintro u hu (hid | hslug)
    · exact h'.eq_of_id hmem hu hid
    · exact h'.eq_of_slug hmem hu hslug

/-! ## Removing -/

/-- The catalog without a template and its slug. -/
def without (c : Catalog) (t : Template) : Catalog where
  templates := Assoc.drop t.id c.templates
  slugs := Assoc.drop t.slug c.slugs

theorem unregister_of_none {key : TemplateKey} (hf : c.find? key = none) :
    c.unregister key = .ok c := by
  unfold find? at hf
  unfold unregister
  cases hr : c.resolve key with
  | none => rfl
  | some id =>
    rw [hr, Option.bind_some] at hf
    simp [hf]

namespace InStep

theorem mem_of_find? (h : c.InStep) {key : TemplateKey} (hf : c.find? key = some t) :
    t ∈ c.stored := by
  obtain ⟨id, -, hid⟩ := Option.bind_eq_some_iff.1 hf
  exact (h.mem_stored_of_find? hid).1

theorem unregister_of_some (h : c.InStep) {key : TemplateKey} (hf : c.find? key = some t) :
    c.unregister key = .ok (c.without t) := by
  have ht : t ∈ c.stored := h.mem_of_find? hf
  obtain ⟨id, hr, hid⟩ := Option.bind_eq_some_iff.1 hf
  obtain rfl := (h.mem_stored_of_find? hid).2
  unfold unregister
  rw [hr]
  dsimp only
  rw [hid]
  dsimp only
  rw [removeSlug, (h.typed t ht).slug.key_eq, remove_eq (h.find?_slug ht)]
  rfl

theorem find?_without_templates (t : Template) (id : Uuid) :
    Assoc.find? id (c.without t).templates
      = if id = t.id then none else Assoc.find? id c.templates := by
  unfold without
  by_cases hid : id = t.id
  · rw [if_pos hid, hid, Assoc.find?_drop_self]
  · rw [if_neg hid, Assoc.find?_drop_of_ne hid]

theorem find?_without_slugs (t : Template) (slug : Value) :
    Assoc.find? slug (c.without t).slugs
      = if slug = t.slug then none else Assoc.find? slug c.slugs := by
  unfold without
  by_cases hs : slug = t.slug
  · rw [if_pos hs, hs, Assoc.find?_drop_self]
  · rw [if_neg hs, Assoc.find?_drop_of_ne hs]

theorem without (h : c.InStep) (ht : t ∈ c.stored) : (c.without t).InStep where
  filed := h.filed.drop t.id
  slugs_nodup := Assoc.nodup_keys_drop t.slug h.slugs_nodup
  slug_iff slug id := by
    -- The identifier and the slug of the template belong to no other.
    have hown {u : Template} (hu : Assoc.find? id c.templates = some u) :
        id = t.id ↔ u.slug = t.slug := by
      obtain ⟨hmem, rfl⟩ := h.mem_stored_of_find? hu
      constructor
      · exact fun hid => congrArg Template.slug (h.eq_of_id ht hmem hid)
      · exact fun hs => congrArg Template.id (h.eq_of_slug ht hmem hs)
    rw [find?_without_slugs, find?_without_templates]
    by_cases hs : slug = t.slug
    · rw [if_pos hs]
      refine iff_of_false (by simp) ?_
      rintro ⟨u, hu, rfl⟩
      split at hu
      · cases hu
      · next hid => exact hid ((hown hu).2 hs)
    · rw [if_neg hs, h.slug_iff]
      refine exists_congr fun u => and_congr_left ?_
      rintro rfl
      split
      · next hid => exact iff_of_false (fun hu => hs ((hown hu).1 hid)) (by simp)
      · exact Iff.rfl
  typed u hu := by
    obtain ⟨e, he, rfl⟩ := List.mem_map.1 hu
    exact h.typed e.2 (List.mem_map_of_mem ((Assoc.drop_sublist t.id _).subset he))

end InStep

/-! ## Any changes -/

inductive Change where
  | register (t : Template)
  | unregister (key : TemplateKey)

def perform (c : Catalog) : Change → Except Error Catalog
  | .register t => c.register t
  | .unregister key => c.unregister key

/-- Removing a template never fails. -/
theorem InStep.unregister (h : c.InStep) (key : TemplateKey) :
    ∃ c', c.unregister key = .ok c' ∧ c'.InStep := by
  cases hf : c.find? key with
  | none => exact ⟨c, unregister_of_none hf, h⟩
  | some t => exact ⟨c.without t, h.unregister_of_some hf, h.without (h.mem_of_find? hf)⟩

theorem InStep.perform (h : c.InStep) (change : Change)
    (ht : ∀ t, change = .register t → t.Typed) : ∃ c', c.perform change = .ok c' ∧ c'.InStep := by
  cases change with
  | register t => exact ⟨c.replacing t, h.register_eq (ht t rfl), h.replacing (ht t rfl)⟩
  | unregister key => exact h.unregister key

theorem InStep.exists_after (h : c.InStep) {changes : List Change}
    (ht : ∀ t, .register t ∈ changes → t.Typed) :
    ∃ c', changes.foldlM Catalog.perform c = .ok c' ∧ c'.InStep := by
  induction changes generalizing c with
  | nil => exact ⟨c, rfl, h⟩
  | cons change rest ih =>
    obtain ⟨c₁, hfirst, h₁⟩ := h.perform change fun t he => ht t (he ▸ List.mem_cons_self)
    obtain ⟨c₂, hrest, h₂⟩ := ih h₁ fun t hm => ht t (List.mem_cons_of_mem change hm)
    refine ⟨c₂, ?_, h₂⟩
    rw [List.foldlM_cons, hfirst]
    exact hrest

/-! ## Listing -/

section

variable (fold : Value → String)

/-- Recommended templates come first, and then the names in one spelling. -/
def rankBy (t : Template) : Bool ×ₗ String := toLex (!t.recommended, fold t.name)

/-- Templates by rank; those of equal rank stay in their order. -/
structure IsListingBy (stored listed : List Template) : Prop where
  perm : listed.Perm stored
  ordered : listed.Pairwise fun t u => rankBy fold t ≤ rankBy fold u
  ties : ∀ r, listed.filter (rankBy fold · = r) = stored.filter (rankBy fold · = r)

variable {fold}

theorem before_iff_rankBy : before fold t u = true ↔ rankBy fold t ≤ rankBy fold u := by
  rw [before_iff, rankBy, rankBy, Prod.Lex.toLex_le_toLex]
  cases t.recommended <;> cases u.recommended <;> simp

variable (fold)

theorem isListingBy_mergeSort (ts : List Template) :
    IsListingBy fold ts (ts.mergeSort (before fold)) where
  perm := List.mergeSort_perm _ _
  ordered := (List.pairwise_mergeSort (before_trans _) (before_total _) ts).imp before_iff_rankBy.1
  ties r := by
    refine filter_mergeSort_of_tied (before_trans _) (before_total _) (fun t u ht hu => ?_) ts
    rw [before_iff_rankBy, of_decide_eq_true hu, ← of_decide_eq_true ht, ← before_iff_rankBy]
    simpa using before_total fold t t

end

/-- Recommended templates come first, and then the names regardless of case. -/
def rank (t : Template) : Bool ×ₗ String :=
  toLex (!t.recommended, Text.lowercase t.name.bare)

/-- Templates by rank; those of equal rank stay in their order. -/
structure IsListing (stored listed : List Template) : Prop where
  perm : listed.Perm stored
  ordered : listed.Pairwise fun t u => rank t ≤ rank u
  ties : ∀ r, listed.filter (rank · = r) = stored.filter (rank · = r)

theorem listing_mergeSort (ts : List Template) :
    IsListing ts (ts.mergeSort (before fun name => Text.lowercase name.bare)) := by
  have h := isListingBy_mergeSort (fun name => Text.lowercase name.bare) ts
  exact ⟨h.perm, h.ordered, h.ties⟩

theorem InStep.list_eq (h : c.InStep) (category : Value) : c.list category =
    .ok ((c.stored.filter fun t => category = .null || t.category.same category).mergeSort
      (before fun name => Text.lowercase name.bare)) := by
  refine if_pos (List.all_eq_true.2 fun t ht => ?_)
  obtain ⟨s, hs⟩ := (h.typed t (List.mem_filter.1 ht).1).name
  rw [hs]

theorem InStep.list_null (h : c.InStep) :
    c.list .null = .ok (c.stored.mergeSort (before fun name => Text.lowercase name.bare)) := by
  have hall : (c.stored.filter fun t => Value.null = .null || t.category.same .null) = c.stored :=
    List.filter_eq_self.2 fun _ _ => rfl
  rw [h.list_eq, hall]

/-- The templates of a category are those of the whole list, in its order. -/
theorem InStep.list (h : c.InStep) : ∃ listed, c.list .null = .ok listed ∧
    IsListing c.stored listed ∧
    ∀ category ≠ .null, c.list category = .ok (listed.filter (·.category.same category)) := by
  refine ⟨_, h.list_null, listing_mergeSort c.stored, fun category hc => ?_⟩
  rw [h.list_eq, filter_mergeSort (before_trans _) (before_total _)]
  simp [hc]

/-! ## Main result -/

/-- What holds of a catalog after any changes. -/
structure Kept (c : Catalog) : Prop where
  inStep : c.InStep
  ids : (c.stored.map Template.id).Nodup
  slugs : (c.stored.map Template.slug).Nodup
  sizes : c.size = c.templates.length ∧ c.size = c.slugs.length
  found : ∀ t ∈ c.stored,
    c.get (.id t.id) = .ok t ∧ ∀ s, t.slug = .text s → c.get (.text s) = .ok t
  registers : ∀ t : Template, t.Typed → ∃ c', c.register t = .ok c' ∧ Registered c t c'
  unregisters : ∀ key, ∃ c', c.unregister key = .ok c'
  lists : ∃ listed, c.list .null = .ok listed ∧ IsListing c.stored listed ∧
    ∀ category ≠ .null, c.list category = .ok (listed.filter (·.category.same category))

/-- No registration and no removal fails, and whatever they were the catalog is kept. -/
theorem kept_always (changes : List Change) (h : ∀ t, .register t ∈ changes → t.Typed) :
    ∃ c, changes.foldlM perform empty = .ok c ∧ c.Kept := by
  obtain ⟨c, hc, hs⟩ := InStep.empty.exists_after h
  refine ⟨c, hc, ?_⟩
  exact {
    inStep := hs
    ids := hs.ids_nodup
    slugs := hs.stored_slugs_nodup
    sizes := ⟨rfl, hs.length_slugs.symm⟩
    found := fun t ht => hs.get_of_mem ht
    registers := fun t ht => ⟨_, hs.register_eq ht, hs.registered ht⟩
    unregisters := fun key => (hs.unregister key).imp fun _ h => h.1
    lists := hs.list }

/-- The lead template under the slug of the invoice template. -/
def renamedLead : Template := { Template.leadNurture with slug := .text "invoice-reminders" }

/-- One registration displaces a template by its slug and renames another by its identifier;
the rest is removed by the text of an identifier and by a key that is not known. -/
def takeover : List Change :=
  [.register Template.leadNurture, .register Template.invoiceReminders, .register renamedLead,
    .register Template.orderConfirmation,
    .unregister (.text "9a8e03ef-d9ec-52d7-859b-ca98f4df6a8f"), .unregister (.text "never-there")]

theorem kept_always_takeover :
    (∀ t, .register t ∈ takeover → t.Typed) ∧
    ∃ c, takeover.foldlM perform empty = .ok c ∧ c.Kept ∧ c.stored = [renamedLead] ∧
      c.slugs = [(.text "invoice-reminders", Template.leadNurture.id)] := by
  have htyped : ∀ t, .register t ∈ takeover → t.Typed := by
    intro t ht
    simp only [takeover, List.mem_cons, List.not_mem_nil, or_false, Change.register.injEq,
      reduceCtorEq] at ht
    rcases ht with rfl | rfl | rfl | rfl
    all_goals exact ⟨⟨_, rfl⟩, ⟨_, rfl⟩⟩
  obtain ⟨c, hc, hk⟩ := kept_always takeover htyped
  have hend : takeover.foldlM perform empty = .ok
      ⟨[(Template.leadNurture.id, renamedLead)],
        [(.text "invoice-reminders", Template.leadNurture.id)]⟩ := by
    decide +kernel
  obtain rfl := Except.ok.inj (hc.symm.trans hend)
  exact ⟨htyped, _, hc, hk, rfl, rfl⟩

end Catalog

end Workflow
