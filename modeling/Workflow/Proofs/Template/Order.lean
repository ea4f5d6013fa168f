import Workflow.Proofs.Template.Registry
import Workflow.Proofs.Template.Seeding

/-!
# The catalog as a table lists it

A table that is seeded with what a catalog lists holds the same templates, and lists the
recommended ones first and then the rest by name, as the catalog does.  The two spell the
names differently before they compare them.  The catalog writes the capitals of every script
small and the table the Latin ones only, so a name that starts with any other capital may
stand elsewhere.

    a table lists by rank, in which the Latin letters count as small    (listTemplates_ofTemplates)
    the lists are the same ↔ the catalog's is in the order of that rank
    what a table makes of any catalog                                   (shown_by_table)
    Étude and école stand in one order here and in the other there      (order_differs)
-/

namespace Workflow.Catalog

open Store (Tables)

variable {c : Catalog} {ts : List Template}

theorem InStep.apart (h : c.InStep) (hk : ∀ t ∈ c.stored, t.Keepable) :
    Template.Apart c.stored where
  keepable := hk
  ids := h.ids_nodup
  slugs := h.stored_slugs_nodup

/-- What has been listed is moved by another spelling of the names unless it is in order. -/
theorem mergeSort_eq_self_iff_rankBy (fold : Value → String) :
    ts.mergeSort (before fold) = ts ↔ ts.Pairwise fun t u => rankBy fold t ≤ rankBy fold u := by
  rw [mergeSort_eq_self_iff (before_trans fold) (before_total fold)]
  simp only [before_iff_rankBy]

/-- What the catalog lists, and what a table shows that is seeded with it. -/
structure ShownByTable (c : Catalog) (listed shown : List Template) : Prop where
  list : c.list .null = .ok listed
  isListing : IsListing c.stored listed
  seeded : ∃ tables, Tables.empty.seed listed = .ok tables ∧ tables.listTemplates = .ok shown
  isLatinListing : IsListingBy Tables.foldName listed shown
  same_iff : shown = listed ↔
    listed.Pairwise fun t u => rankBy Tables.foldName t ≤ rankBy Tables.foldName u
  same_of_spelled : (∀ t ∈ c.stored, Text.lowercase t.name.bare = Tables.foldName t.name) →
    shown = listed

theorem InStep.shownByTable (h : c.InStep) (hk : ∀ t ∈ c.stored, t.Keepable) :
    ∃ listed shown, ShownByTable c listed shown := by
  have hlisting := listing_mergeSort c.stored
  have happart := (h.apart hk).perm hlisting.perm
  refine ⟨_, _, h.list_null, hlisting, ⟨_, Tables.seed_empty happart,
    Store.listTemplates_ofTemplates happart.keepable⟩, isListingBy_mergeSort _ _,
    mergeSort_eq_self_iff_rankBy _, fun hspelled => ?_⟩
  have hrank : ∀ t ∈ c.stored, rankBy Tables.foldName t = rank t := fun t ht => by
    rw [rankBy, rank, hspelled t ht]
  refine (mergeSort_eq_self_iff_rankBy _).2 (hlisting.ordered.imp_of_mem fun ht hu hle => ?_)
  rwa [hrank _ (hlisting.perm.mem_iff.1 ht), hrank _ (hlisting.perm.mem_iff.1 hu)]

/-- Whatever has been registered and removed, a table that is seeded with what the catalog lists
shows the same templates, each once, recommended first and then by name with the letters A to Z
in lower case, those of one rank as the catalog lists them.  This is the order of the catalog just
if the catalog's list is in order by that rank, as it is if the two spell all names alike. -/
theorem shown_by_table (changes : List Change) (h : ∀ t, .register t ∈ changes → t.Typed) :
    ∃ c, changes.foldlM perform empty = .ok c ∧
      ((∀ t ∈ c.stored, t.Keepable) → ∃ listed shown, ShownByTable c listed shown) := by
  obtain ⟨c, hc, hs⟩ := InStep.empty.exists_after h
  exact ⟨c, hc, hs.shownByTable⟩

/-! ## Two names in French -/

def etude : Template :=
  { Template.leadNurture with
    id := Uuid.ofNat 1, slug := .text "etude", name := .text "Étude", recommended := false }

def ecole : Template :=
  { Template.leadNurture with
    id := Uuid.ofNat 2, slug := .text "ecole", name := .text "école", recommended := false }

theorem apart_french : Template.Apart [etude, ecole] where
  keepable := by
    have hkeepable :=
      Template.distinct_builtin.apart.keepable Template.leadNurture (by decide +kernel)
    have hother (id : Uuid) (slug name : String) (recommended : Bool) :
        { Template.leadNurture with
          id := id, slug := .text slug, name := .text name, recommended := recommended }.Keepable :=
      { hkeepable with slug := ⟨slug, rfl⟩, name := ⟨name, rfl⟩ }
    intro t ht
    rcases List.mem_cons.1 ht with rfl | ht
    · exact hother _ _ _ _
    · rw [List.mem_singleton.1 ht]
      exact hother _ _ _ _
  ids := by decide +kernel
  slugs := by decide +kernel

theorem before_french :
    before (fun name => Text.lowercase name.bare) etude ecole = false ∧
      before Tables.foldName ecole etude = false := by
  decide +kernel

theorem shown_by_table_french :
    (∀ t, Change.register t ∈ [.register etude, .register ecole] → t.Typed) ∧
    ∃ c, [.register etude, .register ecole].foldlM perform empty = .ok c ∧
      (∀ t ∈ c.stored, t.Keepable) ∧ ∃ listed shown, ShownByTable c listed shown := by
  have htyped : ∀ t, Change.register t ∈ [.register etude, .register ecole] → t.Typed := by
    intro t ht
    simp only [List.mem_cons, List.not_mem_nil, or_false, Change.register.injEq] at ht
    rcases ht with rfl | rfl
    all_goals exact ⟨⟨_, rfl⟩, ⟨_, rfl⟩⟩
  obtain ⟨c, hc, hshown⟩ := shown_by_table [.register etude, .register ecole] htyped
  obtain rfl := Except.ok.inj (hc.symm.trans (rfl : _ = Except.ok (holding [etude, ecole])))
  exact ⟨htyped, _, hc, apart_french.keepable, hshown apart_french.keepable⟩

/-- The catalog knows the capital É and lists école before Étude, the table lists it after. -/
theorem order_differs :
    (holding [etude, ecole]).list .null = .ok [ecole, etude] ∧
    ∃ tables, Tables.empty.seed [ecole, etude] = .ok tables ∧
      tables.listTemplates = .ok [etude, ecole] := by
  have happart : Template.Apart [ecole, etude] := apart_french.perm (List.Perm.swap _ _ _)
  refine ⟨?_, _, Tables.seed_empty happart, ?_⟩
  · rw [list_holding fun t ht => (apart_french.keepable t ht).name]
    simp [List.mergeSort, before_french.1]
  · refine (Store.listTemplates_ofTemplates happart.keepable).trans (congrArg Except.ok ?_)
    simp [List.mergeSort, before_french.2]

end Workflow.Catalog
