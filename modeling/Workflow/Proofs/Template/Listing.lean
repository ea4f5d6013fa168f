import Workflow.Proofs.Service.Fitting

/-!
# The order in which templates are listed

The catalog and the table of templates list what is recommended first, and then by
name regardless of case.  The catalog knows the capitals of every script and the
table the Latin ones only, so names in ASCII are listed in the same order by both.

    s in ASCII → lowercase s = s.map Char.toLower               (lowercase_of_ascii)
    names in ASCII → the same order in both                     (Portable.before_eq)
-/

namespace Workflow

/-! ## Names in ASCII -/

namespace Text

def isAscii (s : String) : Bool := s.toList.all fun c => c.toNat < 128

theorem lowerChar_of_ascii {c : Char} (hc : c.toNat < 128) : lowerChar c = c.toLower := by
  have h : ∀ n, n < 128 → lowerChar (Char.ofNat n) = (Char.ofNat n).toLower := by
    decide +kernel
  have hlower := h c.toNat hc
  rwa [Char.ofNat_toNat] at hlower

/-- The dotted I and the sigma, which have forms of their own, are not in ASCII. -/
theorem lowerFrom_of_ascii {cs : List Char} (hcs : ∀ c ∈ cs, c.toNat < 128)
    (before : List Char) : lowerFrom before cs = cs.map Char.toLower := by
  induction cs generalizing before with
  | nil => rfl
  | cons c rest ih =>
    have hc : c.toNat < 128 := hcs c List.mem_cons_self
    have hrest := ih (fun c' hc' => hcs c' (List.mem_cons_of_mem c hc')) (c :: before)
    rw [lowerFrom, if_neg (by omega), if_neg (by omega), hrest, lowerChar_of_ascii hc]
    rfl

theorem lowercase_of_ascii {s : String} (hs : isAscii s = true) :
    lowercase s = s.map Char.toLower := by
  have hcs : ∀ c ∈ s.toList, c.toNat < 128 := by
    intro c hc
    exact of_decide_eq_true (List.all_eq_true.1 hs c hc)
  apply String.toList_inj.1
  rw [String.toList_map]
  unfold lowercase
  rw [lowerFrom_of_ascii hcs, String.toList_ofList]

end Text

/-! ## Templates that are kept alike -/

/-- A template with texts where they are declared, whose graph can be written down and read
back. -/
structure Template.Keepable (t : Template) : Prop extends t.Storable where
  slug : t.slug.IsText
  name : t.name.IsText
  category : t.category.IsText
  ids_ne_empty : ∀ n ∈ t.graph.nodes, n.id.isEmpty = false

/-- A template with texts where they are declared and a name in ASCII, whose graph can be
written down and read back. -/
structure Template.Portable (t : Template) : Prop extends t.Storable where
  slug : t.slug.IsText
  name : ∃ s, t.name = .text s ∧ Text.isAscii s = true
  category : t.category.IsText
  ids_ne_empty : ∀ n ∈ t.graph.nodes, n.id.isEmpty = false

variable {t u : Template}

theorem Template.Portable.keepable (ht : t.Portable) : t.Keepable where
  toStorable := ht.toStorable
  slug := ht.slug
  name := ht.name.imp fun _ h => h.1
  category := ht.category
  ids_ne_empty := ht.ids_ne_empty

theorem Template.Keepable.readable (ht : t.Keepable) : t.graph.Readable :=
  ⟨ht.ids_ne_empty, ht.ids_nodup⟩

theorem Template.Portable.fold_eq (ht : t.Portable) :
    Text.lowercase t.name.bare = Store.Tables.foldName t.name := by
  obtain ⟨s, hs, hascii⟩ := ht.name
  rw [hs]
  exact Text.lowercase_of_ascii hascii

theorem Catalog.namesAreTexts_of_texts {ts : List Template} (h : ∀ t ∈ ts, t.name.IsText) :
    Catalog.namesAreTexts ts = true := by
  refine List.all_eq_true.2 fun t ht => ?_
  obtain ⟨s, hs⟩ := h t ht
  rw [hs]

/-! ## Order -/

namespace Catalog

variable (fold : Value → String)

variable {fold} in
theorem before_congr {fold' : Value → String} (ht : fold t.name = fold' t.name)
    (hu : fold u.name = fold' u.name) : before fold t u = before fold' t u := by
  unfold before
  rw [ht, hu]

theorem before_iff : before fold t u = true ↔
    (t.recommended = u.recommended ∧ fold t.name ≤ fold u.name) ∨
      (t.recommended = true ∧ u.recommended = false) := by
  unfold before
  by_cases hr : t.recommended = u.recommended
  · rw [if_pos hr, Bool.not_eq_true', decide_eq_false_iff_not, String.not_lt]
    constructor
    · intro hle
      exact Or.inl ⟨hr, hle⟩
    · rintro (⟨-, hle⟩ | ⟨ht, hu⟩)
      · exact hle
      · rw [ht, hu] at hr
        cases hr
  · rw [if_neg hr]
    cases ht : t.recommended <;> cases hu : u.recommended <;> simp_all

theorem before_trans (a b c : Template) (h : before fold a b = true)
    (h' : before fold b c = true) : before fold a c = true := by
  rw [before_iff] at *
  rcases h with ⟨hr, hle⟩ | ⟨ha, hb⟩
  · rcases h' with ⟨hr', hle'⟩ | ⟨hb, hc⟩
    · exact Or.inl ⟨hr.trans hr', String.le_trans hle hle'⟩
    · exact Or.inr ⟨hr.trans hb, hc⟩
  · rcases h' with ⟨hr', -⟩ | ⟨hb', -⟩
    · exact Or.inr ⟨ha, hr'.symm.trans hb⟩
    · rw [hb] at hb'
      cases hb'

theorem before_total (a b : Template) : (before fold a b || before fold b a) = true := by
  rw [Bool.or_eq_true, before_iff, before_iff]
  have hle := String.le_total (fold a.name) (fold b.name)
  cases ha : a.recommended with
  | true =>
    cases hb : b.recommended with
    | true => exact hle.imp (fun h => Or.inl ⟨rfl, h⟩) fun h => Or.inl ⟨rfl, h⟩
    | false => exact Or.inl (Or.inr ⟨rfl, rfl⟩)
  | false =>
    cases hb : b.recommended with
    | true => exact Or.inr (Or.inr ⟨rfl, rfl⟩)
    | false => exact hle.imp (fun h => Or.inl ⟨rfl, h⟩) fun h => Or.inl ⟨rfl, h⟩

end Catalog

/-! ## Rows -/

namespace Store.TemplateRow

/-- The row of a template that can be kept in the table. -/
def of (t : Template) : TemplateRow :=
  ⟨t.id, t.slug, t.name, t.description, t.category, t.recommended, t.trigger.toValue,
    t.graph.toValue []⟩

theorem ofTemplate_eq (ht : t.Keepable) : ofTemplate t.id t = .ok (of t) := by
  have hcheck : Column.checkStorable [] [t.trigger.toValue, t.graph.toValue []] = .ok () := by
    unfold Column.checkStorable
    simp [Trigger.isWritable_toValue, ht.graph]
  have hfilled : Column.checkFilled [t.slug, t.name, t.category] = .ok () := by
    unfold Column.checkFilled
    rw [if_neg]
    simp [ht.slug.ne_null.symm, ht.name.ne_null.symm, ht.category.ne_null.symm]
  unfold ofTemplate
  rw [hcheck, ht.slug.column, ht.name.column, ht.description.column, ht.category.column]
  show (Column.checkFilled [t.slug, t.name, t.category] >>= fun _ => _) = _
  rw [hfilled]
  rfl

theorem read_of (ht : t.Keepable) : (of t).read = .ok t := by
  unfold read of
  dsimp only
  rw [Trigger.ofValue_toValue, Graph.ofValue_toValue ht.readable, ht.description.orElse_empty]
  rfl

theorem rowBefore_of (t u : Template) :
    Tables.rowBefore (of t) (of u) = Catalog.before Tables.foldName t u := rfl

end Store.TemplateRow

/-- Rows are listed in the order in which the catalog lists the templates. -/
theorem Template.Portable.before_eq (ht : t.Portable) (hu : u.Portable) :
    Catalog.before Store.Tables.foldName t u
      = Catalog.before (fun name => Text.lowercase name.bare) t u :=
  Catalog.before_congr ht.fold_eq.symm hu.fold_eq.symm

end Workflow
