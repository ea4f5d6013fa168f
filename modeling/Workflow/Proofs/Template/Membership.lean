import Workflow.Proofs.Template.Registry

/-!
# Membership and lookup in a catalog

A key is looked up as an identifier or a slug, and a text that is no slug as the text of
an identifier.  Removing takes the template out that looking up finds.  Membership knows
identifiers and slugs only: a text by which a template is found as the text of its
identifier is no member.

    found ↔ removed                                             (get_eq_ok_iff_removes)
    a member ↔ found, and not by the text of an identifier      (contains_iff)
    after any changes                                           (membership_decided)
-/

namespace Workflow.Catalog

variable {c : Catalog} {t : Template} {key : TemplateKey}

theorem get_eq_ok_iff : c.get key = .ok t ↔ c.find? key = some t := by
  unfold get
  cases c.find? key <;> simp

/-! ## Removing -/

/-- The key takes a template out of the catalog, and nothing else. -/
def Removes (c : Catalog) (key : TemplateKey) (t : Template) : Prop :=
  t ∈ c.stored ∧
    ∃ c', c.unregister key = .ok c' ∧ c'.stored = c.stored.filter fun u => u ≠ t

theorem InStep.stored_without (h : c.InStep) (ht : t ∈ c.stored) :
    (c.without t).stored = c.stored.filter fun u => u ≠ t := by
  refine (h.filed.values_drop t.id).trans (List.filter_congr fun u hu => ?_)
  rw [decide_eq_decide, not_iff_not]
  constructor
  · exact h.eq_of_id ht hu
  · exact congrArg Template.id

theorem InStep.get_eq_ok_iff_removes (h : c.InStep) : c.get key = .ok t ↔ c.Removes key t := by
  rw [get_eq_ok_iff]
  constructor
  · intro hf
    have ht : t ∈ c.stored := h.mem_of_find? hf
    exact ⟨ht, _, h.unregister_of_some hf, h.stored_without ht⟩
  · rintro ⟨ht, c', hc, hs⟩
    -- What is left lacks `t` alone, so it cannot be another template that was found.
    have hgone : t ∉ c'.stored := by
      rw [hs]
      simp
    cases hf : c.find? key with
    | none =>
      obtain rfl := Except.ok.inj ((unregister_of_none hf).symm.trans hc)
      exact absurd ht hgone
    | some u =>
      obtain rfl := Except.ok.inj ((h.unregister_of_some hf).symm.trans hc)
      rw [h.stored_without (h.mem_of_find? hf), List.mem_filter, decide_eq_true_eq] at hgone
      by_cases hu : t = u
      · rw [hu]
      · exact absurd ⟨ht, hu⟩ hgone

/-! ## Membership -/

/-- A text that no template has as its slug, but that writes the identifier of one. -/
def WritesId (c : Catalog) (key : TemplateKey) : Prop :=
  ∃ s, key = .text s ∧ (∀ t ∈ c.stored, t.slug ≠ .text s) ∧
    ∃ t ∈ c.stored, Uuid.ofText s = .ok t.id

theorem InStep.find?_slug_eq_none_iff (h : c.InStep) {slug : Value} :
    Assoc.find? slug c.slugs = none ↔ ∀ t ∈ c.stored, t.slug ≠ slug := by
  rw [Assoc.find?_eq_none_iff, h.slugs_perm.mem_iff, List.mem_map]
  simp

theorem InStep.contains_iff (h : c.InStep) :
    c.contains key = true ↔ (∃ t, c.get key = .ok t) ∧ ¬ c.WritesId key := by
  simp only [get_eq_ok_iff]
  cases key with
  | id id => simp [contains, Assoc.contains, Option.isSome_iff_exists, find?, resolve, WritesId]
  | text s =>
    show (Assoc.find? (Value.text s) c.slugs).isSome = true ↔ _
    cases hs : Assoc.find? (Value.text s) c.slugs with
    | some id =>
      obtain ⟨t, ht, hslug⟩ := (h.slug_iff _ _).1 hs
      refine iff_of_true rfl ⟨⟨t, by simp [find?, resolve, hs, ht]⟩, ?_⟩
      rintro ⟨s', hkey, hnone, -⟩
      obtain rfl := TemplateKey.text.inj hkey
      exact hnone t (h.mem_stored_of_find? ht).1 hslug
    | none =>
      -- The text is no slug, so what is found by it has it as the text of its identifier.
      refine iff_of_false (by simp) ?_
      rintro ⟨⟨t, hf⟩, hwrites⟩
      refine hwrites ⟨s, rfl, h.find?_slug_eq_none_iff.1 hs, t, h.mem_of_find? hf, ?_⟩
      obtain ⟨id, hr, hid⟩ := Option.bind_eq_some_iff.1 hf
      obtain rfl := (h.mem_stored_of_find? hid).2
      unfold resolve at hr
      dsimp only at hr
      rw [hs] at hr
      dsimp only at hr
      cases hread : Uuid.ofText s with
      | error fault =>
        rw [hread] at hr
        cases hr
      | ok id =>
        rw [hread] at hr
        rw [Option.some.inj hr]

/-! ## Main result -/

/-- After any changes a key that finds a template is one that removes it, and any other key
removes nothing; and the members are the keys that find a template in another way than by
the text of its identifier. -/
theorem membership_decided (changes : List Change) (h : ∀ t, .register t ∈ changes → t.Typed) :
    ∃ c, changes.foldlM perform empty = .ok c ∧ ∀ key,
      (c.contains key = true ↔ (∃ t, c.get key = .ok t) ∧ ¬ c.WritesId key) ∧
      (∀ t, c.get key = .ok t ↔ c.Removes key t) ∧
      ((∀ t, c.get key ≠ .ok t) → c.unregister key = .ok c) := by
  obtain ⟨c, hc, hs⟩ := InStep.empty.exists_after h
  refine ⟨c, hc, fun key => ⟨hs.contains_iff, fun t => hs.get_eq_ok_iff_removes, ?_⟩⟩
  intro hnone
  refine unregister_of_none (Option.eq_none_iff_forall_ne_some.2 fun t hf => ?_)
  exact hnone t (get_eq_ok_iff.2 hf)

/-- The invoice template under a slug that writes the identifier of the lead template. -/
def borrowingInvoice : Template :=
  { Template.invoiceReminders with slug := .text "54d22b6f-772d-5270-86b1-488658d7631b" }

def borrowedId : List Change := [.register Template.leadNurture, .register borrowingInvoice]

theorem membership_decided_borrowedId :
    (∀ t, .register t ∈ borrowedId → t.Typed) ∧
    (∃ c, borrowedId.foldlM perform empty = .ok c ∧ ∀ key,
      (c.contains key = true ↔ (∃ t, c.get key = .ok t) ∧ ¬ c.WritesId key) ∧
      (∀ t, c.get key = .ok t ↔ c.Removes key t) ∧
      ((∀ t, c.get key ≠ .ok t) → c.unregister key = .ok c)) ∧
    ∃ c, borrowedId.foldlM perform empty = .ok c ∧
      c.contains (.text Template.leadNurture.id.text) = true ∧
      c.get (.text Template.leadNurture.id.text) = .ok borrowingInvoice := by
  have htyped : ∀ t, .register t ∈ borrowedId → t.Typed := by
    intro t ht
    simp only [borrowedId, List.mem_cons, List.not_mem_nil, or_false, Change.register.injEq] at ht
    rcases ht with rfl | rfl
    all_goals exact ⟨⟨_, rfl⟩, ⟨_, rfl⟩⟩
  refine ⟨htyped, membership_decided borrowedId htyped,
    ⟨[(Template.leadNurture.id, Template.leadNurture),
        (Template.invoiceReminders.id, borrowingInvoice)],
      [(Template.leadNurture.slug, Template.leadNurture.id),
        (borrowingInvoice.slug, Template.invoiceReminders.id)]⟩, ?_, ?_, ?_⟩
  all_goals decide +kernel

/-- A template is found, and removed, by the text of its identifier, which is no member. -/
theorem found_yet_no_member :
    ∃ c, [Change.register Template.leadNurture].foldlM perform empty = .ok c ∧
      c.get (.text "54d22b6f-772d-5270-86b1-488658d7631b") = .ok Template.leadNurture ∧
      c.unregister (.text "54d22b6f-772d-5270-86b1-488658d7631b") = .ok empty ∧
      c.contains (.text "54d22b6f-772d-5270-86b1-488658d7631b") = false := by
  refine ⟨⟨[(Template.leadNurture.id, Template.leadNurture)],
    [(Template.leadNurture.slug, Template.leadNurture.id)]⟩, ?_, ?_, ?_, ?_⟩
  all_goals decide +kernel

end Workflow.Catalog
