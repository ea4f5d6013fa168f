/-!
# Sorting in a stable way

Sorting a list puts its first element between what must stand before it and all else,
and leaves the order of the others as it is.

    what may stand at the end stands there                      (mergeSort_snoc)
    choosing and sorting can be done in either order            (filter_mergeSort)
    elements that may stand in either order stay as they are    (filter_mergeSort_of_tied)
    nothing is moved ↔ the list is in order                     (mergeSort_eq_self_iff)
-/

namespace Workflow

variable {α : Type} {le : α → α → Bool}

/-- What is split into a part below an element and a part from it on is split in one way. -/
theorem append_inj_of_le {a : α} {l₁ l₂ m₁ m₂ : List α} (h : l₁ ++ l₂ = m₁ ++ m₂)
    (hl₁ : ∀ b ∈ l₁, le a b = false) (hl₂ : ∀ b ∈ l₂, le a b = true)
    (hm₁ : ∀ b ∈ m₁, le a b = false) (hm₂ : ∀ b ∈ m₂, le a b = true) : l₁ = m₁ ∧ l₂ = m₂ := by
  have hfilter {k₁ k₂ : List α} (h₁ : ∀ b ∈ k₁, le a b = false) (h₂ : ∀ b ∈ k₂, le a b = true) :
      (k₁ ++ k₂).filter (le a) = k₂ := by
    have hnone : k₁.filter (le a) = [] := List.filter_eq_nil_iff.2 fun b hb => by simp [h₁ b hb]
    rw [List.filter_append, hnone, List.filter_eq_self.2 h₂, List.nil_append]
  have hl : l₂ = m₂ := by
    rw [← hfilter hl₁ hl₂, h, hfilter hm₁ hm₂]
  rw [hl] at h
  exact ⟨List.append_cancel_right h, hl⟩

/-- What is put between two parts of a list is related to both. -/
theorem pairwise_insert {R : α → α → Prop} {a : α} {l₁ l₂ : List α} (h : (l₁ ++ l₂).Pairwise R)
    (h₁ : ∀ b ∈ l₁, R b a) (h₂ : ∀ b ∈ l₂, R a b) : (l₁ ++ a :: l₂).Pairwise R := by
  obtain ⟨hl₁, hl₂, hbetween⟩ := List.pairwise_append.1 h
  refine List.pairwise_append.2 ⟨hl₁, List.pairwise_cons.2 ⟨h₂, hl₂⟩, fun b hb c hc => ?_⟩
  rcases List.mem_cons.1 hc with rfl | hc
  · exact h₁ b hb
  · exact hbetween b hb c hc

section

variable (trans : ∀ a b c, le a b = true → le b c = true → le a c = true)
  (total : ∀ a b, (le a b || le b a) = true)

include trans total

/-- The first element is put where the sorted rest is split by it. -/
theorem mergeSort_cons_split (a : α) (l : List α) :
    ∃ l₁ l₂, (a :: l).mergeSort le = l₁ ++ a :: l₂ ∧ l.mergeSort le = l₁ ++ l₂ ∧
      (∀ b ∈ l₁, le a b = false) ∧ ∀ b ∈ l₂, le a b = true := by
  obtain ⟨l₁, l₂, hl, hrest, hlow⟩ := List.mergeSort_cons trans total a l
  have hsorted : (l₁ ++ a :: l₂).Pairwise fun a b => le a b = true :=
    hl ▸ List.pairwise_mergeSort trans total (a :: l)
  refine ⟨l₁, l₂, hl, hrest, ?_, ?_⟩
  · intro b hb
    simpa using hlow b hb
  · exact (List.pairwise_cons.1 (List.pairwise_append.1 hsorted).2.1).1

/-- What is nowhere before another element and comes last is sorted to the end. -/
theorem mergeSort_snoc {l : List α} {e : α} (h : ∀ a ∈ l, le a e = true) :
    (l ++ [e]).mergeSort le = l.mergeSort le ++ [e] := by
  induction l with
  | nil => simp
  | cons a rest ih =>
    obtain ⟨l₁, l₂, hl, hlrest, hllow, hlhigh⟩ := mergeSort_cons_split trans total a (rest ++ [e])
    obtain ⟨m₁, m₂, hm, hmrest, hmlow, hmhigh⟩ := mergeSort_cons_split trans total a rest
    have hjoin : l₁ ++ l₂ = m₁ ++ (m₂ ++ [e]) := by
      rw [← hlrest, ih fun b hb => h b (List.mem_cons_of_mem a hb), hmrest, List.append_assoc]
    obtain ⟨rfl, rfl⟩ := append_inj_of_le (a := a) hjoin hllow hlhigh hmlow (by
      intro b hb
      rcases List.mem_append.1 hb with hb | hb
      · exact hmhigh b hb
      · rw [List.mem_singleton.1 hb]
        exact h a List.mem_cons_self)
    rw [List.cons_append, hl, hm]
    simp

/-- What is chosen of a sorted list is what is chosen of the list, sorted. -/
theorem filter_mergeSort (p : α → Bool) (l : List α) :
    (l.mergeSort le).filter p = (l.filter p).mergeSort le := by
  induction l with
  | nil => simp
  | cons a rest ih =>
    obtain ⟨l₁, l₂, hl, hlrest, hllow, hlhigh⟩ := mergeSort_cons_split trans total a rest
    rw [hlrest, List.filter_append] at ih
    rw [hl, List.filter_append]
    by_cases hp : p a = true
    · obtain ⟨m₁, m₂, hm, hmrest, hmlow, hmhigh⟩ :=
        mergeSort_cons_split trans total a (rest.filter p)
      obtain ⟨hlow, hhigh⟩ := append_inj_of_le (a := a) (ih.trans hmrest)
        (fun b hb => hllow b (List.mem_filter.1 hb).1)
        (fun b hb => hlhigh b (List.mem_filter.1 hb).1) hmlow hmhigh
      rw [List.filter_cons_of_pos hp, List.filter_cons_of_pos hp, hm, hlow, hhigh]
    · rw [List.filter_cons_of_neg hp, List.filter_cons_of_neg hp, ih]

/-- What may stand in either order stays in the order in which it is. -/
theorem filter_mergeSort_of_tied {p : α → Bool}
    (h : ∀ a b, p a = true → p b = true → le a b = true) (l : List α) :
    (l.mergeSort le).filter p = l.filter p := by
  rw [filter_mergeSort trans total]
  refine List.mergeSort_of_pairwise (List.pairwise_of_forall_mem_list fun a ha b hb => ?_)
  exact h a b (List.mem_filter.1 ha).2 (List.mem_filter.1 hb).2

theorem mergeSort_eq_self_iff {l : List α} :
    l.mergeSort le = l ↔ l.Pairwise fun a b => le a b = true := by
  constructor
  · intro h
    rw [← h]
    exact List.pairwise_mergeSort trans total l
  · exact List.mergeSort_of_pairwise

end

end Workflow
