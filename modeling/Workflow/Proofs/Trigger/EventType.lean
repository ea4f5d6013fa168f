import Mathlib.Data.List.TakeWhile
import Workflow.Trigger

/-!
# Event types

An event type names an entity and what has happened to it, with a point between
them.  The rules accept the events of the known entities, and each of them also with
a line end behind it, at which they do not look.

    t.violations = [] ↔ t is an event, or an event and a line end       (event_accepted_iff)
-/

namespace Workflow.Trigger

/-! ## Grammar -/

/-- A small letter, and then small letters and underscores. -/
def IsVerb (s : String) : Prop :=
  ∃ c rest, s.toList = c :: rest ∧ ('a' ≤ c ∧ c ≤ 'z') ∧
    ∀ d ∈ rest, ('a' ≤ d ∧ d ≤ 'z') ∨ d = '_'

/-- A known entity, a point and a verb, and nothing else. -/
def IsEvent (s : String) : Prop := ∃ e ∈ knownEntities, ∃ v, IsVerb v ∧ s = e ++ "." ++ v

/-! ## Words -/

variable {c : Char} {cs : List Char}

theorem isLetter_iff : isLetter c = true ↔ 'a' ≤ c ∧ c ≤ 'z' := by
  simp [isLetter]

theorem isWord_iff (s : String) : isWord s.toList = true ↔ IsVerb s := by
  unfold IsVerb
  cases hs : s.toList with
  | nil => simp [isWord]
  | cons c rest =>
    simp only [isWord, isLetter_iff, Bool.and_eq_true, List.all_eq_true, Bool.or_eq_true,
      decide_eq_true_eq]
    constructor
    · rintro ⟨hc, hrest⟩
      exact ⟨c, rest, rfl, hc, hrest⟩
    · rintro ⟨d, ds, hd, hc, hrest⟩
      obtain ⟨rfl, rfl⟩ := List.cons.inj hd
      exact ⟨hc, hrest⟩

theorem isWord_of_known {e : String} (h : e ∈ knownEntities) : isWord e.toList = true := by
  revert e
  decide

theorem isLetter_of_mem_word (h : isWord cs = true) (hc : c ∈ cs) :
    isLetter c = true ∨ c = '_' := by
  cases cs with
  | nil => simp at hc
  | cons d rest =>
    simp only [isWord, Bool.and_eq_true, List.all_eq_true, Bool.or_eq_true,
      decide_eq_true_eq] at h
    rcases List.mem_cons.1 hc with rfl | hrest
    · exact Or.inl h.1
    · exact h.2 c hrest

/-- Neither the point nor the line end is a character of a word. -/
theorem not_mem_word (h : isWord cs = true) : '.' ∉ cs ∧ '\n' ∉ cs := by
  constructor
  · intro hc
    have hletter := isLetter_of_mem_word h hc
    revert hletter
    decide
  · intro hc
    have hletter := isLetter_of_mem_word h hc
    revert hletter
    decide

theorem isBlankChar_of_isLetter (h : isLetter c = true) : Text.isBlankChar c = false := by
  obtain ⟨h₁, h₂⟩ := isLetter_iff.1 h
  have h₁ : 97 ≤ c.toNat := UInt32.le_iff_toNat_le.1 h₁
  have h₂ : c.toNat ≤ 122 := UInt32.le_iff_toNat_le.1 h₂
  unfold Text.isBlankChar Text.within Text.blankRanges
  simp only [List.any_cons, List.any_nil, Bool.or_eq_false_iff, Bool.and_eq_false_iff,
    decide_eq_false_iff_not, Bool.or_false]
  omega

/-! ## The parts of an event type -/

variable {e v : List Char}

theorem entityOf_append (h : '.' ∉ e) (v : List Char) : entityOf (e ++ '.' :: v) = e := by
  unfold entityOf
  rw [List.takeWhile_append_of_pos]
  · simp
  · intro d hd
    have hne : d ≠ '.' := fun hdot => h (hdot ▸ hd)
    simpa using hne

theorem verbOf_append (h : '.' ∉ e) (v : List Char) : verbOf (e ++ '.' :: v) = v := by
  unfold verbOf
  rw [List.dropWhile_append_of_pos]
  · simp
  · intro d hd
    have hne : d ≠ '.' := fun hdot => h (hdot ▸ hd)
    simpa using hne

/-- Where a verb is found there is a point before it. -/
theorem eq_entityOf_append (h : verbOf cs ≠ []) : cs = entityOf cs ++ '.' :: verbOf cs := by
  have hsplit := List.takeWhile_append_dropWhile (p := (· ≠ '.')) (l := cs)
  cases hd : cs.dropWhile (· ≠ '.') with
  | nil =>
    unfold verbOf at h
    rw [hd] at h
    exact absurd rfl h
  | cons d rest =>
    have hdot : d = '.' := by
      have hhead := List.head?_dropWhile_not (· ≠ '.') cs
      rw [hd] at hhead
      simpa using hhead
    rw [hd, hdot] at hsplit
    unfold entityOf verbOf
    rw [hd]
    exact hsplit.symm

/-- A line end is all that may be left out. -/
theorem dropLineEnd_eq (h : dropLineEnd cs = v) : cs = v ∨ cs = v ++ ['\n'] := by
  unfold dropLineEnd at h
  by_cases hl : cs.getLast? = some '\n'
  · right
    rw [if_pos hl] at h
    obtain ⟨before, rfl⟩ := List.getLast?_eq_some_iff.1 hl
    simpa using h
  · left
    rw [if_neg hl] at h
    exact h

theorem dropLineEnd_of_not_mem (h : '\n' ∉ cs) : dropLineEnd cs = cs := by
  unfold dropLineEnd
  rw [if_neg]
  intro hl
  exact h (List.mem_of_getLast? hl)

theorem dropLineEnd_append (cs : List Char) : dropLineEnd (cs ++ ['\n']) = cs := by
  simp [dropLineEnd]

theorem looksLikeEvent_iff (s : String) : looksLikeEvent s = true ↔
    ∃ e v, isWord e = true ∧ isWord v = true ∧ dropLineEnd s.toList = e ++ '.' :: v := by
  unfold looksLikeEvent
  simp only [Bool.and_eq_true]
  constructor
  · rintro ⟨he, hv⟩
    have hne : verbOf (dropLineEnd s.toList) ≠ [] := by
      intro hnil
      rw [hnil] at hv
      simp [isWord] at hv
    exact ⟨_, _, he, hv, eq_entityOf_append hne⟩
  · rintro ⟨e, v, he, hv, hs⟩
    have hdot := (not_mem_word he).1
    rw [hs, entityOf_append hdot, verbOf_append hdot]
    exact ⟨he, hv⟩

/-- The text consists of both parts with a point between them, and maybe a line end. -/
def Reads (s : String) (e v : List Char) : Prop :=
  s.toList = e ++ '.' :: v ∨ s.toList = (e ++ '.' :: v) ++ ['\n']

theorem looksLikeEvent_iff_reads (s : String) : looksLikeEvent s = true ↔
    ∃ e v, isWord e = true ∧ isWord v = true ∧ Reads s e v := by
  rw [looksLikeEvent_iff]
  constructor
  · rintro ⟨e, v, he, hv, hs⟩
    exact ⟨e, v, he, hv, dropLineEnd_eq hs⟩
  · rintro ⟨e, v, he, hv, hs⟩
    refine ⟨e, v, he, hv, ?_⟩
    rcases hs with hs | hs
    · rw [hs]
      apply dropLineEnd_of_not_mem
      simp [(not_mem_word he).2, (not_mem_word hv).2]
    · rw [hs, dropLineEnd_append]

namespace Reads

variable {s : String}

theorem entityOf_eq (hs : Reads s e v) (h : isWord e = true) : entityOf s.toList = e := by
  have hdot := (not_mem_word h).1
  rcases hs with hs | hs
  · rw [hs, entityOf_append hdot]
  · rw [hs, List.append_assoc, List.cons_append, entityOf_append hdot]

/-- It starts with a letter. -/
theorem isBlank_eq_false (hs : Reads s e v) (h : isWord e = true) : Text.isBlank s = false := by
  cases e with
  | nil => simp [isWord] at h
  | cons c rest =>
    have hletter : isLetter c = true := by
      rw [isWord, Bool.and_eq_true] at h
      exact h.1
    have hmem : c ∈ s.toList := by
      rcases hs with hs | hs
      · simp [hs]
      · simp [hs]
    cases hb : Text.isBlank s with
    | false => rfl
    | true =>
      have hblank := (Text.isBlank_iff s).1 hb c hmem
      rw [isBlankChar_of_isLetter hletter] at hblank
      cases hblank

end Reads

theorem toList_event (e v : String) : (e ++ "." ++ v).toList = e.toList ++ '.' :: v.toList := by
  simp

/-- The events of the known entities, with or without a line end. -/
theorem exists_reads_iff (s : String) :
    (∃ e v, isWord v = true ∧ String.ofList e ∈ knownEntities ∧ Reads s e v) ↔
      IsEvent s ∨ ∃ t, IsEvent t ∧ s = t ++ "\n" := by
  constructor
  · rintro ⟨e, v, hv, he, hs⟩
    have hevent : IsEvent (String.ofList e ++ "." ++ String.ofList v) := by
      refine ⟨_, he, _, ?_, rfl⟩
      rw [← isWord_iff, String.toList_ofList]
      exact hv
    rcases hs with hs | hs
    · left
      have hsame : s = String.ofList e ++ "." ++ String.ofList v := by
        apply String.toList_inj.1
        rw [toList_event, hs, String.toList_ofList, String.toList_ofList]
      exact hsame ▸ hevent
    · right
      refine ⟨_, hevent, ?_⟩
      apply String.toList_inj.1
      rw [String.toList_append, toList_event, hs, String.toList_ofList, String.toList_ofList]
      rfl
  · rintro (⟨e, he, v, hv, rfl⟩ | ⟨t, ⟨e, he, v, hv, rfl⟩, rfl⟩)
    · refine ⟨e.toList, v.toList, (isWord_iff v).2 hv, ?_, Or.inl (toList_event e v)⟩
      rwa [String.ofList_toList]
    · refine ⟨e.toList, v.toList, (isWord_iff v).2 hv, ?_, Or.inr ?_⟩
      · rwa [String.ofList_toList]
      · rw [String.toList_append, toList_event]
        rfl

/-! ## Theorem -/

theorem eventViolations_eq_nil_iff (s : String) : eventViolations s = [] ↔
    Text.isBlank s = false ∧ looksLikeEvent s = true ∧
      String.ofList (entityOf s.toList) ∈ knownEntities := by
  unfold eventViolations
  by_cases hb : Text.isBlank s = true
  · simp [hb]
  · by_cases hl : looksLikeEvent s = true
    · by_cases hk : String.ofList (entityOf s.toList) ∈ knownEntities
      · simp [hb, hl, hk]
      · simp [hb, hl, hk]
    · simp [hb, hl]

/-- The event types that are accepted are the events of the known entities, and each of them
with a line end. -/
theorem event_accepted_iff (s : String) : (event s).violations = [] ↔
    IsEvent s ∨ ∃ t, IsEvent t ∧ s = t ++ "\n" := by
  rw [show (event s).violations = eventViolations s from rfl, eventViolations_eq_nil_iff,
    ← exists_reads_iff]
  constructor
  · rintro ⟨-, hlooks, hknown⟩
    obtain ⟨e, v, he, hv, hs⟩ := (looksLikeEvent_iff_reads s).1 hlooks
    rw [hs.entityOf_eq he] at hknown
    exact ⟨e, v, hv, hknown, hs⟩
  · rintro ⟨e, v, hv, hknown, hs⟩
    have he : isWord e = true := by
      have hword := isWord_of_known hknown
      rwa [String.toList_ofList] at hword
    refine ⟨hs.isBlank_eq_false he, (looksLikeEvent_iff_reads s).2 ⟨e, v, he, hv, hs⟩, ?_⟩
    rw [hs.entityOf_eq he]
    exact hknown

/-- What is accepted need not be an event: here a line end follows one. -/
theorem lineEnd_accepted :
    (event "deal.created\n").violations = [] ∧ ¬ IsEvent "deal.created\n" := by
  constructor
  · decide +kernel
  · rintro ⟨e, he, v, hv, hs⟩
    have hend : '\n' ∈ e.toList ++ '.' :: v.toList := by
      have hmem : '\n' ∈ (e ++ "." ++ v).toList := by
        rw [← hs]
        decide
      simpa using hmem
    rcases List.mem_append.1 hend with hmem | hmem
    · exact (not_mem_word (isWord_of_known he)).2 hmem
    · have hverb : '\n' ∈ v.toList := by simpa using hmem
      exact (not_mem_word ((isWord_iff v).2 hv)).2 hverb

end Workflow.Trigger
