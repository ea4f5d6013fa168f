import Mathlib.Data.List.Induction
import Mathlib.Data.List.TakeWhile
import Mathlib.Data.Nat.Digits.Defs
import Workflow.Text.Blank
import Workflow.Text.DecimalDigit

/-!
# Runs of characters

White space, decimal digits and ASCII letters are kinds of characters of which no
character is of two.  A run of one kind ends where a character of another kind follows,
so a text that is made of such runs is so in one way; white space on both sides of what
is none is what is taken off; and a run of digits is a number to the base ten.

    r, r' apart → within r c → c is not within r'        (within_eq_false_of_apart)
    l ++ r = l' ++ r' → l = l' ∧ r = r', l and l' being runs that end there  (run_append_inj)
-/

namespace Workflow.Text

/-! ## Kinds -/

variable {c : Char} {cs : List Char}

/-- The ASCII letters. -/
def letterRanges : List (Nat × Nat) := [(0x41, 0x5A), (0x61, 0x7A)]

/-- A character of some ranges is in none of others that lie apart from them. -/
theorem within_eq_false_of_apart {r r' : List (Nat × Nat)}
    (h : ∀ a ∈ r, ∀ b ∈ r', a.2 < b.1 ∨ b.2 < a.1) (hc : within r c = true) :
    within r' c = false := by
  obtain ⟨a, ha, hac⟩ := List.any_eq_true.1 hc
  refine List.any_eq_false.2 fun b hb hbc => ?_
  simp only [Bool.and_eq_true, decide_eq_true_eq] at hac hbc
  have := h a ha b hb
  omega

theorem isDecimal_eq_within (c : Char) : isDecimal c = within decimalRanges c := by
  unfold isDecimal digitValue? within
  rw [Option.isSome_map]
  exact List.isSome_find?

theorem isAlpha_eq_within (c : Char) : c.isAlpha = within letterRanges c := by
  unfold Char.isAlpha Char.isUpper Char.isLower within letterRanges
  rw [Bool.eq_iff_iff]
  simp [UInt32.le_iff_toNat_le, ← Char.toNat_val]

theorem isDecimal_of_isBlankChar (h : isBlankChar c = true) : isDecimal c = false := by
  rw [isDecimal_eq_within]
  exact within_eq_false_of_apart (by decide) h

theorem isBlankChar_of_isDecimal (h : isDecimal c = true) : isBlankChar c = false := by
  rw [isDecimal_eq_within] at h
  exact within_eq_false_of_apart (by decide) h

theorem isDecimal_of_isAlpha (h : c.isAlpha = true) : isDecimal c = false := by
  rw [isAlpha_eq_within] at h
  rw [isDecimal_eq_within]
  exact within_eq_false_of_apart (by decide) h

theorem isBlankChar_of_isAlpha (h : c.isAlpha = true) : isBlankChar c = false := by
  rw [isAlpha_eq_within] at h
  exact within_eq_false_of_apart (by decide) h

theorem isAlpha_of_isBlankChar (h : isBlankChar c = true) : c.isAlpha = false := by
  rw [isAlpha_eq_within]
  exact within_eq_false_of_apart (by decide) h

/-! ## Runs -/

section

variable {α : Type} {p : α → Bool} {l l' r r' : List α}

theorem mem_of_head?_append {a : α} (hl : l ≠ []) (ha : a ∈ (l ++ r).head?) : a ∈ l := by
  cases l with
  | nil => exact absurd rfl hl
  | cons b rest =>
    cases ha
    exact List.mem_cons_self

theorem mem_of_getLast?_append {a : α} (hr : r ≠ []) (ha : a ∈ (l ++ r).getLast?) : a ∈ r := by
  obtain ⟨b, hb⟩ := Option.isSome_iff_exists.1 (List.getLast?_isSome.2 hr)
  rw [List.getLast?_append, hb, Option.some_or] at ha
  cases ha
  exact List.mem_of_getLast? hb

theorem takeWhile_append_of_head (h : ∀ a ∈ l, p a = true) (hr : ∀ a ∈ r.head?, p a = false) :
    (l ++ r).takeWhile p = l := by
  rw [List.takeWhile_append_of_pos h]
  cases r with
  | nil => simp
  | cons a rest => simp [hr a rfl]

theorem dropWhile_append_of_head (h : ∀ a ∈ l, p a = true) (hr : ∀ a ∈ r.head?, p a = false) :
    (l ++ r).dropWhile p = r := by
  rw [List.dropWhile_append_of_pos h]
  cases r with
  | nil => rfl
  | cons a rest => rw [List.dropWhile_cons_of_neg (by simp [hr a rfl])]

/-- Where a run of one kind ends is told by what follows it. -/
theorem run_append_inj (h : ∀ a ∈ l, p a = true) (hr : ∀ a ∈ r.head?, p a = false)
    (h' : ∀ a ∈ l', p a = true) (hr' : ∀ a ∈ r'.head?, p a = false) (he : l ++ r = l' ++ r') :
    l = l' ∧ r = r' := by
  have hl : l = l' := by
    rw [← takeWhile_append_of_head h hr, he, takeWhile_append_of_head h' hr']
  subst hl
  exact ⟨rfl, List.append_cancel_left he⟩

end

/-- White space on both sides is taken off, up to what is none. -/
theorem stripChars_append {before mid after : List Char}
    (hb : ∀ c ∈ before, isBlankChar c = true) (hf : ∀ c ∈ mid.head?, isBlankChar c = false)
    (hl : ∀ c ∈ mid.getLast?, isBlankChar c = false) (hm : mid ≠ [])
    (ha : ∀ c ∈ after, isBlankChar c = true) : stripChars (before ++ (mid ++ after)) = mid := by
  have hfirst : ∀ c ∈ (mid ++ after).head?, isBlankChar c = false := by
    cases mid with
    | nil => exact absurd rfl hm
    | cons d rest => exact hf
  have hlast : ∀ c ∈ mid.reverse.head?, isBlankChar c = false := by
    rw [List.head?_reverse]
    exact hl
  unfold stripChars
  rw [dropWhile_append_of_head hb hfirst, List.reverse_append,
    dropWhile_append_of_head (fun c hc => ha c (List.mem_reverse.1 hc)) hlast, List.reverse_reverse]

/-- All that is taken off is white space. -/
theorem exists_stripChars (cs : List Char) : ∃ before after,
    cs = before ++ (stripChars cs ++ after) ∧ (∀ c ∈ before, isBlankChar c = true) ∧
      ∀ c ∈ after, isBlankChar c = true := by
  let rest := cs.dropWhile isBlankChar
  refine ⟨cs.takeWhile isBlankChar, (rest.reverse.takeWhile isBlankChar).reverse, ?_, ?_, ?_⟩
  · unfold stripChars
    rw [← List.reverse_append, List.takeWhile_append_dropWhile, List.reverse_reverse,
      List.takeWhile_append_dropWhile]
  · exact fun c hc => List.mem_takeWhile_imp hc
  · exact fun c hc => List.mem_takeWhile_imp (List.mem_reverse.1 hc)

/-! ## Numbers -/

theorem decimalValue_snoc (cs : List Char) (c : Char) :
    decimalValue (cs ++ [c]) = 10 * decimalValue cs + (digitValue? c).getD 0 := by
  unfold decimalValue
  rw [List.foldl_append]
  rfl

/-- The last digit is that of the ones. -/
theorem decimalValue_eq_ofDigits (cs : List Char) :
    decimalValue cs = Nat.ofDigits 10 (cs.reverse.map fun c => (digitValue? c).getD 0) := by
  induction cs using List.reverseRecOn with
  | nil => rfl
  | append_singleton cs c ih =>
    rw [decimalValue_snoc, List.reverse_append, List.reverse_singleton, List.singleton_append,
      List.map_cons, Nat.ofDigits_cons, ← ih]
    exact Nat.add_comm _ _

end Workflow.Text
