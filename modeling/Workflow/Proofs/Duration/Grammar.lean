import Workflow.Duration
import Workflow.Proofs.Assoc
import Workflow.Proofs.Text.Runs

/-!
# The grammar of labels

A label is a number and the word for a unit.  The digits are decimal digits of any
script, also of several, and the word is in ASCII letters, large or small; white space
may stand before, between and after them.  No character is of two of these kinds, so a
text can be taken apart in one way only.  Whatever else is given is refused.

    p and q spell s → p = q                                     (Spelling.Spells.unique)
    ofLabel? s = some n ↔ some p spells s, and n is what it says     (ofLabel?_eq_some_iff)
    what is read of a value, and what is refused                 (ofValue_iff_spelled)
-/

namespace Workflow.Duration

/-! ## Spellings -/

/-- The words for units, each with the milliseconds of its unit. -/
def unitWords : List (String × Nat) :=
  [("day", 24 * 60 * 60 * 1000), ("days", 24 * 60 * 60 * 1000), ("hour", 60 * 60 * 1000),
   ("hours", 60 * 60 * 1000), ("minute", 60 * 1000), ("minutes", 60 * 1000), ("second", 1000),
   ("seconds", 1000), ("ms", 1)]

/-- A label taken apart: white space, digits, white space, letters, white space. -/
@[ext] structure Spelling where
  before : List Char
  digits : List Char
  between : List Char
  letters : List Char
  after : List Char
  deriving DecidableEq, Repr

namespace Spelling

def chars (p : Spelling) : List Char :=
  p.before ++ p.digits ++ p.between ++ p.letters ++ p.after

/-- The number that the digits write, the last of them being that of the ones. -/
def number (p : Spelling) : Nat :=
  Nat.ofDigits 10 (p.digits.reverse.map fun c => (Text.digitValue? c).getD 0)

/-- The parts make up the text and are of their kinds, and the letters, in lower case, are a
word for a unit of `k` milliseconds. -/
structure Spells (p : Spelling) (s : String) (k : Nat) : Prop where
  chars_eq : s.toList = p.chars
  before : ∀ c ∈ p.before, Text.isBlankChar c = true
  digits : ∀ c ∈ p.digits, Text.isDecimal c = true
  digits_ne_nil : p.digits ≠ []
  between : ∀ c ∈ p.between, Text.isBlankChar c = true
  letters : ∀ c ∈ p.letters, c.isAlpha = true
  word : (String.ofList (p.letters.map Char.toLower), k) ∈ unitWords
  after : ∀ c ∈ p.after, Text.isBlankChar c = true

variable {p q : Spelling} {s : String} {k l : Nat}

namespace Spells

theorem letters_ne_nil (h : p.Spells s k) : p.letters ≠ [] := by
  intro hnil
  have hw := h.word
  rw [hnil] at hw
  simp [unitWords] at hw

/-! ### Where the parts begin -/

theorem head_digits (h : p.Spells s k) {rest : List Char} :
    ∀ c ∈ (p.digits ++ rest).head?, Text.isBlankChar c = false := fun c hc =>
  Text.isBlankChar_of_isDecimal (h.digits c (Text.mem_of_head?_append h.digits_ne_nil hc))

theorem head_letters (h : p.Spells s k) (rest : List Char) :
    ∀ c ∈ (p.letters ++ rest).head?, c.isAlpha = true := fun c hc =>
  h.letters c (Text.mem_of_head?_append h.letters_ne_nil hc)

/-- The letters follow the digits, at once or after white space. -/
theorem head_between (h : p.Spells s k) (rest : List Char) :
    ∀ c ∈ (p.between ++ (p.letters ++ rest)).head?, Text.isDecimal c = false := by
  intro c hc
  by_cases hb : p.between = []
  · rw [hb] at hc
    exact Text.isDecimal_of_isAlpha (h.head_letters rest c hc)
  · exact Text.isDecimal_of_isBlankChar (h.between c (Text.mem_of_head?_append hb hc))

theorem head_after (h : p.Spells s k) : ∀ c ∈ p.after.head?, c.isAlpha = false :=
  fun c hc => Text.isAlpha_of_isBlankChar (h.after c (List.mem_of_head? hc))

theorem last_letters (h : p.Spells s k) {front : List Char} :
    ∀ c ∈ (front ++ p.letters).getLast?, Text.isBlankChar c = false := fun c hc =>
  Text.isBlankChar_of_isAlpha (h.letters c (Text.mem_of_getLast?_append h.letters_ne_nil hc))

/-! ### One spelling -/

/-- From left to right, each part ends where the next begins. -/
theorem unique (h : p.Spells s k) (h' : q.Spells s l) : p = q ∧ k = l := by
  have hchars : p.chars = q.chars := h.chars_eq.symm.trans h'.chars_eq
  unfold chars at hchars
  simp only [List.append_assoc] at hchars
  obtain ⟨hbefore, hchars⟩ :=
    Text.run_append_inj h.before h.head_digits h'.before h'.head_digits hchars
  have hhead := h.head_between p.after
  have hhead' := h'.head_between q.after
  obtain ⟨hdigits, hchars⟩ := Text.run_append_inj h.digits hhead h'.digits hhead' hchars
  have hblank := fun c hc => Text.isBlankChar_of_isAlpha (h.head_letters p.after c hc)
  have hblank' := fun c hc => Text.isBlankChar_of_isAlpha (h'.head_letters q.after c hc)
  obtain ⟨hbetween, hchars⟩ := Text.run_append_inj h.between hblank h'.between hblank' hchars
  obtain ⟨hletters, hafter⟩ :=
    Text.run_append_inj h.letters h.head_after h'.letters h'.head_after hchars
  have hwords : (Assoc.keys unitWords).Nodup := by decide
  have hk := Assoc.find?_of_mem hwords h.word
  rw [hletters, Assoc.find?_of_mem hwords h'.word] at hk
  exact ⟨Spelling.ext hbefore hdigits hbetween hletters hafter, (Option.some.inj hk).symm⟩

/-! ### Reading what is spelled -/

theorem stripChars_eq (h : p.Spells s k) :
    Text.stripChars s.toList = p.digits ++ (p.between ++ p.letters) := by
  have hchars : p.chars = p.before ++ (p.digits ++ (p.between ++ p.letters) ++ p.after) := by
    simp [chars]
  rw [h.chars_eq, hchars]
  refine Text.stripChars_append h.before ?_ ?_ ?_ h.after
  · exact h.head_digits
  · rw [← List.append_assoc]
    exact h.last_letters
  · simp [h.digits_ne_nil]

theorem amountOf_eq (h : p.Spells s k) : amountOf s = p.digits := by
  have hhead := h.head_between []
  rw [List.append_nil] at hhead
  unfold amountOf
  rw [h.stripChars_eq, Text.takeWhile_append_of_head h.digits hhead]

theorem unitOf_eq (h : p.Spells s k) : unitOf s = p.letters := by
  have hhead := h.head_between []
  have hletters := h.head_letters []
  rw [List.append_nil] at hhead hletters
  unfold unitOf
  rw [h.stripChars_eq, Text.dropWhile_append_of_head h.digits hhead]
  exact Text.dropWhile_append_of_head h.between fun c hc =>
    Text.isBlankChar_of_isAlpha (hletters c hc)

end Spells

end Spelling

/-! ## Reading -/

theorem milliseconds_ofAlias?_iff {w : String} {k : Nat} :
    (Unit.ofAlias? w).map Unit.milliseconds = some k ↔ (w, k) ∈ unitWords := by
  constructor
  · intro h
    obtain ⟨u, hu, rfl⟩ := Option.map_eq_some_iff.1 h
    have hw : w ∈ u.aliases := by simpa using List.find?_some hu
    have hall : ∀ w ∈ u.aliases, (w, u.milliseconds) ∈ unitWords := by cases u <;> decide
    exact hall w hw
  · intro h
    have hall : ∀ e ∈ unitWords, (Unit.ofAlias? e.1).map Unit.milliseconds = some e.2 := by decide
    exact hall _ h

theorem asciiWord?_eq_some_iff {cs : List Char} {w : String} : asciiWord? cs = some w ↔
    (∀ c ∈ cs, c.isAlpha = true) ∧ String.ofList (cs.map Char.toLower) = w := by
  unfold asciiWord?
  simp [List.all_eq_true]

/-- The amount and the word of a label, as the reader finds them. -/
theorem ofLabel?_eq_some_iff_parts {s : String} {n : Nat} : ofLabel? s = some n ↔
    amountOf s ≠ [] ∧ (∀ c ∈ unitOf s, c.isAlpha = true) ∧
      ∃ k, (String.ofList ((unitOf s).map Char.toLower), k) ∈ unitWords ∧
        n = Text.decimalValue (amountOf s) * k := by
  unfold ofLabel?
  constructor
  · intro h
    split at h
    · cases h
    next hne =>
      obtain ⟨u, hu, rfl⟩ := Option.map_eq_some_iff.1 h
      obtain ⟨w, hw, hu⟩ := Option.bind_eq_some_iff.1 hu
      obtain ⟨hletters, rfl⟩ := asciiWord?_eq_some_iff.1 hw
      refine ⟨by simpa using hne, hletters, u.milliseconds, ?_, rfl⟩
      exact milliseconds_ofAlias?_iff.1 (by rw [hu]; rfl)
  · rintro ⟨hne, hletters, k, hk, rfl⟩
    obtain ⟨u, hu, rfl⟩ := Option.map_eq_some_iff.1 (milliseconds_ofAlias?_iff.2 hk)
    rw [if_neg (by simpa using hne), asciiWord?_eq_some_iff.2 ⟨hletters, rfl⟩, Option.bind_some, hu,
      Option.map_some]

/-- What is left of a text at either end of the amount and the word is white space. -/
theorem exists_chars_eq (s : String) : ∃ before between after,
    s.toList = before ++ ((amountOf s ++ (between ++ unitOf s)) ++ after) ∧
    (∀ c ∈ before, Text.isBlankChar c = true) ∧ (∀ c ∈ between, Text.isBlankChar c = true) ∧
    ∀ c ∈ after, Text.isBlankChar c = true := by
  obtain ⟨before, after, hs, hbefore, hafter⟩ := Text.exists_stripChars s.toList
  let rest := (Text.stripChars s.toList).dropWhile Text.isDecimal
  refine ⟨before, rest.takeWhile Text.isBlankChar, after, ?_, hbefore, ?_, hafter⟩
  · unfold amountOf unitOf
    rw [List.takeWhile_append_dropWhile, List.takeWhile_append_dropWhile]
    exact hs
  · exact fun c hc => List.mem_takeWhile_imp hc

/-- A label is read just if it is spelled. -/
theorem ofLabel?_eq_some_iff {s : String} {n : Nat} :
    ofLabel? s = some n ↔ ∃ p k, Spelling.Spells p s k ∧ n = p.number * k := by
  rw [ofLabel?_eq_some_iff_parts]
  constructor
  · rintro ⟨hne, hletters, k, hk, rfl⟩
    obtain ⟨before, between, after, hs, hbefore, hbetween, hafter⟩ := exists_chars_eq s
    refine ⟨⟨before, amountOf s, between, unitOf s, after⟩, k, ?_, ?_⟩
    · refine ⟨?_, hbefore, ?_, hne, hbetween, hletters, hk, hafter⟩
      · rw [hs]
        simp [Spelling.chars]
      · exact fun c hc => List.mem_takeWhile_imp hc
    · rw [Text.decimalValue_eq_ofDigits]
      rfl
  · rintro ⟨p, k, h, rfl⟩
    rw [h.amountOf_eq, h.unitOf_eq, Text.decimalValue_eq_ofDigits]
    exact ⟨h.digits_ne_nil, h.letters, k, h.word, rfl⟩

/-- Whatever is not read is refused in the same way. -/
theorem ofValue_eq (v : Value) (element : Option Value) :
    (∃ s n, v = .text s ∧ ofLabel? s = some n ∧ ofValue v element = .ok n) ∨
      (∀ s, v = .text s → ofLabel? s = none) ∧
        ofValue v element = .error (.malformed element (.unreadableDuration v)) := by
  cases v with
  | text s =>
    cases hs : ofLabel? s with
    | some n => exact .inl ⟨s, n, rfl, hs, by simp [ofValue, hs]⟩
    | none =>
      refine .inr ⟨?_, by simp [ofValue, hs]⟩
      rintro _ ⟨⟩
      exact hs
  | _ => exact .inr ⟨nofun, rfl⟩

/-! ## Theorem -/

/-- What is read of a value for an element.  It is a number just if the value is a text that is
spelled as a label, and then the number of its digits times the unit of its word; a text is
spelled in one way at most; and a value that is not spelled is refused under that element. -/
theorem ofValue_iff_spelled (v : Value) (element : Option Value) :
    (∀ n, ofValue v element = .ok n ↔
      ∃ s p k, v = .text s ∧ Spelling.Spells p s k ∧ n = p.number * k) ∧
    (∀ s p q k l, v = .text s → Spelling.Spells p s k → Spelling.Spells q s l → p = q ∧ k = l) ∧
    ((∀ s p k, v = .text s → ¬ Spelling.Spells p s k) →
      ofValue v element = .error (.malformed element (.unreadableDuration v))) := by
  refine ⟨fun n => ?_, fun s p q k l _ hp hq => hp.unique hq, fun hnone => ?_⟩
  · rcases ofValue_eq v element with ⟨s, m, rfl, hs, hv⟩ | ⟨hs, hv⟩
    · rw [hv, Except.ok.injEq]
      constructor
      · rintro rfl
        obtain ⟨p, k, hp, hn⟩ := ofLabel?_eq_some_iff.1 hs
        exact ⟨s, p, k, rfl, hp, hn⟩
      · rintro ⟨_, p, k, ⟨⟩, hp, hn⟩
        have hread := ofLabel?_eq_some_iff.2 ⟨p, k, hp, hn⟩
        exact Option.some.inj (hs.symm.trans hread)
    · rw [hv]
      constructor
      · rintro ⟨⟩
      · rintro ⟨s, p, k, rfl, hp, hn⟩
        have hread := ofLabel?_eq_some_iff.2 ⟨p, k, hp, hn⟩
        rw [hs s rfl] at hread
        cases hread
  · rcases ofValue_eq v element with ⟨s, n, rfl, hs, -⟩ | ⟨-, hv⟩
    · obtain ⟨p, k, hp, -⟩ := ofLabel?_eq_some_iff.1 hs
      exact absurd hp (hnone s p k rfl)
    · exact hv

/-- Digits of two scripts, a wide space, small and large letters, and a line end. -/
def mixedLabel : String := "\t\u06642\u2003HoUrS\n"

def mixedSpelling : Spelling :=
  ⟨['\t'], ['\u0664', '2'], ['\u2003'], ['H', 'o', 'U', 'r', 'S'], ['\n']⟩

theorem mixedSpelling_spells : mixedSpelling.Spells mixedLabel 3600000 where
  chars_eq := by decide
  before := List.all_eq_true.1 rfl
  digits := List.all_eq_true.1 rfl
  digits_ne_nil := List.cons_ne_nil _ _
  between := List.all_eq_true.1 rfl
  letters := List.all_eq_true.1 rfl
  word := by decide
  after := List.all_eq_true.1 rfl

theorem ofValue_iff_spelled_mixed :
    (∃ p, Spelling.Spells p mixedLabel 3600000 ∧ ofValue (.text mixedLabel) none = .ok 151200000 ∧
      ∀ q k, Spelling.Spells q mixedLabel k → q = p ∧ k = 3600000) ∧
    (∀ s p k, Value.int 42 = .text s → ¬ Spelling.Spells p s k) ∧
      ofValue (.int 42) (some (.text "wait")) =
        .error (.malformed (some (.text "wait")) (.unreadableDuration (.int 42))) := by
  constructor
  · have hp := mixedSpelling_spells
    have hn : 151200000 = mixedSpelling.number * 3600000 := by decide
    obtain ⟨hread, hunique, -⟩ := ofValue_iff_spelled (.text mixedLabel) none
    exact ⟨_, hp, (hread _).2 ⟨_, _, _, rfl, hp, hn⟩, fun q k hq => hunique _ q _ k _ rfl hq hp⟩
  · have hnone : ∀ s p k, Value.int 42 = .text s → ¬ Spelling.Spells p s k := nofun
    exact ⟨hnone, (ofValue_iff_spelled (.int 42) (some (.text "wait"))).2.2 hnone⟩

end Workflow.Duration
