import Mathlib.Algebra.Group.Int.Defs
import Mathlib.Algebra.Group.Nat.Defs
import Workflow.Proofs.Duration.Grammar

/-!
# Labels are read back

The label of a duration is spelled by a run of digits, a blank and the name of a
unit.  The unit measures the duration exactly, so nothing is lost by the division.

    the spelling of its amount and its unit spells label n   (spells_label)
    ofLabel? (label n) = some n                              (ofLabel?_label)
    a label of few digits is read → the label of what is read has few digits
                                                             (isShort_of_ofLabel?)
-/

namespace Workflow

/-! ## Digits -/

namespace Text

variable {c : Char} {cs : List Char}

theorem toNat_of_isDigit (h : c.isDigit = true) : 48 ≤ c.toNat ∧ c.toNat ≤ 57 := by
  unfold Char.isDigit at h
  simp only [ge_iff_le, Bool.and_eq_true, decide_eq_true_eq] at h
  exact ⟨UInt32.le_iff_toNat_le.1 h.1, UInt32.le_iff_toNat_le.1 h.2⟩

theorem digitValue?_of_isDigit (h : c.isDigit = true) : digitValue? c = some (c.toNat - 48) := by
  obtain ⟨h₁, h₂⟩ := toNat_of_isDigit h
  have hr : decimalRanges.find? (fun r => r.1 ≤ c.toNat && c.toNat ≤ r.2) = some (48, 57) := by
    rw [decimalRanges, List.find?_cons_of_pos]
    simp [h₁, h₂]
  unfold digitValue?
  rw [hr]
  simp only [Option.map_some, Option.some.injEq]
  omega

theorem isDecimal_of_isDigit (h : c.isDigit = true) : isDecimal c = true := by
  unfold isDecimal
  rw [digitValue?_of_isDigit h]
  rfl

/-- Digits of the first script are read as the core library reads them. -/
theorem decimalValue_of_isDigit (h : ∀ c ∈ cs, c.isDigit = true) :
    decimalValue cs = Nat.ofDigitChars 10 cs 0 := by
  unfold decimalValue
  rw [Nat.ofDigitChars_eq_foldl]
  suffices hs : ∀ n, cs.foldl (fun n c => 10 * n + (digitValue? c).getD 0) n
      = cs.foldl (fun n c => 10 * n + (c.toNat - '0'.toNat)) n from hs 0
  induction cs with
  | nil => intro n; rfl
  | cons c rest ih =>
    intro n
    rw [List.foldl_cons, List.foldl_cons, digitValue?_of_isDigit (h c List.mem_cons_self)]
    exact ih (fun x hx => h x (List.mem_cons_of_mem c hx)) _

theorem digitValue?_lt {v : Nat} (h : digitValue? c = some v) : v < 10 := by
  obtain ⟨r, -, rfl⟩ := Option.map_eq_some_iff.1 h
  exact Nat.mod_lt _ (by decide)

/-- A run of digits of any script is below the power of ten that its length tells. -/
theorem decimalValue_lt (cs : List Char) : decimalValue cs < 10 ^ cs.length := by
  suffices hs : ∀ n k, n < 10 ^ k → cs.foldl (fun n c => 10 * n + (digitValue? c).getD 0) n
      < 10 ^ (k + cs.length) by
    have h := hs 0 0 (by decide)
    rwa [Nat.zero_add] at h
  induction cs with
  | nil => exact fun n k h => h
  | cons c rest ih =>
    intro n k h
    have hd : (digitValue? c).getD 0 < 10 := by
      cases hv : digitValue? c with
      | none => decide
      | some v => exact digitValue?_lt hv
    have hn : 10 * n + (digitValue? c).getD 0 < 10 ^ (k + 1) := by
      rw [Nat.pow_succ]
      omega
    rw [List.foldl_cons, List.length_cons, Nat.add_comm rest.length 1, ← Nat.add_assoc]
    exact ih _ _ hn

theorem decimalValue_toDigits (n : Nat) : decimalValue (Nat.toDigits 10 n) = n := by
  rw [decimalValue_of_isDigit fun c hc => Nat.isDigit_of_mem_toDigits (by decide) (by decide) hc]
  exact Nat.ofDigitChars_ten_toDigits

end Text

/-! ## Units -/

namespace Duration

namespace Unit

theorem milliseconds_pos (u : Unit) : 0 < u.milliseconds := by
  cases u <;> decide

theorem isAlpha_name (u : Unit) : ∀ c ∈ u.name.toList, c.isAlpha = true := by
  cases u <;> exact List.all_eq_true.1 (by decide)

theorem name_mem_unitWords (u : Unit) :
    (String.ofList (u.name.toList.map Char.toLower), u.milliseconds) ∈ unitWords := by
  cases u <;> decide

/-- The unit in which a duration is shown measures it. -/
theorem measuring_dvd (n : Int) : n % ((measuring n).milliseconds : Int) = 0 := by
  unfold measuring
  cases h : all.find? fun u => n % (u.milliseconds : Int) = 0 with
  | some u => simpa using List.find?_some h
  | none =>
    have hm := List.find?_eq_none.1 h .millisecond (by decide)
    simp [milliseconds] at hm

/-- No unit that measures a duration is larger than the one in which it is shown. -/
theorem milliseconds_le_measuring {u : Unit} {n : Int} (h : n % (u.milliseconds : Int) = 0) :
    u.milliseconds ≤ (measuring n).milliseconds := by
  have hall : u ∈ all := by cases u <;> decide
  unfold measuring
  cases hf : all.find? fun u => n % (u.milliseconds : Int) = 0 with
  | none => exact absurd h (by simpa using List.find?_eq_none.1 hf u hall)
  | some v =>
    -- the units stand from the largest to the smallest, and those before v do not measure
    obtain ⟨-, before, after, hsplit, hbefore⟩ := List.find?_eq_some_iff_append.1 hf
    have hsorted : all.Pairwise fun u v => v.milliseconds ≤ u.milliseconds := by decide
    rw [hsplit] at hall hsorted
    rcases List.mem_append.1 hall with hu | hu
    · exact absurd h (by simpa using hbefore u hu)
    · rcases List.mem_cons.1 hu with rfl | hu
      · exact Nat.le_refl _
      · exact (List.pairwise_cons.1 (List.pairwise_append.1 hsorted).2.1).1 u hu

end Unit

/-! ## Labels -/

theorem amount_mul (n : Int) : amount n * (Unit.measuring n).milliseconds = n :=
  Int.ediv_mul_cancel (Int.dvd_of_emod_eq_zero (Unit.measuring_dvd n))

/-- A natural number of milliseconds is a natural number of its unit. -/
theorem exists_amount (n : Nat) :
    ∃ k : Nat, amount n = k ∧ k * (Unit.measuring n).milliseconds = n := by
  have hpos : (0 : Int) ≤ amount n := Int.ediv_nonneg (Int.natCast_nonneg n) (Int.natCast_nonneg _)
  obtain ⟨k, hk⟩ := Int.eq_ofNat_of_zero_le hpos
  have hmul := amount_mul n
  rw [hk] at hmul
  exact ⟨k, hk, by exact_mod_cast hmul⟩

theorem toList_label {n k : Nat} (hk : amount n = k) :
    (label n).toList = Nat.toDigits 10 k ++ ' ' :: (Unit.measuring n).name.toList := by
  have hdigits : Value.intText (k : Int) = Nat.repr k := by
    unfold Value.intText
    rw [if_neg (by omega), Int.natAbs_natCast]
  unfold label
  rw [hk, hdigits]
  simp [Nat.toList_repr]

theorem isDecimal_toDigits (n : Nat) (c : Char) (hc : c ∈ Nat.toDigits 10 n) :
    Text.isDecimal c = true :=
  Text.isDecimal_of_isDigit (Nat.isDigit_of_mem_toDigits (by decide) (by decide) hc)

/-- A label of `k` units. -/
def labelSpelling (k : Nat) (u : Unit) : Spelling :=
  ⟨[], Nat.toDigits 10 k, [' '], u.name.toList, []⟩

theorem spells_label {n k : Nat} (hk : amount n = k) :
    (labelSpelling k (Unit.measuring n)).Spells (label n) (Unit.measuring n).milliseconds where
  chars_eq := by
    rw [toList_label hk]
    simp [labelSpelling, Spelling.chars]
  before := List.all_eq_true.1 rfl
  digits := isDecimal_toDigits _
  digits_ne_nil := Nat.toDigits_ne_nil
  between := List.all_eq_true.1 rfl
  letters := Unit.isAlpha_name _
  word := Unit.name_mem_unitWords _
  after := List.all_eq_true.1 rfl

/-- What is shown of a duration is enough to get it back. -/
theorem ofLabel?_label (n : Nat) : ofLabel? (label n) = some n := by
  obtain ⟨k, hk, hmul⟩ := exists_amount n
  refine ofLabel?_eq_some_iff.2 ⟨labelSpelling k (Unit.measuring n), _, spells_label hk, ?_⟩
  have hnumber : (labelSpelling k (Unit.measuring n)).number = k := by
    rw [Spelling.number, ← Text.decimalValue_eq_ofDigits]
    exact Text.decimalValue_toDigits _
  rw [hnumber, hmul]

/-! ## The limit of digits -/

theorem isShort_iff {n k : Nat} (hk : amount n = k) :
    isShort n = true ↔ k < 10 ^ Numeral.maxDigits := by
  unfold isShort Value.isWritableInt
  rw [hk, decide_eq_true_eq, Int.natAbs_natCast, Nat.pow_eq]

/-- A label that can be written can be read. -/
theorem overlong?_label {n : Nat} (h : isShort n = true) : overlong? (.text (label n)) = none := by
  obtain ⟨k, hk, -⟩ := exists_amount n
  have hlen : (amountOf (label n)).length ≤ Numeral.maxDigits := by
    rw [(spells_label hk).amountOf_eq]
    exact (Nat.length_toDigits_le_iff (by decide) (by decide)).2 ((isShort_iff hk).1 h)
  unfold overlong?
  simp only [ite_eq_right_iff]
  intro hc
  simp only [Bool.and_eq_true, decide_eq_true_eq] at hc
  omega

theorem overlong?_of_spells {p : Spelling} {s : String} {k : Nat} (h : p.Spells s k)
    (hlong : Numeral.maxDigits < p.digits.length) :
    overlong? (.text s) = some p.digits.length := by
  have hread : ofLabel? s = some (p.number * k) := ofLabel?_eq_some_iff.2 ⟨p, k, h, rfl⟩
  unfold overlong?
  simp [h.amountOf_eq, hread, hlong]

/-- A label has no more digits than its duration. -/
theorem isShort_of_lt {n : Nat} (h : n < 10 ^ Numeral.maxDigits) : isShort n = true := by
  obtain ⟨k, hk, hmul⟩ := exists_amount n
  refine (isShort_iff hk).2 (Nat.lt_of_le_of_lt ?_ h)
  rw [← hmul]
  exact Nat.le_mul_of_pos_right k (Unit.milliseconds_pos _)

/-- A duration that was read from a label of few digits is shown with no more digits. -/
theorem isShort_of_ofLabel? {s : String} {n : Nat} (hs : ofLabel? s = some n)
    (h : overlong? (.text s) = none) : isShort n = true := by
  have hlen : (amountOf s).length ≤ Numeral.maxDigits := by
    unfold overlong? at h
    simp only [hs, Option.isSome_some, Bool.true_and, decide_eq_true_eq] at h
    split at h
    · cases h
    · omega
  unfold ofLabel? at hs
  split at hs
  · cases hs
  · obtain ⟨u, -, hu⟩ := Option.map_eq_some_iff.1 hs
    -- the unit of the label measures the duration, so the one that is shown is no smaller
    have hm : u.milliseconds ≤ (Unit.measuring n).milliseconds := by
      apply Unit.milliseconds_le_measuring
      rw [← hu]
      exact_mod_cast Nat.mul_mod_left _ _
    obtain ⟨k, hk, hmul⟩ := exists_amount n
    have hamount : k ≤ Text.decimalValue (amountOf s) := by
      refine Nat.le_of_mul_le_mul_right ?_ (Unit.measuring n).milliseconds_pos
      rw [hmul, ← hu]
      exact Nat.mul_le_mul_left _ (hu ▸ hm)
    refine (isShort_iff hk).2 ?_
    calc k ≤ Text.decimalValue (amountOf s) := hamount
      _ < 10 ^ (amountOf s).length := Text.decimalValue_lt _
      _ ≤ 10 ^ Numeral.maxDigits := Nat.pow_le_pow_right (by decide) hlen

theorem ofValue_label (n : Nat) (element : Option Value) :
    ofValue (.text (label n)) element = .ok n := by
  simp only [ofValue, ofLabel?_label]

end Duration

end Workflow
