import Mathlib.Logic.Function.Defs
import Workflow.Proofs.Duration.Label

/-!
# Labels are canonical

The label of a duration is the number of its largest unit.  It is read back, so no
two durations that are not negative have one label; and the label of a negative
duration is that of its amount with a sign before it, which no spelling starts with.

    label (-n) = "-" ++ label n, for 0 < n                       (label_neg)
    ofLabel? (label (-n)) = none, for 0 < n                      (ofLabel?_label_neg)
    what the labels of all durations are, and what is read of them     (label_canonical)
-/

namespace Workflow.Duration

variable {n : Int}

/-! ## Units -/

/-- The sign of a duration plays no part in the choice of its unit. -/
theorem Unit.measuring_neg (n : Int) : measuring (-n) = measuring n := by
  unfold measuring
  simp only [← Int.dvd_iff_emod_eq_zero, Int.dvd_neg]

/-! ## Signs -/

theorem amount_neg (n : Int) : amount (-n) = -amount n := by
  unfold amount
  rw [Unit.measuring_neg, Int.neg_ediv_of_dvd (Int.dvd_of_emod_eq_zero (Unit.measuring_dvd n))]

theorem label_neg (h : 0 < n) : label (-n) = "-" ++ label n := by
  have hpos : 0 < amount n := by
    rw [← amount_mul n] at h
    exact Int.pos_of_mul_pos_left h (Int.natCast_pos.2 (Unit.milliseconds_pos _))
  have hsign : Value.intText (-amount n) = "-" ++ Value.intText (amount n) := by
    unfold Value.intText
    rw [if_pos (by omega), if_neg (by omega), Int.natAbs_neg]
  unfold label
  rw [amount_neg, hsign, Unit.measuring_neg]
  simp [String.append_assoc]

/-- A spelling starts with white space or with a digit. -/
theorem Spelling.Spells.head {p : Spelling} {s : String} {k : Nat} (h : p.Spells s k) :
    ∀ c ∈ s.toList.head?, Text.isBlankChar c = true ∨ Text.isDecimal c = true := by
  intro c hc
  rw [h.chars_eq] at hc
  unfold chars at hc
  simp only [List.append_assoc] at hc
  by_cases hb : p.before = []
  · rw [hb] at hc
    exact .inr (h.digits c (Text.mem_of_head?_append h.digits_ne_nil hc))
  · exact .inl (h.before c (Text.mem_of_head?_append hb hc))

theorem ofLabel?_label_neg (h : 0 < n) : ofLabel? (label (-n)) = none := by
  rw [Option.eq_none_iff_forall_not_mem]
  intro k hk
  obtain ⟨p, _, hp, -⟩ := ofLabel?_eq_some_iff.1 hk
  have hsign : '-' ∈ (label (-n)).toList.head? := by
    rw [label_neg h]
    simp
  exact absurd (hp.head _ hsign) (by decide)

/-! ## Reading -/

theorem ofLabel?_label_of_nonneg (h : 0 ≤ n) : ofLabel? (label n) = some n.toNat := by
  obtain ⟨k, rfl⟩ := Int.eq_ofNat_of_zero_le h
  exact ofLabel?_label k

theorem ofLabel?_label_of_neg (h : n < 0) : ofLabel? (label n) = none := by
  have hneg := ofLabel?_label_neg (Int.neg_pos_of_neg h)
  rwa [Int.neg_neg] at hneg

/-- Two labels are told apart by reading them, or by reading what follows their signs. -/
theorem label_injective : Function.Injective label := by
  have hnonneg {n m : Int} (hn : 0 ≤ n) (h : label n = label m) : n = m := by
    rcases Int.lt_or_le m 0 with hm | hm
    · have hread := ofLabel?_label_of_neg hm
      rw [← h, ofLabel?_label_of_nonneg hn] at hread
      cases hread
    · have hread := ofLabel?_label_of_nonneg hn
      rw [h, ofLabel?_label_of_nonneg hm, Option.some.injEq] at hread
      omega
  intro n m h
  rcases Int.lt_or_le n 0 with hn | hn
  · rcases Int.lt_or_le m 0 with hm | hm
    · have hn' := label_neg (Int.neg_pos_of_neg hn)
      have hm' := label_neg (Int.neg_pos_of_neg hm)
      rw [Int.neg_neg] at hn' hm'
      rw [hn', hm', String.append_right_inj] at h
      have := hnonneg (by omega) h
      omega
    · exact (hnonneg hm h.symm).symm
  · exact hnonneg hn h

/-! ## Theorem -/

/-- A duration that is not negative is read back from its label, and a negative one is refused under
the element that it is read for.  A label is a number of some unit of which the duration consists
exactly, and no larger unit measures the duration; and no two durations have one label. -/
theorem label_canonical :
    (∀ n : Int, 0 ≤ n → ∀ element, ofValue (.text (label n)) element = .ok n.toNat) ∧
    (∀ n : Int, n < 0 → ∀ element, ofValue (.text (label n)) element =
      .error (.malformed element (.unreadableDuration (.text (label n))))) ∧
    (∀ n : Int, ∃ (q : Int) (u : Unit), label n = Value.intText q ++ " " ++ u.name ∧
      n = q * u.milliseconds ∧
      ∀ v : Unit, (v.milliseconds : Int) ∣ n → v.milliseconds ≤ u.milliseconds) ∧
    Function.Injective label := by
  refine ⟨fun n hn element => ?_, fun n hn element => ?_, fun n => ?_, label_injective⟩
  · simp [ofValue, ofLabel?_label_of_nonneg hn]
  · simp [ofValue, ofLabel?_label_of_neg hn]
  · exact ⟨amount n, Unit.measuring n, rfl, (amount_mul n).symm, fun v hv =>
      Unit.milliseconds_le_measuring (Int.emod_eq_zero_of_dvd hv)⟩

/-- An hour and a half, nothing, a day less than nothing, and two durations of which the second
is shown in a smaller unit. -/
theorem label_canonical_boundaries :
    (label 5400000 = "90 minutes" ∧ ofValue (.text "90 minutes") none = .ok 5400000) ∧
    (label 0 = "0 days" ∧ ofValue (.text "0 days") none = .ok 0) ∧
    (label (-86400000) = "-1 days" ∧ ofValue (.text "-1 days") (some (.text "wait")) =
      .error (.malformed (some (.text "wait")) (.unreadableDuration (.text "-1 days")))) ∧
    label 60000 ≠ label 60001 := by
  obtain ⟨hread, hrefused, -, hinj⟩ := label_canonical
  have hday : label (-86400000) = "-1 days" := by decide
  have hsaid := hrefused (-86400000) (by decide) (some (.text "wait"))
  rw [hday] at hsaid
  exact ⟨⟨rfl, hread 5400000 (by decide) none⟩, ⟨rfl, hread 0 (by decide) none⟩, ⟨hday, hsaid⟩,
    fun h => absurd (hinj h) (by decide)⟩

end Workflow.Duration
