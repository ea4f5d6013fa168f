import Mathlib.Algebra.Group.Int.Defs
import Mathlib.Algebra.Group.Nat.Defs
import Workflow.Number.Binary64

/-!
# The range of the doubles

A ratio that is at most the largest double is rounded to a double of the range,
so products and roundings that do not leave the range always succeed.

    n ≤ largest * d → ofRatio? s n d = some x for an x in range   (ofRatio?_of_le)
    x in range → x is at most `largest`                           (IsFinite.ratio_le)
    ofInt? k = none ↔ overflow ≤ k.natAbs                         (ofInt?_eq_none_iff)
-/

namespace Workflow.Binary64

/-- The largest power of two of a double. -/
def topExponent : Nat := 971

/-- The largest double is an integer. -/
def largest : Nat := (2 ^ 53 - 1) * 2 ^ topExponent

/-- Coefficient and power of two are in the range of a double. -/
def IsFinite (x : Binary64) : Prop := x.coefficient < 2 ^ 53 ∧ x.exponent ≤ 971

/-! ## Rounding -/

/-- Rounding does not pass an integer. -/
theorem roundDiv_le_of_le {n d k : Nat} (hd : 0 < d) (h : n ≤ k * d) : roundDiv n d ≤ k := by
  have hq : n / d ≤ k := Nat.div_le_of_le_mul (by rwa [Nat.mul_comm])
  by_cases hk : n / d = k
  · have hr : n % d = 0 := by
      have hm := Nat.div_add_mod n d
      rw [hk, Nat.mul_comm d k] at hm
      omega
    unfold roundDiv
    simp only [hr, hk]
    exact Nat.le_of_eq (if_pos (by omega))
  · have hle := roundDiv_le n d
    omega

/-! ## Scaling -/

/-- One of the two powers is always one. -/
theorem scale_eq (n d : Nat) (e : Int) : scale n d e = (n * 2 ^ (-e).toNat, d * 2 ^ e.toNat) := by
  unfold scale
  split
  next h =>
    have h0 : (-e).toNat = 0 := by omega
    rw [h0, Nat.pow_zero, Nat.mul_one]
    rfl
  next h =>
    have h0 : e.toNat = 0 := by omega
    rw [h0, Nat.pow_zero, Nat.mul_one]
    rfl

/-- The scaled ratio is below a power of two. -/
def Below (k n d : Nat) (e : Int) : Prop := n * 2 ^ (-e).toNat < 2 ^ k * (d * 2 ^ e.toNat)

theorem Below.mono {k n d : Nat} {e e' : Int} (h : Below k n d e) (he : e ≤ e') :
    Below k n d e' := by
  have hl : n * 2 ^ (-e').toNat ≤ n * 2 ^ (-e).toNat :=
    Nat.mul_le_mul_left n (Nat.pow_le_pow_right (by decide) (by omega))
  have hr : 2 ^ k * (d * 2 ^ e.toNat) ≤ 2 ^ k * (d * 2 ^ e'.toNat) :=
    Nat.mul_le_mul_left _ (Nat.mul_le_mul_left d (Nat.pow_le_pow_right (by decide) (by omega)))
  exact Nat.lt_of_le_of_lt hl (Nat.lt_of_lt_of_le h hr)

/-- Halving the unit doubles the bound. -/
theorem Below.pred {k n d : Nat} {e : Int} (h : Below k n d e) : Below (k + 1) n d (e - 1) := by
  unfold Below at h ⊢
  by_cases he : 1 ≤ e
  · have h₁ : (-(e - 1)).toNat = (-e).toNat := by omega
    have h₂ : e.toNat = (e - 1).toNat + 1 := by omega
    rw [h₂, Nat.pow_succ] at h
    rw [h₁, Nat.pow_succ]
    calc n * 2 ^ (-e).toNat < 2 ^ k * (d * (2 ^ (e - 1).toNat * 2)) := h
      _ = 2 ^ k * 2 * (d * 2 ^ (e - 1).toNat) := by ac_rfl
  · have h₁ : (-(e - 1)).toNat = (-e).toNat + 1 := by omega
    have h₂ : (e - 1).toNat = e.toNat := by omega
    rw [h₁, h₂, Nat.pow_succ, Nat.pow_succ]
    calc n * (2 ^ (-e).toNat * 2) = n * 2 ^ (-e).toNat * 2 := by ac_rfl
      _ < 2 ^ k * (d * 2 ^ e.toNat) * 2 := Nat.mul_lt_mul_of_pos_right h (by decide)
      _ = 2 ^ k * 2 * (d * 2 ^ e.toNat) := by ac_rfl

/-- The power of two that `lastPlace` tries first. -/
def firstGuess (n d : Nat) : Int := (n.log2 : Int) - d.log2 - 52

theorem below_firstGuess {n d : Nat} (hd : d ≠ 0) : Below 53 n d (firstGuess n d) := by
  have hn : n < 2 ^ (n.log2 + 1) := Nat.lt_log2_self
  have hl : 2 ^ d.log2 ≤ d := Nat.log2_self_le hd
  have he : n.log2 + 1 + (-firstGuess n d).toNat
      = 53 + (d.log2 + (firstGuess n d).toNat) := by
    unfold firstGuess
    omega
  calc n * 2 ^ (-firstGuess n d).toNat
      < 2 ^ (n.log2 + 1) * 2 ^ (-firstGuess n d).toNat :=
        Nat.mul_lt_mul_of_pos_right hn (Nat.two_pow_pos _)
    _ = 2 ^ 53 * (2 ^ d.log2 * 2 ^ (firstGuess n d).toNat) := by
        rw [← Nat.pow_add, he, Nat.pow_add, Nat.pow_add]
    _ ≤ 2 ^ 53 * (d * 2 ^ (firstGuess n d).toNat) :=
        Nat.mul_le_mul_left _ (Nat.mul_le_mul_right _ hl)

theorem lastPlace_eq (n d : Nat) :
    lastPlace n d = max (if n * 2 ^ (-firstGuess n d).toNat / (d * 2 ^ (firstGuess n d).toNat)
      < 2 ^ 52 then firstGuess n d - 1 else firstGuess n d) (-1074) := by
  unfold lastPlace
  simp only [scale_eq]
  rfl

/-- A coefficient has at most 53 bits. -/
theorem below_lastPlace {n d : Nat} (hd : 0 < d) : Below 53 n d (lastPlace n d) := by
  rw [lastPlace_eq]
  split
  next h =>
    have hb : Below 52 n d (firstGuess n d) := by
      have hp : 0 < d * 2 ^ (firstGuess n d).toNat := Nat.mul_pos hd (Nat.two_pow_pos _)
      exact (Nat.div_lt_iff_lt_mul hp).1 h
    exact hb.pred.mono (Int.le_max_left _ _)
  next h => exact (below_firstGuess (Nat.ne_of_gt hd)).mono (Int.le_max_left _ _)

/-- A ratio below a power of two bounds the power that is needed. -/
theorem lastPlace_lt {n d m : Nat} (hn : n ≠ 0) (hd : 0 < d) (hm : 0 < m)
    (h : n < 2 ^ (52 + m) * d) : lastPlace n d < m := by
  rw [lastPlace_eq]
  rcases Int.lt_or_le (firstGuess n d) m with hg | hg
  · split <;> omega
  · have h₀ : (-firstGuess n d).toNat = 0 := by omega
    have hp : 0 < d * 2 ^ (firstGuess n d).toNat := Nat.mul_pos hd (Nat.two_pow_pos _)
    rw [h₀, Nat.pow_zero, Nat.mul_one]
    split
    next hq =>
      -- the leading bits of numerator and denominator bound the first guess
      have hb : 2 ^ n.log2 < 2 ^ (52 + m + (d.log2 + 1)) := by
        calc 2 ^ n.log2 ≤ n := Nat.log2_self_le hn
          _ < 2 ^ (52 + m) * d := h
          _ ≤ 2 ^ (52 + m) * 2 ^ (d.log2 + 1) :=
            Nat.mul_le_mul_left _ (Nat.le_of_lt Nat.lt_log2_self)
          _ = 2 ^ (52 + m + (d.log2 + 1)) := (Nat.pow_add _ _ _).symm
      have hl := (Nat.pow_lt_pow_iff_right (by decide : 1 < 2)).1 hb
      unfold firstGuess
      omega
    next hq =>
      have hge : 2 ^ 52 * (d * 2 ^ (firstGuess n d).toNat) ≤ n :=
        (Nat.le_div_iff_mul_le hp).1 (Nat.le_of_not_lt hq)
      have hpow : 2 ^ m ≤ 2 ^ (firstGuess n d).toNat :=
        Nat.pow_le_pow_right (by decide) (by omega)
      have hle : 2 ^ (52 + m) * d ≤ n := by
        calc 2 ^ (52 + m) * d = 2 ^ 52 * (d * 2 ^ m) := by
              rw [Nat.pow_add]
              ac_rfl
          _ ≤ 2 ^ 52 * (d * 2 ^ (firstGuess n d).toNat) :=
            Nat.mul_le_mul_left _ (Nat.mul_le_mul_left d hpow)
          _ ≤ n := hge
      exact absurd h (Nat.not_lt.2 hle)

theorem largest_lt : largest < 2 ^ (52 + (topExponent + 1)) := by
  have hlt : ∀ e : Nat, (2 ^ 53 - 1) * 2 ^ e < 2 ^ (53 + e) := by
    intro e
    rw [Nat.pow_add]
    exact Nat.mul_lt_mul_of_pos_right (by decide) (Nat.two_pow_pos e)
  rw [show 52 + (topExponent + 1) = 53 + topExponent by omega]
  exact hlt topExponent

/-! ## Doubles of a ratio -/

/-- The coefficient and the power of two before a carry is moved up. -/
def rounded (n d : Nat) : Nat :=
  roundDiv (n * 2 ^ (-lastPlace n d).toNat) (d * 2 ^ (lastPlace n d).toNat)

theorem ofRatio?_eq (s : Bool) {n d : Nat} (hn : n ≠ 0) :
    ofRatio? s n d =
      if rounded n d = 2 ^ 53 then
        if 971 < lastPlace n d + 1 then none else some ⟨s, 2 ^ 52, lastPlace n d + 1⟩
      else if 971 < lastPlace n d then none else some ⟨s, rounded n d, lastPlace n d⟩ := by
  unfold ofRatio?
  rw [if_neg hn]
  simp only [scale_eq, Nat.pow_eq]
  by_cases hb : rounded n d = 2 ^ 53
  · rw [if_pos hb]
    unfold rounded at hb
    rw [if_pos hb]
  · rw [if_neg hb]
    unfold rounded at hb
    rw [if_neg hb]
    rfl

theorem rounded_le {n d : Nat} (hd : 0 < d) : rounded n d ≤ 2 ^ 53 :=
  roundDiv_le_of_le (Nat.mul_pos hd (Nat.two_pow_pos _)) (Nat.le_of_lt (below_lastPlace hd))

/-- At the last power of two the coefficient of a ratio in range needs no carry. -/
theorem rounded_lt {n d : Nat} (hd : 0 < d) (h : n ≤ largest * d)
    (he : lastPlace n d = (topExponent : Int)) : rounded n d < 2 ^ 53 := by
  have hr : rounded n d ≤ 2 ^ 53 - 1 := by
    unfold rounded
    rw [he, Int.toNat_natCast]
    apply roundDiv_le_of_le (Nat.mul_pos hd (Nat.two_pow_pos _))
    have h₀ : (-(topExponent : Int)).toNat = 0 := by omega
    rw [h₀, Nat.pow_zero, Nat.mul_one]
    calc n ≤ (2 ^ 53 - 1) * 2 ^ topExponent * d := h
      _ = (2 ^ 53 - 1) * (d * 2 ^ topExponent) := by rw [Nat.mul_assoc, Nat.mul_comm d]
  omega

/-- A ratio in range is rounded to a double in range. -/
theorem ofRatio?_of_le (s : Bool) {n d : Nat} (hd : 0 < d) (h : n ≤ largest * d) :
    ∃ x, ofRatio? s n d = some x ∧ x.IsFinite := by
  by_cases hn : n = 0
  · subst hn
    refine ⟨zero s, rfl, ?_, ?_⟩
    · show 0 < 2 ^ 53
      decide
    · show (-1074 : Int) ≤ 971
      decide
  · have he : lastPlace n d < (topExponent + 1 : Nat) :=
      lastPlace_lt hn hd (Nat.succ_pos _)
        (Nat.lt_of_le_of_lt h (Nat.mul_lt_mul_of_pos_right largest_lt hd))
    unfold topExponent at he
    rw [ofRatio?_eq s hn]
    by_cases hb : rounded n d = 2 ^ 53
    · have hne : lastPlace n d ≠ (topExponent : Int) := by
        intro ht
        have hlt := rounded_lt hd h ht
        omega
      have hlt : lastPlace n d + 1 ≤ 971 := by
        unfold topExponent at hne
        omega
      rw [if_pos hb, if_neg (by omega)]
      refine ⟨_, rfl, ?_, hlt⟩
      show 2 ^ 52 < 2 ^ 53
      decide
    · have hc := rounded_le (n := n) hd
      rw [if_neg hb, if_neg (by omega)]
      refine ⟨_, rfl, ?_, ?_⟩
      · show rounded n d < 2 ^ 53
        omega
      · show lastPlace n d ≤ 971
        omega

/-! ## Ratios of doubles -/

theorem ratio_pos (x : Binary64) : 0 < x.ratio.2 := by
  unfold ratio
  split
  · exact Nat.one_pos
  · exact Nat.two_pow_pos _

theorem IsFinite.ratio_le {x : Binary64} (h : x.IsFinite) :
    x.ratio.1 ≤ largest * x.ratio.2 := by
  obtain ⟨hc, he⟩ := h
  have hc' : x.coefficient ≤ 2 ^ 53 - 1 := by omega
  unfold ratio
  split
  next h0 =>
    have hp : 2 ^ x.exponent.toNat ≤ 2 ^ topExponent :=
      Nat.pow_le_pow_right (by decide) (by unfold topExponent; omega)
    show x.coefficient * 2 ^ x.exponent.toNat ≤ largest * 1
    rw [Nat.mul_one]
    exact Nat.mul_le_mul hc' hp
  next h0 =>
    show x.coefficient ≤ largest * 2 ^ (-x.exponent).toNat
    calc x.coefficient ≤ 2 ^ 53 - 1 := hc'
      _ ≤ largest := Nat.le_mul_of_pos_right _ (Nat.two_pow_pos _)
      _ ≤ largest * 2 ^ (-x.exponent).toNat := Nat.le_mul_of_pos_right _ (Nat.two_pow_pos _)

/-- The product with a number of at most one stays in range. -/
theorem mul?_of_le_one {x y : Binary64} (hx : x.IsFinite) (hy : y.ratio.1 ≤ y.ratio.2) :
    ∃ z, mul? x y = some z ∧ z.IsFinite := by
  unfold mul?
  apply ofRatio?_of_le _ (Nat.mul_pos x.ratio_pos y.ratio_pos)
  calc x.ratio.1 * y.ratio.1 ≤ largest * x.ratio.2 * y.ratio.2 := Nat.mul_le_mul hx.ratio_le hy
    _ = largest * (x.ratio.2 * y.ratio.2) := Nat.mul_assoc _ _ _

/-- Rounding to one decimal place stays in range. -/
theorem IsFinite.roundTenth? {x : Binary64} (hx : x.IsFinite) :
    ∃ z, Binary64.roundTenth? x = some z ∧ z.IsFinite := by
  unfold Binary64.roundTenth?
  apply ofRatio?_of_le _ (by decide)
  apply roundDiv_le_of_le x.ratio_pos
  calc 10 * x.ratio.1 ≤ 10 * (largest * x.ratio.2) := Nat.mul_le_mul_left 10 hx.ratio_le
    _ = largest * 10 * x.ratio.2 := by rw [← Nat.mul_assoc, Nat.mul_comm 10 largest]

/-! ## Integers beyond the range -/

/-- Rounding reaches an even integer from the upper half before it on. -/
theorem roundDiv_eq_iff {n d c : Nat} (hc : c % 2 = 0) (h : n < c * d) :
    roundDiv n d = c ↔ 2 * c * d ≤ 2 * n + d := by
  have hd : 0 < d := Nat.pos_of_lt_mul_left h
  have hq : n / d < c := (Nat.div_lt_iff_lt_mul hd).2 h
  have hn := Nat.div_add_mod n d
  have hr := Nat.mod_lt n hd
  have hexp : 2 * c * d = 2 * (d * c) := by rw [Nat.mul_assoc, Nat.mul_comm c d]
  rw [hexp]
  by_cases heq : n / d + 1 = c
  · have hmul : d * c = d * (n / d) + d := by rw [← heq, Nat.mul_add, Nat.mul_one]
    unfold roundDiv
    simp only
    split
    · omega
    · split
      · omega
      · rw [if_neg (by omega)]
        omega
  · have hle := roundDiv_le n d
    have hmul : d * (n / d + 2) ≤ d * c := Nat.mul_le_mul_left d (by omega)
    rw [Nat.mul_add] at hmul
    constructor
    · intro h
      omega
    · intro h
      omega

theorem lastPlace_one {n : Nat} (h : 2 ^ 52 ≤ n) : lastPlace n 1 = (n.log2 : Int) - 52 := by
  have hn : n ≠ 0 := by omega
  have hl : 52 ≤ n.log2 := (Nat.le_log2 hn).2 h
  have hg : firstGuess n 1 = ((n.log2 - 52 : Nat) : Int) := by
    unfold firstGuess
    rw [show Nat.log2 1 = 0 by decide]
    omega
  have hq : 2 ^ 52 ≤ n / 2 ^ (n.log2 - 52) := by
    rw [Nat.le_div_iff_mul_le (Nat.two_pow_pos _), ← Nat.pow_add,
      show 52 + (n.log2 - 52) = n.log2 by omega]
    exact Nat.log2_self_le hn
  rw [lastPlace_eq, hg, Int.toNat_natCast, show (-((n.log2 - 52 : Nat) : Int)).toNat = 0 by omega,
    Nat.pow_zero, Nat.mul_one, Nat.one_mul, if_neg (Nat.not_lt.2 hq)]
  omega

/-- Half of the last place of the largest double. -/
@[irreducible] def halfUnit : Nat := 2 ^ (topExponent - 1)

theorem halfUnit_pos : 0 < halfUnit := by
  unfold halfUnit
  exact Nat.two_pow_pos _

theorem two_pow_topExponent : 2 ^ topExponent = 2 * halfUnit := by
  have hpred : topExponent - 1 + 1 = topExponent := by decide
  unfold halfUnit
  rw [← Nat.pow_succ', Nat.succ_eq_add_one, hpred]

theorem two_pow_add_topExponent (k : Nat) : 2 ^ (k + topExponent) = 2 ^ k * (2 * halfUnit) := by
  rw [Nat.pow_add, two_pow_topExponent]

/-- The least natural number that is not rounded to a double: it is as near to the next
power of two as to the largest double. -/
@[irreducible] def overflow : Nat := largest + halfUnit

theorem overflow_add_halfUnit : overflow + halfUnit = 2 ^ 53 * (2 * halfUnit) := by
  unfold overflow largest
  rw [two_pow_topExponent, Nat.add_assoc, ← Nat.two_mul, ← Nat.succ_mul, Nat.succ_eq_add_one,
    Nat.sub_add_cancel (Nat.two_pow_pos 53)]

/-- At the top power of two, a coefficient is carried from `overflow` on. -/
theorem rounded_eq_iff {n : Nat} (h : n < 2 ^ (53 + topExponent))
    (he : lastPlace n 1 = (topExponent : Int)) : rounded n 1 = 2 ^ 53 ↔ overflow ≤ n := by
  have hneg : (-(topExponent : Int)).toNat = 0 := by omega
  rw [two_pow_add_topExponent] at h
  have hround : rounded n 1 = roundDiv n (2 * halfUnit) := by
    unfold rounded
    rw [he, Int.toNat_natCast, hneg, Nat.pow_zero, Nat.mul_one, Nat.one_mul, two_pow_topExponent]
  have hover := overflow_add_halfUnit
  rw [hround, roundDiv_eq_iff (by decide) h]
  omega

/-- A number has no double if its last place is beyond the top one, or carried beyond it. -/
theorem ofRatio?_eq_none_iff (s : Bool) {n d : Nat} (hn : n ≠ 0) :
    ofRatio? s n d = none ↔
      971 < lastPlace n d ∨ lastPlace n d = 971 ∧ rounded n d = 2 ^ 53 := by
  rw [ofRatio?_eq s hn]
  by_cases hb : rounded n d = 2 ^ 53
  · rw [if_pos hb, ite_eq_left_iff]
    constructor
    · intro h
      have hlt : 971 < lastPlace n d + 1 := Classical.byContradiction fun hnot => nomatch h hnot
      omega
    · intro h hnot
      omega
  · rw [if_neg hb, ite_eq_left_iff]
    constructor
    · intro h
      exact Or.inl (Classical.byContradiction fun hnot => nomatch h hnot)
    · intro h hnot
      rcases h with h | h
      · exact absurd h hnot
      · exact absurd h.2 hb

theorem ofRatio?_one_eq_none_iff (s : Bool) (n : Nat) :
    ofRatio? s n 1 = none ↔ overflow ≤ n := by
  have hover := overflow_add_halfUnit
  have hhalf := halfUnit_pos
  have htop : (topExponent : Int) = 971 := rfl
  by_cases hn : n = 0
  · subst hn
    exact iff_of_false nofun (by omega)
  · rw [ofRatio?_eq_none_iff s hn]
    rcases Nat.lt_or_ge n (2 ^ (52 + topExponent)) with hlt | hge
    · have he : lastPlace n 1 < (topExponent : Nat) :=
        lastPlace_lt hn Nat.one_pos (by decide) (by rw [Nat.mul_one]; exact hlt)
      rw [two_pow_add_topExponent] at hlt
      omega
    · have hlog : 52 + topExponent ≤ n.log2 := (Nat.le_log2 hn).2 hge
      rw [two_pow_add_topExponent] at hge
      have he : lastPlace n 1 = (n.log2 : Int) - 52 := lastPlace_one (by omega)
      rcases Nat.lt_or_ge n (2 ^ (53 + topExponent)) with hlt | hge'
      · have hlog' : n.log2 < 53 + topExponent := (Nat.log2_lt hn).2 hlt
        have he' : lastPlace n 1 = (topExponent : Int) := by omega
        rw [← rounded_eq_iff hlt he', he', htop]
        omega
      · have hlog' : 53 + topExponent ≤ n.log2 := (Nat.le_log2 hn).2 hge'
        rw [two_pow_add_topExponent] at hge'
        omega

/-- The integers without a double are those from `overflow` on, of either sign. -/
theorem ofInt?_eq_none_iff (k : Int) : ofInt? k = none ↔ overflow ≤ k.natAbs :=
  ofRatio?_one_eq_none_iff _ _

end Workflow.Binary64
