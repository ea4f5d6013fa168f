import Workflow.Time.Calendar

/-!
# Days and dates

Each day from year 1 on has a date, and the date tells the day.  The mean year of
146097 / 400 days finds the year, or the one before it; within the year the first
month that is not over is looked for.

    daysBeforeYear (yearOfDay n) ≤ n < daysBeforeYear (yearOfDay n + 1)    (yearOfDay_spec)
    dateOfDay n is a date of the calendar, and its day is n                (dateOfDay_spec)
-/

namespace Workflow.Calendar

/-- A day of a month of a year. -/
structure IsDate (year month day : Nat) : Prop where
  year_pos : 0 < year
  month_pos : 0 < month
  month_le : month ≤ 12
  day_pos : 0 < day
  day_le : day ≤ daysInMonth year month

/-! ## Years -/

theorem daysBeforeYear_eq (y : Nat) :
    daysBeforeYear y = (y - 1) * 365 + (y - 1) / 4 - (y - 1) / 100 + (y - 1) / 400 := rfl

theorem isLeap_eq (y : Nat) : isLeap y =
    if 400 ∣ y then true else if 100 ∣ y then false else decide (4 ∣ y) := by
  have hc : 100 ∣ y → 4 ∣ y := Nat.dvd_trans (by decide)
  have hq : 400 ∣ y → 100 ∣ y := Nat.dvd_trans (by decide)
  simp only [isLeap, ← Nat.dvd_iff_mod_eq_zero, ne_eq]
  by_cases h₄ : 4 ∣ y <;> by_cases h₁ : 100 ∣ y <;> by_cases h₂ : 400 ∣ y <;> simp_all

theorem daysBeforeYear_succ {y : Nat} (hy : 0 < y) :
    daysBeforeYear (y + 1) = daysBeforeYear y + if isLeap y then 366 else 365 := by
  obtain ⟨k, rfl⟩ : ∃ k, y = k + 1 := ⟨y - 1, by omega⟩
  have hle : k / 100 ≤ k / 4 := Nat.div_le_div_left (by decide) (by decide)
  have hc : 100 ∣ k + 1 → 4 ∣ k + 1 := Nat.dvd_trans (by decide)
  have hq : 400 ∣ k + 1 → 100 ∣ k + 1 := Nat.dvd_trans (by decide)
  rw [daysBeforeYear_eq, daysBeforeYear_eq, Nat.add_sub_cancel, Nat.add_sub_cancel, isLeap_eq]
  by_cases h₂ : 400 ∣ k + 1
  · rw [if_pos h₂, Nat.succ_div_of_dvd h₂, Nat.succ_div_of_dvd (hq h₂),
      Nat.succ_div_of_dvd (hc (hq h₂)), if_pos rfl]
    omega
  rw [if_neg h₂, Nat.succ_div_of_not_dvd h₂]
  by_cases h₁ : 100 ∣ k + 1
  · rw [if_pos h₁, Nat.succ_div_of_dvd h₁, Nat.succ_div_of_dvd (hc h₁), if_neg Bool.false_ne_true]
    omega
  rw [if_neg h₁, Nat.succ_div_of_not_dvd h₁]
  by_cases h₄ : 4 ∣ k + 1
  · rw [Nat.succ_div_of_dvd h₄, decide_eq_true h₄, if_pos rfl]
    omega
  · rw [Nat.succ_div_of_not_dvd h₄, decide_eq_false h₄, if_neg Bool.false_ne_true]
    omega

theorem daysBeforeYear_mono {y y' : Nat} (h : y ≤ y') : daysBeforeYear y ≤ daysBeforeYear y' := by
  induction h with
  | refl => exact Nat.le_refl _
  | @step k _ ih =>
    have hstep : daysBeforeYear k ≤ daysBeforeYear (k + 1) := by
      rw [daysBeforeYear_eq, daysBeforeYear_eq]
      omega
    exact Nat.le_trans ih hstep

/-- The mean year never leads beyond the day, and not by more than a year before it. -/
theorem yearOfDay_spec (n : Nat) :
    0 < yearOfDay n ∧ daysBeforeYear (yearOfDay n) ≤ n ∧ n < daysBeforeYear (yearOfDay n + 1) := by
  have hlow : ¬n < daysBeforeYear (n * 400 / 146097 + 1) := by
    rw [daysBeforeYear_eq]
    omega
  have hhigh : n < daysBeforeYear (n * 400 / 146097 + 1 + 1 + 1) := by
    rw [daysBeforeYear_eq]
    omega
  unfold yearOfDay
  simp only [if_neg hlow]
  split
  next h => exact ⟨Nat.succ_pos _, h, hhigh⟩
  next h => exact ⟨Nat.succ_pos _, Nat.not_lt.1 hlow, Nat.not_le.1 h⟩

/-! ## Months -/

theorem daysBeforeMonth_succ (y m : Nat) :
    daysBeforeMonth y (m + 1 + 1) = daysBeforeMonth y (m + 1) + daysInMonth y (m + 1) := by
  show (List.range (m + 1)).foldl _ 0 = _
  rw [List.range_succ, List.foldl_append]
  rfl

/-- A year ends with its twelfth month. -/
theorem daysBeforeMonth_thirteen (y : Nat) :
    daysBeforeMonth y 13 = if isLeap y then 366 else 365 := by
  unfold daysBeforeMonth daysInMonth
  cases isLeap y <;> decide

/-- Months that are over are passed until the day falls into one. -/
theorem monthAndDay_spec (y : Nat) {fuel m n : Nat}
    (h : n + daysBeforeMonth y (m + 1) < daysBeforeMonth y (m + 1 + fuel)) :
    ∃ month day, monthAndDay y fuel (m + 1) n = (month, day + 1) ∧ m + 1 ≤ month ∧
      month < m + 1 + fuel ∧ day < daysInMonth y month ∧
      daysBeforeMonth y month + day = n + daysBeforeMonth y (m + 1) := by
  induction fuel generalizing m n with
  | zero => exact absurd h (Nat.not_lt.2 (Nat.le_add_left _ _))
  | succ fuel ih =>
    unfold monthAndDay
    by_cases hn : n < daysInMonth y (m + 1)
    · rw [if_pos hn]
      exact ⟨m + 1, n, rfl, Nat.le_refl _, by omega, hn, Nat.add_comm _ _⟩
    · rw [if_neg hn]
      have hsucc := daysBeforeMonth_succ y m
      have hrest : n - daysInMonth y (m + 1) + daysBeforeMonth y (m + 1 + 1)
          < daysBeforeMonth y (m + 1 + 1 + fuel) := by
        rw [show m + 1 + 1 + fuel = m + 1 + (fuel + 1) by omega]
        omega
      obtain ⟨month, day, heq, hle, hlt, hday, hsum⟩ := ih hrest
      exact ⟨month, day, heq, by omega, by omega, hday, by omega⟩

/-! ## Dates -/

/-- A day has a date, whose day it is. -/
theorem dateOfDay_spec (n : Nat) :
    ∃ y m d, dateOfDay n = (y, m, d) ∧ IsDate y m d ∧ dayOfDate y m d = n := by
  obtain ⟨hy, hle, hlt⟩ := yearOfDay_spec n
  rw [daysBeforeYear_succ hy, ← daysBeforeMonth_thirteen] at hlt
  have hfirst : daysBeforeMonth (yearOfDay n) (0 + 1) = 0 := rfl
  have hfits : n - daysBeforeYear (yearOfDay n) + daysBeforeMonth (yearOfDay n) (0 + 1)
      < daysBeforeMonth (yearOfDay n) (0 + 1 + 12) := by
    show _ < daysBeforeMonth (yearOfDay n) 13
    omega
  obtain ⟨month, day, heq, hpos, hmonth, hday, hsum⟩ := monthAndDay_spec (yearOfDay n) hfits
  refine ⟨yearOfDay n, month, day + 1, ?_, ⟨hy, by omega, by omega, by omega, hday⟩, ?_⟩
  · show ((yearOfDay n), monthAndDay (yearOfDay n) 12 (0 + 1) _) = _
    rw [heq]
  · show daysBeforeYear (yearOfDay n) + daysBeforeMonth (yearOfDay n) month + day = n
    omega

/-- The days before year 10000 are in years of four digits. -/
theorem year_le_of_lt {y m d : Nat} (h : dayOfDate y m d < dayOfDate 10000 1 1) : y ≤ 9999 := by
  refine Nat.not_lt.1 fun hy => ?_
  have hmono : daysBeforeYear 10000 ≤ daysBeforeYear y := daysBeforeYear_mono hy
  have hfirst : dayOfDate 10000 1 1 = daysBeforeYear 10000 := rfl
  have hle : daysBeforeYear y ≤ dayOfDate y m d := by
    unfold dayOfDate
    omega
  omega

theorem daysInMonth_le (y m : Nat) : daysInMonth y m ≤ 31 := by
  unfold daysInMonth
  split
  · split <;> decide
  · split <;> decide

end Workflow.Calendar
