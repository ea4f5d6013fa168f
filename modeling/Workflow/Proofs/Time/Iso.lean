import Mathlib.Algebra.Group.Nat.Defs
import Workflow.Proofs.Except
import Workflow.Proofs.Time.Calendar
import Workflow.Time.Iso

/-!
# Timestamps are read back

A timestamp is written with all the fields of its date and its time in the extended
form, each of a fixed number of digits, so reading one field leaves what is written
after it.  The offset of a zone is read back if it has whole seconds or more: one of
less than a second is read as universal time.

    digits? w (padded w n ++ rest) = some (n, rest)       (digits?_padded)
    t is a date and time → ofText t.text = .ok t          (ofText_text)
    its zone is off by whole minutes → ofText t.responseText = .ok t    (ofText_responseText)
-/

namespace Workflow

namespace Timestamp

/-- A reading of a clock in the years 1 to 9999, in a zone less than a day away, if any. -/
structure IsDatetime (t : Timestamp) : Prop where
  clock_nonneg : 0 ≤ t.clock
  clock_lt : t.clock < (Calendar.dayOfDate 10000 1 1 : Nat) * day
  offset_lt : ∀ o ∈ t.offset, o.natAbs < day.natAbs
  /-- the zone is not off by a fraction of a second only -/
  offset_ge : ∀ o ∈ t.offset, o = 0 ∨ second.natAbs ≤ o.natAbs

/-- Any reading of universal time in these years is a date and time. -/
theorem IsDatetime.universal {clock : Int} (h₀ : 0 ≤ clock)
    (h : clock < (Calendar.dayOfDate 10000 1 1 : Nat) * day) : IsDatetime ⟨clock, some 0⟩ where
  clock_nonneg := h₀
  clock_lt := h
  offset_lt := by
    rintro o ⟨⟩
    decide
  offset_ge := by
    rintro o ⟨⟩
    exact .inl rfl

end Timestamp

namespace Iso

open Timestamp (padded microsecondText)

/-! ## Fields -/

theorem toList_padded (w n : Nat) : (padded w n).toList
    = List.replicate (w - (Nat.toDigits 10 n).length) '0' ++ Nat.toDigits 10 n := by
  unfold padded Nat.repr
  rw [String.toList_append, String.toList_ofList, String.toList_ofList, String.length_ofList]

theorem length_padded (w : Nat) {n : Nat} (hw : 0 < w) (h : n < 10 ^ w) :
    (padded w n).toList.length = w := by
  have hlen := (Nat.length_toDigits_le_iff (by decide) hw).2 h
  rw [toList_padded, List.length_append, List.length_replicate]
  omega

theorem padded_ne_nil (w : Nat) {n : Nat} (hw : 0 < w) (h : n < 10 ^ w) :
    (padded w n).toList ≠ [] := by
  have hlen := length_padded w hw h
  exact List.ne_nil_of_length_pos (by omega)

theorem isDigit_of_mem_padded {w n : Nat} {c : Char} (hc : c ∈ (padded w n).toList) :
    c.isDigit = true := by
  rw [toList_padded] at hc
  rcases List.mem_append.1 hc with hc | hc
  · rw [List.eq_of_mem_replicate hc]
    rfl
  · exact Nat.isDigit_of_mem_toDigits (by decide) (by decide) hc

/-- A field starts with a digit. -/
theorem head?_padded (w : Nat) {n : Nat} (hw : 0 < w) (h : n < 10 ^ w) :
    ∃ c, (padded w n).toList.head? = some c ∧ c.isDigit = true := by
  obtain ⟨c, cs, hcs⟩ := List.exists_cons_of_ne_nil (padded_ne_nil w hw h)
  exact ⟨c, hcs ▸ rfl, isDigit_of_mem_padded (hcs ▸ List.mem_cons_self)⟩

/-- A field is read up to its last digit. -/
theorem digits?_padded (w : Nat) {n : Nat} (hw : 0 < w) (h : n < 10 ^ w) (rest : List Char) :
    digits? w ((padded w n).toList ++ rest) = some (n, rest) := by
  have hlen := length_padded w hw h
  have hvalue : Nat.ofDigitChars 10 (padded w n).toList 0 = n := by
    rw [toList_padded, Nat.ofDigitChars_append, Nat.ofDigitChars_replicate_zero, Nat.mul_zero]
    exact Nat.ofDigitChars_ten_toDigits
  unfold digits?
  rw [List.take_left' hlen, List.drop_left' hlen]
  dsimp only
  rw [hvalue]
  exact if_pos ⟨hlen, List.all_eq_true.2 fun c hc => isDigit_of_mem_padded hc⟩

/-! ## Dates -/

/-- A date of month and day in the extended form ends after ten characters. -/
theorem dateLength?_extended {year month rest : List Char} (hy : year.length = 4)
    (hm : month.length = 2) (hw : month.head? ≠ some 'W') (hr : 3 ≤ rest.length) :
    dateLength? (year ++ '-' :: (month ++ rest)) = some 10 := by
  have h₄ : (year ++ '-' :: (month ++ rest))[4]? = some '-' := by
    rw [List.getElem?_append_right (by omega), hy]
    rfl
  have h₅ : (year ++ '-' :: (month ++ rest))[5]? = month.head? := by
    rw [List.getElem?_append_right (by omega), hy]
    show (month ++ rest)[0]? = _
    rw [List.getElem?_append_left (by omega), List.head?_eq_getElem?]
  have hlen : (year ++ '-' :: (month ++ rest)).length = 7 + rest.length := by
    simp only [List.length_append, List.length_cons, hy, hm]
    omega
  unfold dateLength?
  rw [h₄, h₅, hlen, if_neg (by omega), if_neg (by omega), if_pos rfl, if_neg hw]

theorem date?_padded {y m d : Nat} (hy : y < 10000) (hm : m < 100) (hd : d < 100) :
    date? ((padded 4 y).toList ++ '-' :: ((padded 2 m).toList ++ '-' :: (padded 2 d).toList))
      = some (y, m, d) := by
  have hday := digits?_padded 2 (by decide) hd []
  rw [List.append_nil] at hday
  obtain ⟨c, hhead, hdigit⟩ := head?_padded 2 (by decide) hm
  have hw : c ≠ 'W' := by
    rintro rfl
    cases hdigit
  unfold date?
  rw [digits?_padded 4 (by decide) hy]
  simp [hhead, hw, digits?_padded 2 (by decide) hm, hyphen?, hday]

/-! ## Times -/

section

variable {fields : List Nat} {colons : Option Bool} {n v us : Nat}

/-- A colon after a field goes on to the next one. -/
theorem clockFrom?_colon (hv : v < 100) (hc : colons.getD true = true) {rest : List Char}
    (hrest : rest ≠ []) :
    clockFrom? (n + 1) fields colons ((padded 2 v).toList ++ ':' :: rest)
      = clockFrom? n (fields ++ [v]) (some true) rest := by
  obtain ⟨c, cs, rfl⟩ := List.exists_cons_of_ne_nil hrest
  rw [clockFrom?.eq_2, digits?_padded 2 (by decide) hv]
  simp [hc]

theorem clockFrom?_end (hv : v < 100) :
    clockFrom? (n + 1) fields colons (padded 2 v).toList = some ⟨fields ++ [v], 0, false⟩ := by
  have hdigits := digits?_padded 2 (by decide) hv []
  rw [List.append_nil] at hdigits
  unfold clockFrom?
  rw [hdigits]
  rfl

theorem fraction?_padded (hus : us < 1000000) :
    fraction? fields (padded 6 us).toList = some ⟨fields, us, false⟩ := by
  have hdigits := digits?_padded 6 (by decide) hus []
  rw [List.append_nil] at hdigits
  have hlen := length_padded 6 (by decide) hus
  unfold fraction?
  simp only [hlen, Nat.min_self, hdigits]
  simp [isLeft]

/-- Microseconds are written as a fraction, unless there are none. -/
theorem clockFrom?_microsecondText (hv : v < 100) (hus : us < 1000000) :
    clockFrom? (n + 1) fields colons ((padded 2 v).toList ++ (microsecondText us).toList)
      = some ⟨fields ++ [v], us, false⟩ := by
  unfold microsecondText
  by_cases hzero : us = 0
  · rw [if_pos hzero, hzero]
    show clockFrom? (n + 1) fields colons ((padded 2 v).toList ++ []) = _
    rw [List.append_nil]
    exact clockFrom?_end hv
  · rw [if_neg hzero, String.toList_append]
    show clockFrom? (n + 1) fields colons ((padded 2 v).toList ++ '.' :: (padded 6 us).toList) = _
    obtain ⟨c, cs, hcs⟩ := List.exists_cons_of_ne_nil (padded_ne_nil 6 (by decide) hus)
    rw [clockFrom?.eq_2, digits?_padded 2 (by decide) hv]
    have hfraction : fraction? (fields ++ [v]) _ = _ := fraction?_padded hus
    rw [hcs] at hfraction ⊢
    simpa using hfraction

/-- Hours, minutes and seconds, with a fraction. -/
theorem clock?_padded {h m s us : Nat} (hh : h < 100) (hm : m < 100) (hs : s < 100)
    (hus : us < 1000000) :
    clock? ((padded 2 h).toList ++ ':' :: ((padded 2 m).toList ++ ':' ::
        ((padded 2 s).toList ++ (microsecondText us).toList)))
      = some ⟨[h, m, s], us, false⟩ := by
  have hminutes : (padded 2 m).toList ++ ':' ::
      ((padded 2 s).toList ++ (microsecondText us).toList) ≠ [] := by simp
  have hseconds : (padded 2 s).toList ++ (microsecondText us).toList ≠ [] :=
    List.append_ne_nil_of_left_ne_nil (padded_ne_nil 2 (by decide) hs) _
  unfold clock?
  rw [clockFrom?_colon hh rfl hminutes, clockFrom?_colon hm rfl hseconds,
    clockFrom?_microsecondText hs hus]
  rfl

/-- Hours and minutes alone. -/
theorem clock?_minutes {h m : Nat} (hh : h < 100) (hm : m < 100) :
    clock? ((padded 2 h).toList ++ ':' :: (padded 2 m).toList) = some ⟨[h, m], 0, false⟩ := by
  unfold clock?
  rw [clockFrom?_colon hh rfl (padded_ne_nil 2 (by decide) hm), clockFrom?_end hm]
  rfl

end

/-! ## Zones -/

section

open Timestamp (offsetText parts day second)

/-- The parts of a span shorter than a day are those of a clock. -/
theorem parts_lt {n : Nat} (h : n < day.natAbs) :
    (parts n).1 < 24 ∧ (parts n).2.1 < 60 ∧ (parts n).2.2.1 < 60 ∧ (parts n).2.2.2 < 1000000 := by
  have h : n < 86400000000 := h
  show n / 3600000000 < 24 ∧ n / 60000000 % 60 < 60 ∧ n / 1000000 % 60 < 60 ∧ n % 1000000 < 1000000
  omega

theorem parts_sum (n : Nat) :
    (parts n).1 * 3600 + (parts n).2.1 * 60 + (parts n).2.2.1 = n / 1000000 := by
  show n / 3600000000 * 3600 + n / 60000000 % 60 * 60 + n / 1000000 % 60 = n / 1000000
  omega

/-- What is written of a zone after its sign. -/
def zoneText (n : Nat) : List Char :=
  (padded 2 (parts n).1).toList ++ ':' :: ((padded 2 (parts n).2.1).toList ++
    if (parts n).2.2.1 = 0 ∧ (parts n).2.2.2 = 0 then [] else
      ':' :: ((padded 2 (parts n).2.2.1).toList ++ (microsecondText (parts n).2.2.2).toList))

theorem toList_offsetText (o : Int) :
    (offsetText o).toList = (if o < 0 then '-' else '+') :: zoneText o.natAbs := by
  unfold offsetText zoneText
  dsimp only
  split <;> split <;> simp

/-- The time of a zone is read as a clock. -/
theorem clock?_zoneText {n : Nat} (h : n < day.natAbs) :
    ∃ clock : Clock, clock? (zoneText n) = some clock ∧ clock.more = false ∧
      clock.hms = ((parts n).1, (parts n).2.1, (parts n).2.2.1) ∧
      clock.micros = (parts n).2.2.2 := by
  obtain ⟨hh, hm, hs, hus⟩ := parts_lt h
  unfold zoneText
  by_cases hzero : (parts n).2.2.1 = 0 ∧ (parts n).2.2.2 = 0
  · rw [if_pos hzero, List.append_nil, hzero.1, hzero.2]
    exact ⟨_, clock?_minutes (by omega) (by omega), rfl, rfl, rfl⟩
  · rw [if_neg hzero]
    exact ⟨_, clock?_padded (by omega) (by omega) (by omega) hus, rfl, rfl, rfl⟩

/-- A zone that is off by a second or more, or not at all, is read back. -/
theorem zone?_offsetText {o : Int} (hlt : o.natAbs < day.natAbs)
    (hge : o = 0 ∨ second.natAbs ≤ o.natAbs) : zone? (offsetText o).toList = some o := by
  obtain ⟨clock, hclock, hmore, hhms, hmicros⟩ := clock?_zoneText hlt
  have hge : o = 0 ∨ 1000000 ≤ o.natAbs := hge
  have hrest : (parts o.natAbs).2.2.2 = o.natAbs % 1000000 := rfl
  have hspan : (if o.natAbs / 1000000 = 0 then (0 : Int)
      else (o.natAbs / 1000000 : Nat) * 1000000 + clock.micros) = o.natAbs := by
    rw [hmicros, hrest]
    split
    · omega
    · omega
  have hread : ∀ mark, mark ≠ 'Z' → zone? (mark :: zoneText o.natAbs)
      = some (if mark = '-' then -(o.natAbs : Int) else o.natAbs) := by
    intro mark hz
    rw [zone?.eq_2 _ _ hz, hclock]
    simp only [Option.bind_eq_bind, Option.bind_some, hmore, hhms, parts_sum, hspan]
    rfl
  rw [toList_offsetText]
  by_cases hneg : o < 0
  · rw [if_pos hneg, hread '-' (by decide), if_pos rfl]
    exact congrArg some (by omega)
  · rw [if_neg hneg, hread '+' (by decide), if_neg (by decide)]
    exact congrArg some (by omega)

end

/-! ## Texts -/

section

open Timestamp (clockText parts day)

/-- What is written of a time of day. -/
def clockChars (n : Nat) : List Char :=
  (padded 2 (parts n).1).toList ++ ':' :: ((padded 2 (parts n).2.1).toList ++ ':' ::
    ((padded 2 (parts n).2.2.1).toList ++ (microsecondText (parts n).2.2.2).toList))

theorem clock?_clockChars {n : Nat} (h : n < day.natAbs) : clock? (clockChars n)
    = some ⟨[(parts n).1, (parts n).2.1, (parts n).2.2.1], (parts n).2.2.2, false⟩ := by
  obtain ⟨hh, hm, hs, hus⟩ := parts_lt h
  exact clock?_padded (by omega) (by omega) (by omega) hus

theorem isZoneMark_of_isDigit {c : Char} (h : c.isDigit = true) : isZoneMark c = false := by
  unfold isZoneMark
  have hne : ∀ m : Char, m.isDigit = false → c ≠ m := by
    rintro m hm rfl
    rw [h] at hm
    cases hm
  simp [hne '+' rfl, hne '-' rfl, hne 'Z' rfl]

theorem isZoneMark_clockChars (n : Nat) : ∀ c ∈ clockChars n, isZoneMark c = false := by
  have hcolon : isZoneMark ':' = false := rfl
  have hpoint : isZoneMark '.' = false := rfl
  have hdigits : ∀ w k, ∀ c ∈ (padded w k).toList, isZoneMark c = false :=
    fun w k c hc => isZoneMark_of_isDigit (isDigit_of_mem_padded hc)
  have hmicros : ∀ k, ∀ c ∈ (microsecondText k).toList, isZoneMark c = false := by
    intro k c hc
    unfold microsecondText at hc
    split at hc
    · cases hc
    · rw [String.toList_append] at hc
      rcases List.mem_append.1 hc with hc | hc
      · obtain rfl : c = '.' := by simpa using hc
        exact hpoint
      · exact hdigits 6 k c hc
  intro c hc
  unfold clockChars at hc
  simp only [List.mem_append, List.mem_cons] at hc
  rcases hc with hc | rfl | hc | rfl | hc | hc
  · exact hdigits _ _ c hc
  · exact hcolon
  · exact hdigits _ _ c hc
  · exact hcolon
  · exact hdigits _ _ c hc
  · exact hmicros _ c hc

/-- A time of day ends at the mark of its zone. -/
theorem takeWhile_clockChars (n : Nat) {zone : List Char}
    (hz : ∀ c ∈ zone.head?, isZoneMark c = true) :
    (clockChars n ++ zone).takeWhile (!isZoneMark ·) = clockChars n ∧
      (clockChars n ++ zone).dropWhile (!isZoneMark ·) = zone := by
  have hall : ∀ c ∈ clockChars n, (!isZoneMark c) = true := by
    intro c hc
    rw [isZoneMark_clockChars n c hc]
    rfl
  rw [List.takeWhile_append_of_pos hall, List.dropWhile_append_of_pos hall]
  cases zone with
  | nil => exact ⟨List.append_nil _, rfl⟩
  | cons c rest =>
    rw [List.takeWhile_cons_of_neg (by simp [hz c rfl]),
      List.dropWhile_cons_of_neg (by simp [hz c rfl])]
    exact ⟨List.append_nil _, rfl⟩

/-- The time that is read of what is written of a time of day. -/
def clockOf (n : Nat) : Clock :=
  ⟨[(parts n).1, (parts n).2.1, (parts n).2.2.1], (parts n).2.2.2, false⟩

/-- A time of day is read with the offset of the zone that is written after it. -/
theorem time?_of_zone? {n : Nat} (h : n < day.natAbs) {zone : List Char} {o : Int}
    (hhead : ∃ mark ∈ zone.head?, isZoneMark mark = true) (hz : zone? zone = some o) :
    time? (clockChars n ++ zone) = some (clockOf n, some o) := by
  have hclock : clock? (clockChars n) = some (clockOf n) := clock?_clockChars h
  obtain ⟨mark, hmark, hzone⟩ := hhead
  obtain ⟨htake, hdrop⟩ := takeWhile_clockChars n fun c hc => by
    obtain rfl := Option.some.inj (hmark.symm.trans hc)
    exact hzone
  have hne : zone.isEmpty = false := by
    cases zone with
    | nil => cases hmark
    | cons c rest => rfl
  unfold time?
  simp only [htake, hdrop, hclock, hne, hz, Option.bind_eq_bind, Option.bind_some,
    Bool.false_eq_true, if_false, Option.pure_def]

/-- A time of day is read with the offset of its zone. -/
theorem time?_clockChars {n : Nat} (h : n < day.natAbs) {offset : Option Int}
    (hlt : ∀ o ∈ offset, o.natAbs < day.natAbs)
    (hge : ∀ o ∈ offset, o = 0 ∨ Timestamp.second.natAbs ≤ o.natAbs) :
    time? (clockChars n ++ (offset.map Timestamp.offsetText).elim [] String.toList)
      = some (clockOf n, offset) := by
  cases offset with
  | none =>
    have hclock : clock? (clockChars n) = some (clockOf n) := clock?_clockChars h
    have hmore : (clockOf n).more = false := rfl
    obtain ⟨htake, hdrop⟩ := @takeWhile_clockChars n [] nofun
    unfold time?
    simp only [Option.map_none, Option.elim_none, htake, hdrop, hclock, hmore,
      Option.bind_eq_bind, Option.bind_some, List.isEmpty_nil, if_true, Bool.false_eq_true,
      if_false, Option.pure_def]
  | some o =>
    refine time?_of_zone? h ⟨if o < 0 then '-' else '+', ?_, ?_⟩
      (zone?_offsetText (hlt o rfl) (hge o rfl))
    · exact congrArg List.head? (toList_offsetText o)
    · split <;> rfl

end

/-- What is written of a date. -/
def dateChars (y m d : Nat) : List Char :=
  (padded 4 y).toList ++ '-' :: ((padded 2 m).toList ++ '-' :: (padded 2 d).toList)

/-- A date is read up to the mark of its time. -/
theorem fields?_dateChars {y m d : Nat} (hy : y < 10000) (hm : m < 100) (hd : d < 100)
    {text : String} {rest : List Char} (ht : text.toList = dateChars y m d ++ 'T' :: rest)
    {clock : Clock} {offset : Option Int} (hr : time? rest = some (clock, offset)) :
    fields? text = some ((y, m, d), clock, offset) := by
  have hlen : (dateChars y m d).length = 10 := by
    unfold dateChars
    simp only [List.length_append, List.length_cons, length_padded 4 (by decide) hy,
      length_padded 2 (by decide) hm, length_padded 2 (by decide) hd]
  have hstop : dateLength? (dateChars y m d ++ 'T' :: rest) = some 10 := by
    obtain ⟨c, hhead, hdigit⟩ := head?_padded 2 (by decide) hm
    have hw : (padded 2 m).toList.head? ≠ some 'W' := by
      rw [hhead]
      rintro ⟨⟩
      cases hdigit
    have hrest : 3 ≤ ('-' :: (padded 2 d).toList ++ 'T' :: rest).length := by
      simp only [List.cons_append, List.length_cons, List.length_append,
        length_padded 2 (by decide) hd]
      omega
    have hlong := dateLength?_extended (length_padded 4 (by decide) hy)
      (length_padded 2 (by decide) hm) hw hrest
    rwa [← List.append_assoc, ← List.cons_append, ← List.append_assoc] at hlong
  unfold fields?
  rw [ht]
  simp only [Option.bind_eq_bind, hstop, Option.bind_some, List.take_left' hlen,
    List.drop_left' hlen, hr, Option.pure_def]
  unfold dateChars
  rw [date?_padded hy hm hd]
  rfl

end Iso

namespace Timestamp

open Iso

/-- The day and the time of day of a clock. -/
theorem clock_eq {t : Timestamp} (h : 0 ≤ t.clock) :
    t.clock = (t.clock.fdiv day).toNat * day + (t.clock.fmod day).toNat ∧
      (t.clock.fmod day).toNat < day.natAbs := by
  have hday : (0 : Int) < day := by decide
  have hdiv : 0 ≤ t.clock.fdiv day := Int.fdiv_nonneg h (Int.le_of_lt hday)
  have hmod : 0 ≤ t.clock.fmod day := Int.fmod_nonneg h (Int.le_of_lt hday)
  have hlt : t.clock.fmod day < day := Int.fmod_lt_of_pos _ hday
  have hsum : t.clock.fmod day + day * t.clock.fdiv day = t.clock := Int.fmod_add_mul_fdiv _ _
  rw [Int.toNat_of_nonneg hdiv, Int.toNat_of_nonneg hmod, Int.mul_comm, Int.add_comm]
  exact ⟨hsum.symm, by omega⟩

theorem toList_clockText (t : Timestamp) {y m d : Nat}
    (h : Calendar.dateOfDay (t.clock.fdiv day).toNat = (y, m, d)) :
    t.clockText.toList = dateChars y m d ++ 'T' :: clockChars (t.clock.fmod day).toNat := by
  unfold clockText dateChars clockChars
  dsimp only
  rw [h]
  simp

/-- A date and time is read back from the text of its clock and one of its zone, if the zone is
read back. -/
theorem ofText_of_time? {t : Timestamp} (h : t.IsDatetime) {zone : String}
    (htime : time? (clockChars (t.clock.fmod day).toNat ++ zone.toList)
      = some (clockOf (t.clock.fmod day).toNat, t.offset)) :
    ofText (t.clockText ++ zone) = .ok t := by
  obtain ⟨hclock, hr⟩ := clock_eq h.clock_nonneg
  obtain ⟨y, m, d, hdate, hvalid, hday⟩ := Calendar.dateOfDay_spec (t.clock.fdiv day).toNat
  have hchars : (t.clockText ++ zone).toList = dateChars y m d ++ 'T' ::
      (clockChars (t.clock.fmod day).toNat ++ zone.toList) := by
    rw [String.toList_append, toList_clockText t hdate, List.append_assoc, List.cons_append]
  generalize (t.clock.fdiv day).toNat = n at hclock hday
  generalize (t.clock.fmod day).toNat = r at hclock hr hchars htime
  have hlength : day = 86400000000 := rfl
  have hlt := h.clock_lt
  rw [hclock, hlength] at hlt
  have hy : y ≤ 9999 := by
    have hbound : Calendar.dayOfDate y m d < Calendar.dayOfDate 10000 1 1 := by
      rw [hday]
      omega
    exact Calendar.year_le_of_lt hbound
  have hd : d ≤ 31 := Nat.le_trans hvalid.day_le (Calendar.daysInMonth_le y m)
  have hm := hvalid.month_le
  have hfields := fields?_dateChars (by omega) (by omega) (by omega) hchars htime
  have hoffset : checkOffset t.offset = .ok () := by
    cases ho : t.offset with
    | none => rfl
    | some o => exact if_pos (h.offset_lt o ho)
  have hchecked : checkDate y m d = .ok () := by
    have hy₀ := hvalid.year_pos
    have hm₀ := hvalid.month_pos
    have hd₀ := hvalid.day_pos
    have hd₁ := hvalid.day_le
    unfold checkDate
    rw [if_neg (by omega), if_neg (by omega), if_neg (by omega)]
  obtain ⟨h₁, h₂, h₃, -⟩ := parts_lt hr
  have hfit : checkTime (parts r).1 (parts r).2.1 (parts r).2.2.1 = .ok () := by
    unfold checkTime
    rw [if_neg (by omega), if_neg (by omega), if_neg (by omega)]
  have hsum := parts_sum r
  have hmicros : (parts r).2.2.2 = r % 1000000 := rfl
  have hclocked : (clockOf r).hms = ((parts r).1, (parts r).2.1, (parts r).2.2.1) := rfl
  unfold ofText
  rw [hfields]
  simp only [hclocked, hoffset, hchecked, hfit]
  obtain ⟨clock, offset⟩ := t
  refine congrArg Except.ok (congrArg (Timestamp.mk · offset) ?_)
  rw [hday]
  show ((n * 86400 + (parts r).1 * 3600 + (parts r).2.1 * 60 + (parts r).2.2.1 : Nat) : Int)
    * 1000000 + (parts r).2.2.2 = clock
  have hclock : clock = n * day + r := hclock
  rw [hclock, hlength, hmicros]
  omega

/-- A date and time is read back from its text. -/
theorem ofText_text {t : Timestamp} (h : t.IsDatetime) : ofText t.text = .ok t := by
  obtain ⟨-, hr⟩ := clock_eq h.clock_nonneg
  have htime := time?_clockChars hr h.offset_lt h.offset_ge
  unfold text
  refine ofText_of_time? h ?_
  cases ho : t.offset with
  | none => simpa [ho] using htime
  | some o => simpa [ho] using htime

/-! ## Responses -/

/-- The zone, if there is one, is off by whole minutes. -/
def InMinutes (t : Timestamp) : Prop := ∀ o ∈ t.offset, minute ∣ o

/-- What a response shows of a zone that is off by whole minutes. -/
theorem responseMinutes_mul {k : Int} (h : (k * minute).natAbs < day.natAbs) :
    responseMinutes (k * minute) = k.natAbs := by
  have hminute : minute = 60 * 1000000 := rfl
  have hday : day.natAbs = 86400000000 := rfl
  have hseconds : (k * minute).fdiv second = k * 60 := by
    rw [hminute, ← Int.mul_assoc]
    exact Int.mul_fdiv_cancel _ (by decide)
  unfold responseMinutes
  rw [hseconds]
  rw [hminute, hday] at h
  omega

/-- Nothing is left of whole minutes to be written after them. -/
theorem offsetText_mul {k : Int} : offsetText (k * minute)
    = (if k * minute < 0 then "-" else "+") ++ padded 2 (k.natAbs / 60) ++ ":"
      ++ padded 2 (k.natAbs % 60) := by
  have hparts : parts (k * minute).natAbs = (k.natAbs / 60, k.natAbs % 60, 0, 0) := by
    have hspan : (k * minute).natAbs = k.natAbs * 60000000 := Int.natAbs_mul _ _
    unfold parts
    rw [hspan]
    refine Prod.ext ?_ (Prod.ext ?_ (Prod.ext ?_ ?_)) <;> dsimp only <;> omega
  unfold offsetText
  rw [hparts]
  simp only [and_self, if_true, String.append_empty]

/-- A date and time whose zone is off by whole minutes is read back from a response. -/
theorem ofText_responseText {t : Timestamp} (h : t.IsDatetime) (hm : t.InMinutes) :
    ofText t.responseText = .ok t := by
  obtain ⟨-, hr⟩ := clock_eq h.clock_nonneg
  unfold responseText
  refine ofText_of_time? h ?_
  cases ho : t.offset with
  | none => exact @time?_clockChars _ hr none nofun nofun
  | some o =>
    obtain ⟨k, hk⟩ := hm o ho
    obtain rfl : o = k * minute := hk.trans (Int.mul_comm _ _)
    dsimp only
    rw [responseMinutes_mul (h.offset_lt _ ho)]
    by_cases hzero : k = 0
    · subst hzero
      exact time?_of_zone? hr ⟨'Z', rfl, rfl⟩ rfl
    · rw [if_neg (by omega), ← offsetText_mul]
      refine @time?_clockChars _ hr (some (k * minute)) ?_ ?_
      · rw [← ho]
        exact h.offset_lt
      · rw [← ho]
        exact h.offset_ge

end Timestamp

end Workflow
