import Workflow.Text.Quoted
import Workflow.Time.Timestamp

/-!
# Reading ISO 8601 timestamps

A date is written in the extended or the basic form, by month and day or by week
and day of the week.  Any one character separates it from the time, whose fields
have colons throughout or nowhere; a fraction has a point or a comma and counts
to six digits.  A zone is `Z` or a signed time.
-/

namespace Workflow

/-- Why a text is no timestamp. -/
inductive TimestampFault where
  | notIso (s : String)
  | yearOutOfRange (year : Nat)
  | monthOutOfRange
  | dayOutOfRange
  | hourOutOfRange
  | minuteOutOfRange
  | secondOutOfRange
  | offsetOutOfRange (offset : Int)
  deriving DecidableEq, Repr

namespace TimestampFault

/-- A span as days, seconds and microseconds, of which only the days may be negative. -/
def spanText (n : Int) : String :=
  let days := n.fdiv Timestamp.day
  let rest := n.fmod Timestamp.day
  let seconds := rest / Timestamp.second
  let micros := rest % Timestamp.second
  let part := fun (name : String) (k : Int) =>
    if k = 0 then [] else [name ++ "=" ++ Value.intText k]
  let shown := part "days" days ++ part "seconds" seconds ++ part "microseconds" micros
  "datetime.timedelta(" ++ (if shown.isEmpty then "0" else Value.commaSeparated shown) ++ ")"

def message : TimestampFault → String
  | notIso s => "Invalid isoformat string: " ++ Text.quote s
  | yearOutOfRange y => "year " ++ Nat.repr y ++ " is out of range"
  | monthOutOfRange => "month must be in 1..12"
  | dayOutOfRange => "day is out of range for month"
  | hourOutOfRange => "hour must be in 0..23"
  | minuteOutOfRange => "minute must be in 0..59"
  | secondOutOfRange => "second must be in 0..59"
  | offsetOutOfRange n =>
    "offset must be a timedelta strictly between -timedelta(hours=24) and timedelta(hours=24), not "
      ++ spanText n ++ "."

end TimestampFault

namespace Iso

/-! ## Date -/

/-- A number of exactly `n` digits, and the rest. -/
def digits? (n : Nat) (cs : List Char) : Option (Nat × List Char) :=
  let ds := cs.take n
  if ds.length = n ∧ ds.all Char.isDigit then some (Nat.ofDigitChars 10 ds 0, cs.drop n) else none

def isDigitAt (cs : List Char) (i : Nat) : Bool := (cs[i]?).any Char.isDigit

/-- Where the date ends.  A week may lack its day: in the basic form the parity of the
digits that follow tells, in the extended form a hyphen before two digits separates. -/
def dateLength? (cs : List Char) : Option Nat :=
  if cs.length < 7 then none
  else if cs.length = 7 then some 7
  else if cs[4]? = some '-' then
    if cs[5]? = some 'W' then
      if cs[8]? = some '-' then
        if cs.length = 9 then none else if isDigitAt cs 10 then some 8 else some 10
      else some 8
    else some 10
  else if cs[4]? = some 'W' then
    let stop := 7 + ((cs.drop 7).takeWhile Char.isDigit).length
    if stop < 9 then some stop else if stop % 2 = 0 then some 7 else some 8
  else some 8

/-- The date of a day of a week.  The weeks of the year 0, which no calendar holds, have
the month 0, which none holds either. -/
def weekDate? (year week day : Nat) : Option (Nat × Nat × Nat) :=
  if week = 0 ∨ 53 < week ∨ (week = 53 ∧ (year = 0 ∨ !Calendar.hasWeek53 year))
      ∨ day = 0 ∨ 7 < day then
    none
  else if year = 0 then some (1, 0, day)
  else
    let n := Calendar.firstMonday year + ((week : Int) - 1) * 7 + ((day : Int) - 1)
    if n < 0 then none else some (Calendar.dateOfDay n.toNat)

/-- A hyphen, if hyphens are in use. -/
def hyphen? (used : Bool) (cs : List Char) : Option (List Char) :=
  if used then (match cs with | '-' :: rest => some rest | _ => none) else some cs

def date? (cs : List Char) : Option (Nat × Nat × Nat) := do
  let (year, cs) ← digits? 4 cs
  let extended := cs.head? == some '-'
  let cs := if extended then cs.drop 1 else cs
  if cs.head? == some 'W' then
    let (week, cs) ← digits? 2 (cs.drop 1)
    if cs.isEmpty then weekDate? year week 1
    else
      let cs ← hyphen? extended cs
      let (day, _) ← digits? 1 cs
      weekDate? year week day
  else
    let (month, cs) ← digits? 2 cs
    let cs ← hyphen? extended cs
    let (day, _) ← digits? 2 cs
    pure (year, month, day)

/-! ## Time -/

/-- A time of day as written, and whether something is left unread after it. -/
structure Clock where
  fields : List Nat
  micros : Nat
  more : Bool

/-- Whether something is left; a zero character ends a text. -/
def isLeft : List Char → Bool
  | [] => false
  | c :: _ => c ≠ '\x00'

/-- The fraction of a second. -/
def fraction? (fields : List Nat) (cs : List Char) : Option Clock :=
  let n := min 6 cs.length
  if n = 0 then none
  else
    (digits? n cs).map fun (v, rest) =>
      ⟨fields, v * Nat.pow 10 (6 - n), isLeft (rest.dropWhile Char.isDigit)⟩

/-- The fields of a time, `colons` telling whether they have separators.  One ASCII
character may stand unread after a field. -/
def clockFrom? : Nat → List Nat → Option Bool → List Char → Option Clock
  | 0, fields, _, cs => fraction? fields cs
  | n + 1, fields, colons, cs => do
    let (v, cs) ← digits? 2 cs
    let fields := fields ++ [v]
    match cs with
    | [] => some ⟨fields, 0, false⟩
    | [c] => if c.utf8Size = 1 then some ⟨fields, 0, isLeft cs⟩ else none
    | c :: rest =>
      let colons := colons.getD (c = ':')
      if colons && c = ':' then clockFrom? n fields (some colons) rest
      else if c = '.' ∨ c = ',' then fraction? fields rest
      else if !colons then clockFrom? n fields (some colons) cs
      else none

def clock? (cs : List Char) : Option Clock := clockFrom? 3 [] none cs

/-- Hours, minutes and seconds, those not written being zero. -/
def Clock.hms (c : Clock) : Nat × Nat × Nat :=
  (c.fields[0]?.getD 0, c.fields[1]?.getD 0, c.fields[2]?.getD 0)

def isZoneMark (c : Char) : Bool := c = '+' || c = '-' || c = 'Z'

/-- The offset that a zone writes. -/
def zone? : List Char → Option Int
  | 'Z' :: rest => if isLeft rest then none else some 0
  | mark :: rest => do
    let c ← clock? rest
    if c.more then none
    let (h, m, s) := c.hms
    let seconds := h * 3600 + m * 60 + s
    let n : Int := if seconds = 0 then 0 else (seconds : Int) * 1000000 + c.micros
    pure (if mark = '-' then -n else n)
  | [] => none

/-- The time of day and the offset of its zone. -/
def time? (cs : List Char) : Option (Clock × Option Int) := do
  let c ← clock? (cs.takeWhile (!isZoneMark ·))
  let zone := cs.dropWhile (!isZoneMark ·)
  if zone.isEmpty then
    if c.more then none else pure (c, none)
  else
    let offset ← zone? zone
    pure (c, some offset)

/-! ## Timestamp -/

/-- Date, time and zone as they are written. -/
def fields? (s : String) : Option ((Nat × Nat × Nat) × Clock × Option Int) := do
  let cs := s.toList
  let n ← dateLength? cs
  let date ← date? (cs.take n)
  match cs.drop n with
  | [] => pure (date, ⟨[], 0, false⟩, none)
  | _ :: rest =>
    let (clock, offset) ← time? rest
    pure (date, clock, offset)

def checkDate (year month day : Nat) : Except TimestampFault Unit :=
  if year = 0 ∨ 9999 < year then .error (.yearOutOfRange year)
  else if month = 0 ∨ 12 < month then .error .monthOutOfRange
  else if day = 0 ∨ Calendar.daysInMonth year month < day then .error .dayOutOfRange
  else .ok ()

def checkTime (hour minute second : Nat) : Except TimestampFault Unit :=
  if 23 < hour then .error .hourOutOfRange
  else if 59 < minute then .error .minuteOutOfRange
  else if 59 < second then .error .secondOutOfRange
  else .ok ()

def checkOffset (offset : Option Int) : Except TimestampFault Unit :=
  match offset with
  | none => .ok ()
  | some o => if o.natAbs < Timestamp.day.natAbs then .ok () else .error (.offsetOutOfRange o)

end Iso

/-- The timestamp that a text writes. -/
def Timestamp.ofText (s : String) : Except TimestampFault Timestamp :=
  match Iso.fields? s with
  | none => .error (.notIso s)
  | some ((y, mo, d), clock, offset) => do
    let (h, m, sec) := clock.hms
    Iso.checkOffset offset
    Iso.checkDate y mo d
    Iso.checkTime h m sec
    let seconds := Calendar.dayOfDate y mo d * 86400 + h * 3600 + m * 60 + sec
    pure ⟨(seconds : Int) * 1000000 + clock.micros, offset⟩

end Workflow
