import Workflow.Time.Calendar
import Workflow.Value.Literal

/-!
# Timestamps

A timestamp is a reading of a wall clock together with the offset of its zone
from universal time, if that is known.  Two timestamps can be ordered if both
zones are known or neither is.

    t.instant is the reading of the same moment by universal time
-/

namespace Workflow

/-- Microseconds since the start of year 1. -/
structure Timestamp where
  clock : Int
  offset : Option Int
  deriving DecidableEq, Repr, Inhabited

namespace Timestamp

def second : Int := 1000000

def minute : Int := 60 * second

def hour : Int := 60 * minute

def day : Int := 24 * hour

/-! ## Order -/

/-- Whether the zone is known. -/
def isZoned (t : Timestamp) : Bool := t.offset.isSome

/-- The reading by universal time. -/
def instant (t : Timestamp) : Int := t.clock - t.offset.getD 0

/-- The same moment by universal time. -/
def toUniversal (t : Timestamp) : Timestamp := ⟨t.instant, some 0⟩

/-- Whether the reading by universal time is known and within the years 1 to 9999. -/
def isStorable (t : Timestamp) : Bool :=
  t.isZoned && 0 ≤ t.instant && t.instant < (Calendar.dayOfDate 10000 1 1 : Nat) * day

def comparable (t u : Timestamp) : Bool := t.isZoned == u.isZoned

/-- Whether all timestamps can be ordered among themselves. -/
def allComparable (ts : List Timestamp) : Bool := ts.all isZoned || ts.all (!isZoned ·)

/-- Microseconds from `t` to `u`; none if only one zone is known. -/
def elapsed? (t u : Timestamp) : Option Int :=
  if comparable t u then some (u.instant - t.instant) else none

/-! ## Text -/

def padded (width n : Nat) : String :=
  let s := Nat.repr n
  String.ofList (List.replicate (width - s.length) '0') ++ s

/-- Hours, minutes, seconds and microseconds of a span shorter than a day. -/
def parts (n : Nat) : Nat × Nat × Nat × Nat :=
  (n / 3600000000, n / 60000000 % 60, n / 1000000 % 60, n % 1000000)

def microsecondText (n : Nat) : String := if n = 0 then "" else "." ++ padded 6 n

/-- Date and time of day, with microseconds only if there are any. -/
def clockText (t : Timestamp) : String :=
  let day' := (t.clock.fdiv day).toNat
  let (y, mo, d) := Calendar.dateOfDay day'
  let (h, m, s, us) := parts (t.clock.fmod day).toNat
  padded 4 y ++ "-" ++ padded 2 mo ++ "-" ++ padded 2 d ++ "T"
    ++ padded 2 h ++ ":" ++ padded 2 m ++ ":" ++ padded 2 s ++ microsecondText us

/-- The offset of a zone, with seconds only if there are any. -/
def offsetText (offset : Int) : String :=
  let (h, m, s, us) := parts offset.natAbs
  (if offset < 0 then "-" else "+") ++ padded 2 h ++ ":" ++ padded 2 m
    ++ (if s = 0 ∧ us = 0 then "" else ":" ++ padded 2 s ++ microsecondText us)

def text (t : Timestamp) : String :=
  t.clockText ++ (match t.offset with | none => "" | some o => offsetText o)

/-- The minutes of an offset in responses, whose seconds are rounded down and then to the
nearest minute. -/
def responseMinutes (offset : Int) : Nat := ((offset.fdiv second).natAbs + 29) / 60 % 1440

/-- The text in responses: `Z` for universal time, other offsets to the nearest minute. -/
def responseText (t : Timestamp) : String :=
  t.clockText ++ match t.offset with
    | none => ""
    | some o =>
      let minutes := responseMinutes o
      if minutes = 0 then "Z"
      else (if o < 0 then "-" else "+") ++ padded 2 (minutes / 60) ++ ":" ++ padded 2 (minutes % 60)

end Timestamp

end Workflow
