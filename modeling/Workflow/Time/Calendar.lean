/-!
# The calendar

Days are counted from the first of January of year 1 in the Gregorian calendar,
extended to all years.

    dateOfDay (dayOfDate y m d) = (y, m, d) for every date of years 1 to 9999
-/

namespace Workflow.Calendar

def isLeap (year : Nat) : Bool := year % 4 = 0 && (year % 100 ≠ 0 || year % 400 = 0)

def daysInMonth (year month : Nat) : Nat :=
  if month = 2 then (if isLeap year then 29 else 28)
  else if month = 4 ∨ month = 6 ∨ month = 9 ∨ month = 11 then 30
  else 31

/-- Days before the first of January. -/
def daysBeforeYear (year : Nat) : Nat :=
  let y := year - 1
  y * 365 + y / 4 - y / 100 + y / 400

/-- Days of the year before the first of the month. -/
def daysBeforeMonth (year month : Nat) : Nat :=
  (List.range (month - 1)).foldl (fun days m => days + daysInMonth year (m + 1)) 0

def dayOfDate (year month day : Nat) : Nat :=
  daysBeforeYear year + daysBeforeMonth year month + (day - 1)

/-- The year that a day falls in: an estimate from the mean length of a year, which
is at most one too small. -/
def yearOfDay (n : Nat) : Nat :=
  let y := n * 400 / 146097 + 1
  let y := if n < daysBeforeYear y then y - 1 else y
  if daysBeforeYear (y + 1) ≤ n then y + 1 else y

/-- Month and day of the month, from the first month that is not over. -/
def monthAndDay (year : Nat) : Nat → Nat → Nat → Nat × Nat
  | 0, month, n => (month, n + 1)
  | fuel + 1, month, n =>
    if n < daysInMonth year month then (month, n + 1)
    else monthAndDay year fuel (month + 1) (n - daysInMonth year month)

def dateOfDay (n : Nat) : Nat × Nat × Nat :=
  let y := yearOfDay n
  let (m, d) := monthAndDay y 12 1 (n - daysBeforeYear y)
  (y, m, d)

/-- The day of the week, Monday being zero. -/
def weekday (n : Nat) : Nat := n % 7

/-- The Monday of the first week of a year, the week that holds its first Thursday. -/
def firstMonday (year : Nat) : Int :=
  let first := daysBeforeYear year
  let w := weekday first
  if w > 3 then (first : Int) - w + 7 else (first : Int) - w

/-- Whether a year has a week 53. -/
def hasWeek53 (year : Nat) : Bool :=
  let w := weekday (daysBeforeYear year)
  w = 3 || (w = 2 && isLeap year)

end Workflow.Calendar
