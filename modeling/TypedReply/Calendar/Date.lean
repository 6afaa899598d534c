/-!
# Dates

Days of the proleptic Gregorian calendar in the years 1 to 9999. A day has an ordinal, counted from
the first day of year 1, and an ISO week date.
-/

namespace TypedReply

namespace Calendar

def isLeap (year : Nat) : Bool := year % 4 = 0 ∧ (year % 100 ≠ 0 ∨ year % 400 = 0)

/-- The number of days of a month. -/
def daysInMonth (year month : Nat) : Nat :=
  if month = 2 then (if isLeap year then 29 else 28)
  else if month = 4 ∨ month = 6 ∨ month = 9 ∨ month = 11 then 30
  else 31

/-- The year, month and day of a date are in range. -/
def InRange (year month day : Nat) : Prop :=
  1 ≤ year ∧ year ≤ 9999 ∧ 1 ≤ month ∧ month ≤ 12 ∧ 1 ≤ day ∧ day ≤ daysInMonth year month

instance (year month day : Nat) : Decidable (InRange year month day) := by
  unfold InRange; infer_instance

def daysBeforeYear (year : Nat) : Nat :=
  (year - 1) * 365 + (year - 1) / 4 - (year - 1) / 100 + (year - 1) / 400

/-- The days of the months before a month of a year. -/
def daysBeforeMonth (year month : Nat) : Nat :=
  (List.range (month - 1)).foldl (fun days earlier => days + daysInMonth year (earlier + 1)) 0

end Calendar

open Calendar in
/-- A calendar day. -/
structure Date where
  year : Nat
  month : Nat
  day : Nat
  inRange : InRange year month day
deriving DecidableEq

namespace Date

open Calendar

/-- The date of a year, a month and a day, if there is one. -/
def of? (year month day : Nat) : Option Date :=
  if inRange : InRange year month day then some ⟨year, month, day, inRange⟩ else none

/-- The position of a day, counting from 1 for the first day of year 1. -/
def ordinal (date : Date) : Nat :=
  daysBeforeYear date.year + daysBeforeMonth date.year date.month + date.day

/-- The month and day of the `index`-th day (from 0) of a year, looked up month by month from
`month` on. -/
def inYear? (year : Nat) : Nat → Nat → Nat → Option Date
  | 0, _, _ => none
  | months + 1, month, index =>
    if index < daysInMonth year month then of? year month (index + 1)
    else inYear? year months (month + 1) (index - daysInMonth year month)

/-- The date at a position, if it is in range. -/
def ofOrdinal? (ordinal : Nat) : Option Date :=
  if ordinal = 0 then none
  else
    let guess := (ordinal - 1) / 366 + 1
    let year := (List.range 30).foldl
      (fun year _ => if daysBeforeYear (year + 1) < ordinal then year + 1 else year) guess
    inYear? year 12 1 (ordinal - 1 - daysBeforeYear year)

/-- The position of the Monday of week 1: the week that holds the year's first Thursday. Counted
from 0 for the day before the first day of year 1, which is a Monday. -/
def firstMonday (year : Nat) : Nat :=
  let firstDay := daysBeforeYear year
  let weekday := firstDay % 7
  if weekday ≤ 3 then firstDay - weekday else firstDay + 7 - weekday

def weeksInYear (year : Nat) : Nat :=
  (firstMonday (year + 1) - firstMonday year) / 7

/-- The date of an ISO week date, if there is one. -/
def ofWeek? (year week weekday : Nat) : Option Date :=
  if 1 ≤ year ∧ year ≤ 9999 ∧ 1 ≤ week ∧ week ≤ weeksInYear year ∧ 1 ≤ weekday ∧ weekday ≤ 7 then
    ofOrdinal? (firstMonday year + (week - 1) * 7 + weekday)
  else none

end Date

end TypedReply
