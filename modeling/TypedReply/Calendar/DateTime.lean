import TypedReply.Calendar.Date

/-!
# Times of day, offsets and datetimes

A datetime is a date, a time of day with microseconds and, when it is aware, its offset from UTC.
-/

namespace TypedReply

/-- A time of day. -/
structure Time where
  hour : Nat
  minute : Nat
  second : Nat
  microsecond : Nat
  inRange : hour < 24 ∧ minute < 60 ∧ second < 60 ∧ microsecond < 1000000
deriving DecidableEq

namespace Time

/-- The time of its components, if they are in range. -/
def of? (hour minute second microsecond : Nat) : Option Time :=
  if inRange : hour < 24 ∧ minute < 60 ∧ second < 60 ∧ microsecond < 1000000 then
    some ⟨hour, minute, second, microsecond, inRange⟩
  else none

def midnight : Time := ⟨0, 0, 0, 0, by decide⟩

def microseconds (time : Time) : Nat :=
  ((time.hour * 60 + time.minute) * 60 + time.second) * 1000000 + time.microsecond

end Time

def microsPerDay : Nat := 86400000000

/-- An offset from UTC in microseconds, shorter than a day. -/
structure Offset where
  micros : Int
  inRange : micros.natAbs < microsPerDay
deriving DecidableEq

namespace Offset

/-- The offset of a number of microseconds, if it is in range. -/
def of? (micros : Int) : Option Offset :=
  if inRange : micros.natAbs < microsPerDay then some ⟨micros, inRange⟩ else none

def utc : Offset := ⟨0, by decide⟩

end Offset

/-- A date and a time of day; without an offset it is naive. An offset is fixed: there are no zones whose
offset varies over the year, and so no hours that are repeated. -/
structure DateTime where
  date : Date
  time : Time
  offset : Option Offset
deriving DecidableEq

namespace DateTime

def startOf (date : Date) : DateTime := ⟨date, .midnight, none⟩

/-- The microseconds from the day before year 1 to the clock reading of a datetime. -/
def reading (t : DateTime) : Int := (t.date.ordinal * microsPerDay + t.time.microseconds : Nat)

/-- Naive datetimes are equal when they read the same; aware ones when they are the same moment. -/
def same (s t : DateTime) : Bool :=
  match s.offset, t.offset with
  | none, none => s.reading == t.reading
  | some p, some q => s.reading - p.micros == t.reading - q.micros
  | _, _ => false

end DateTime

end TypedReply
