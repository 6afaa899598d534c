import TypedReply.Reference.Rfc3339

/-!
# Counted time

A number stands for a moment by counting from the start of 1970 in UTC: in seconds where the count
is small, and in milliseconds where that many seconds would lead far past the present. Text is read
as RFC 3339 first and as a count where it is none.
-/

namespace TypedReply

namespace Double

/-- The greatest integer that is not above a number. -/
def floor? (x : Double) : Option Int := x.toUnits?.map (·.fdiv unitsPerOne)

/-- The thousandth part of a number. -/
def thousandth : Double → Double
  | .finite negative code => ofRatio negative (units code) (1000 * unitsPerOne)
  | x => x

/-- The natural number nearest to a number's magnitude, a tie to the greater one. -/
def roundMagnitude : Double → Nat
  | .finite _ code => (2 * units code + unitsPerOne) / (2 * unitsPerOne)
  | _ => 0

end Double

namespace UnixTime

/-- The greatest count of seconds; greater counts are of milliseconds. -/
def mostSeconds : Nat := 20000000000

def earliest : Int := -62167219200

def latest : Int := 253402300799

def epochDay : Int := 719163

/-- The moment some seconds and microseconds after the start of 1970. -/
def ofSeconds (seconds : Int) (micros : Nat) : Except StampError Moment :=
  if seconds < earliest then .error .tooEarly
  else if latest < seconds then .error .tooLate
  else
    let day := seconds.fdiv 86400 + epochDay
    let second := (seconds.fmod 86400).toNat
    let time := Time.of? (second / 3600) (second / 60 % 60) (second % 60) micros
    .ok ⟨Date.ofOrdinal? day.toNat, time.getD .midnight, some .utc⟩

/-- The moment that a count stands for, some microseconds later. -/
def ofCount (count : Int) (micros : Nat) : Except StampError Moment :=
  let inSeconds := count.natAbs ≤ mostSeconds
  let seconds := if inSeconds then count else count.fdiv 1000
  let extra := if inSeconds then 0 else (count.fmod 1000).toNat * 1000
  let total := extra + micros
  ofSeconds (seconds + (total / 1000000 : Nat)) (total % 1000000)

/-- The microseconds nearest to a fraction of a second, which is given in the units of floating
point numbers. -/
def microsOf (fraction : Nat) : Nat :=
  (Double.ofRatio false (fraction * 1000000) Double.unitsPerOne).roundMagnitude

def ofInfinite (negative : Bool) : Except StampError Moment :=
  .error (if negative then .tooEarly else .tooLate)

/-- The moment that a number stands for: the count is its floor, and its fractional digits count
microseconds. -/
def ofDouble (x : Double) : Except StampError Moment :=
  match x, x.floor? with
  | .finite _ code, some count =>
    ofCount count (microsOf (Double.units code % Double.unitsPerOne))
  | .infinite negative, _ => ofInfinite negative
  | _, _ => .error .nan

/-- The moment that a fractional numeral stands for: milliseconds are turned into seconds before
the floor is taken. -/
def ofNumeral (x : Double) : Except StampError Moment :=
  let inSeconds := !Double.intLt mostSeconds x && !x.ltInt (-(mostSeconds : Int))
  let seconds := if inSeconds then x else x.thousandth
  match seconds, seconds.toUnits?, seconds.floor? with
  | _, some units, some count =>
    let fraction := (units - count * Double.unitsPerOne).toNat
    let rounded := Double.ofRatio false fraction Double.unitsPerOne
    ofCount count (microsOf (rounded.toUnits?.getD 0).toNat)
  | .infinite negative, _, _ => ofInfinite negative
  | _, _, _ => .error .nan

/-- The greatest magnitude of an integer count in text. -/
def mostCount : Nat := Nat.pow 2 63 - 1

/-- The integer count of a text: an optional sign and ASCII digits. -/
def count? (cs : List Char) : Option Int := do
  guard (cs.all fun c => c.toNat < 0x80 && c != '_')
  let count ← Numeral.integer? cs
  guard (count.natAbs ≤ mostCount)
  some count

/-- The fractional numeral of a text, in ASCII. -/
def numeral? (cs : List Char) : Option Double := do
  guard (cs.all fun c => c.toNat < 0x80 && c != '_')
  let (negative, unsigned) := Numeral.splitSign cs
  let numeral ← Numeral.decimal? negative unsigned
  some numeral.toDouble

/-- The date of a text or of the count that it is; none for a day of year 0. -/
def dateOfText (cs : List Char) : Except StampError (Option Date) :=
  match Rfc3339.date cs, count? cs with
  | .ok date, _ => .ok date
  | .error error, none => .error error
  | .error _, some count => do
    let moment ← ofCount count 0
    if moment.time.microseconds < 1000000 then .ok moment.date
    else .error .partOfDay

/-- The datetime of a text or of the count that it is. -/
def momentOfText (cs : List Char) : Except StampError Moment :=
  match Rfc3339.dateTime cs, count? cs, numeral? cs with
  | .ok moment, _, _ => .ok moment
  | .error _, some count, _ => ofCount count 0
  | .error _, none, some x => ofNumeral x
  | .error error, none, none => .error error

end UnixTime

end TypedReply
