import TypedReply.Calendar.Iso

/-!
# RFC 3339 text

The strict text form of dates and datetimes: a date `YYYY-MM-DD`; for a datetime a separator, the
hour and the minute, optionally a second with a fraction, and optionally `Z` or an offset in hours
and minutes. Text is read byte by byte from the left, and the first byte that does not fit decides
the error.

Year 0 can be written but holds no date.
-/

namespace TypedReply

/-- Why a text or a number is no date or datetime. -/
inductive StampError where
  | tooShort
  | trailing
  | separator
  | dateSeparator
  | clockSeparator
  | yearDigit
  | monthDigit
  | dayDigit
  | hourDigit
  | minuteDigit
  | secondDigit
  | fractionMissing
  | zoneSign
  | zoneHourDigit
  | zoneMinuteDigit
  | monthRange
  | dayRange
  | hourRange
  | minuteRange
  | secondRange
  | zoneMinuteRange
  | zoneRange
  /-- A number of seconds that is no multiple of a day. -/
  | partOfDay
  /-- A number of seconds before year 0. -/
  | tooEarly
  /-- A number of seconds after year 9999. -/
  | tooLate
  | nan
  | yearZero
deriving DecidableEq

/-- The words for an error. -/
def StampError.text : StampError → String
  | .tooShort => "input is too short"
  | .trailing => "unexpected extra characters at the end of the input"
  | .separator =>
    "invalid datetime separator, expected \x60T\x60, \x60t\x60, \x60_\x60 or space"
  | .dateSeparator => "invalid date separator, expected \x60-\x60"
  | .clockSeparator => "invalid time separator, expected \x60:\x60"
  | .yearDigit => "invalid character in year"
  | .monthDigit => "invalid character in month"
  | .dayDigit => "invalid character in day"
  | .hourDigit => "invalid character in hour"
  | .minuteDigit => "invalid character in minute"
  | .secondDigit => "invalid character in second"
  | .fractionMissing => "second fraction digits missing after \x60.\x60"
  | .zoneSign => "invalid timezone sign"
  | .zoneHourDigit => "invalid timezone hour"
  | .zoneMinuteDigit => "invalid timezone minute"
  | .monthRange => "month value is outside expected range of 1-12"
  | .dayRange => "day value is outside expected range"
  | .hourRange => "hour value is outside expected range of 0-23"
  | .minuteRange => "minute value is outside expected range of 0-59"
  | .secondRange => "second value is outside expected range of 0-59"
  | .zoneMinuteRange => "timezone minute value is outside expected range of 0-59"
  | .zoneRange => "timezone offset must be less than 24 hours"
  | .partOfDay => "Timestamp is not an exact date"
  | .tooEarly => "dates before 0000 are not supported as unix timestamps"
  | .tooLate => "dates after 9999 are not supported as unix timestamps"
  | .nan => "NaN values not permitted"
  | .yearZero => "year 0 is out of range"

/-- A datetime as written or counted: it has no date when it lies in year 0. -/
structure Moment where
  date : Option Date
  time : Time
  offset : Option Offset

namespace Moment

def isMidnight (moment : Moment) : Bool := moment.time == .midnight

/-- The datetime that a moment is, outside year 0. -/
def dateTime? (moment : Moment) : Option DateTime :=
  moment.date.map fun date => ⟨date, moment.time, moment.offset⟩

end Moment

namespace Rfc3339

/-- The bytes of a text in UTF-8, each as the character of its code. -/
def byteChars (text : String) : List Char :=
  text.toList.flatMap fun c => (String.utf8EncodeChar c).map fun byte => Char.ofNat byte.toNat

/-- Reads exactly `count` digits. -/
def digits (error : StampError) (count : Nat) (cs : List Char) :
    Except StampError (Nat × List Char) :=
  (Iso.digits? count 0 cs).elim (.error error) .ok

/-- Reads one character of a class. -/
def mark (error : StampError) (accepts : Char → Bool) :
    List Char → Except StampError (List Char)
  | [] => .error error
  | c :: rest => if accepts c then .ok rest else .error error

/-- Reads a date; none for a day of year 0. -/
def datePart (cs : List Char) : Except StampError (Option Date × List Char) :=
  if cs.length < 10 then .error .tooShort
  else do
    let (year, rest) ← digits .yearDigit 4 cs
    let rest ← mark .dateSeparator (· == '-') rest
    let (month, rest) ← digits .monthDigit 2 rest
    let rest ← mark .dateSeparator (· == '-') rest
    let (day, rest) ← digits .dayDigit 2 rest
    if month < 1 ∨ 12 < month then .error .monthRange
    else if day < 1 ∨ Calendar.daysInMonth year month < day then .error .dayRange
    else .ok (Date.of? year month day, rest)

/-- Reads the digits of a fraction of a second, of which six count, as microseconds. -/
def fraction (cs : List Char) : Except StampError (Nat × List Char) :=
  let isDigit (c : Char) : Bool := (Iso.asciiDigit? c).isSome
  let kept := (cs.takeWhile isDigit).take 6
  if kept.isEmpty then .error .fractionMissing
  else do
    let (value, _) ← digits .fractionMissing kept.length kept
    .ok (value * Nat.pow 10 (6 - kept.length), cs.dropWhile isDigit)

/-- Reads a second and its fraction: the second, its microseconds and the rest. -/
def secondPart (cs : List Char) : Except StampError (Nat × Nat × List Char) := do
  let (second, rest) ← digits .secondDigit 2 cs
  if 59 < second then .error .secondRange
  else
    match rest with
    | '.' :: rest => do
      let (micros, rest) ← fraction rest
      .ok (second, micros, rest)
    | ',' :: rest => do
      let (micros, rest) ← fraction rest
      .ok (second, micros, rest)
    | rest => .ok (second, 0, rest)

/-- Reads a time of day. -/
def timePart (cs : List Char) : Except StampError (Time × List Char) :=
  if cs.length < 5 then .error .tooShort
  else do
    let (hour, rest) ← digits .hourDigit 2 cs
    let rest ← mark .clockSeparator (· == ':') rest
    let (minute, rest) ← digits .minuteDigit 2 rest
    if 23 < hour then .error .hourRange
    else if 59 < minute then .error .minuteRange
    else do
      let (second, micros, rest) ← match rest with
        | ':' :: rest => secondPart rest
        | rest => .ok (0, 0, rest)
      match Time.of? hour minute second micros with
      | some time => .ok (time, rest)
      | none => .error .secondRange

/-- Reads the hours and minutes of an offset, which end the text. -/
def offsetPart (negative : Bool) (cs : List Char) : Except StampError Offset := do
  let (hours, rest) ← digits .zoneHourDigit 2 cs
  let rest := if rest.head? = some ':' then rest.tail else rest
  let (minutes, rest) ← digits .zoneMinuteDigit 2 rest
  if 59 < minutes then .error .zoneMinuteRange
  else
    match Offset.of? (Double.signed negative ((hours * 60 + minutes) * 60000000)) with
    | none => .error .zoneRange
    | some offset => if rest.isEmpty then .ok offset else .error .trailing

/-- The bytes of the minus sign U+2212 after the first. -/
def minusTail : List Char := [Char.ofNat 136, Char.ofNat 146]

/-- Reads the zone that ends a text, which may be missing. -/
def zone : List Char → Except StampError (Option Offset)
  | [] => .ok none
  | c :: rest =>
    if c = 'Z' ∨ c = 'z' then if rest.isEmpty then .ok (some .utc) else .error .trailing
    else if c = '+' then (offsetPart false rest).map some
    else if c = '-' then (offsetPart true rest).map some
    else if c.toNat = 226 ∧ rest.take 2 = minusTail then (offsetPart true (rest.drop 2)).map some
    else .error .zoneSign

/-- Whether a character may stand between date and time. -/
def separates (c : Char) : Bool := c == 'T' || c == 't' || c == ' ' || c == '_'

/-- The date of a text; none for a day of year 0. -/
def date (cs : List Char) : Except StampError (Option Date) := do
  let (date, rest) ← datePart cs
  if rest.isEmpty then .ok date else .error .trailing

/-- The datetime of a text. -/
def dateTime (cs : List Char) : Except StampError Moment := do
  let (date, rest) ← datePart cs
  let rest ← mark .separator separates rest
  let (time, rest) ← timePart rest
  let offset ← zone rest
  .ok ⟨date, time, offset⟩

end Rfc3339

end TypedReply
