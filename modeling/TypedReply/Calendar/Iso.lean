import TypedReply.Calendar.DateTime
import TypedReply.Numeric.Numeral

/-!
# ISO 8601 text

Dates are written `YYYY-MM-DD`. Datetimes add the time of day, its microseconds only when there are
any, and the offset of an aware datetime, its seconds and microseconds only when there are any.

More forms are read than are written: dates without hyphens, week dates, any separator before the
time, times without colons or with fewer components, fractions of any length, and `Z`.
-/

namespace TypedReply.Iso

/-- The last `width` decimal digits of a number. -/
def padded : Nat → Nat → List Char
  | 0, _ => []
  | width + 1, n => padded width (n / 10) ++ [Char.ofNat (48 + n % 10)]

@[simp]
theorem length_padded (width n : Nat) : (padded width n).length = width := by
  induction width generalizing n with
  | zero => rfl
  | succ width ih => simp [padded, ih]

/-! ## Writing -/

/-- A fraction of a second, written only when it is not zero. -/
def microsText (micros : Nat) : List Char :=
  if micros = 0 then [] else '.' :: padded 6 micros

def dateText (date : Date) : List Char :=
  padded 4 date.year ++ '-' :: padded 2 date.month ++ '-' :: padded 2 date.day

/-- The text of a time of day. -/
def timeText (time : Time) : List Char :=
  padded 2 time.hour ++ ':' :: padded 2 time.minute ++ ':' :: padded 2 time.second ++
    microsText time.microsecond

/-- The text of an offset. -/
def offsetText (offset : Offset) : List Char :=
  let magnitude := offset.micros.natAbs
  let seconds := magnitude / 1000000
  let micros := magnitude % 1000000
  let tail := if seconds % 60 = 0 ∧ micros = 0 then []
    else ':' :: padded 2 (seconds % 60) ++ microsText micros
  (if offset.micros < 0 then '-' else '+') ::
    (padded 2 (seconds / 3600) ++ ':' :: padded 2 (seconds / 60 % 60) ++ tail)

/-- The text of a datetime, with the given separator before the time. -/
def dateTimeText (separator : Char) (t : DateTime) : List Char :=
  dateText t.date ++ separator :: timeText t.time ++ (t.offset.map offsetText).getD []

/-! ## Reading -/

def asciiDigit? (c : Char) : Option Nat :=
  if '0' ≤ c ∧ c ≤ '9' then some (c.toNat - 48) else none

/-- Reads exactly `count` digits in front of `n`. -/
def digits? : Nat → Nat → List Char → Option (Nat × List Char)
  | 0, n, cs => some (n, cs)
  | _ + 1, _, [] => none
  | count + 1, n, c :: cs =>
    match asciiDigit? c with
    | some digit => digits? count (10 * n + digit) cs
    | none => none

/-- Reads a hyphen where the text uses hyphens, and nothing where it does not. -/
def hyphen? (used : Bool) (cs : List Char) : Option (List Char) :=
  if used then
    match cs with
    | '-' :: rest => some rest
    | _ => none
  else some cs

/-- The rest of a week date after its `W`. The weekday may be missing, which means Monday; text
after the weekday is not looked at. -/
def weekDate? (year : Nat) (hyphens : Bool) (cs : List Char) : Option Date := do
  let (week, rest) ← digits? 2 0 cs
  if rest.isEmpty then Date.ofWeek? year week 1
  else
    let (weekday, _) ← digits? 1 0 (← hyphen? hyphens rest)
    Date.ofWeek? year week weekday

def byteCount (cs : List Char) : Nat := cs.foldl (fun count c => count + c.utf8Size) 0

/-- The date of a text of seven, eight or ten bytes; text after the day is not looked at. -/
def date? (cs : List Char) : Option Date := do
  guard (byteCount cs = 7 ∨ byteCount cs = 8 ∨ byteCount cs = 10)
  let (year, rest) ← digits? 4 0 cs
  let hyphens := rest.head? == some '-'
  let rest := if hyphens then rest.tail else rest
  if rest.head? = some 'W' then weekDate? year hyphens rest.tail
  else
    let (month, rest) ← digits? 2 0 rest
    let (day, _) ← digits? 2 0 (← hyphen? hyphens rest)
    Date.of? year month day

/-- A clock text: its components and whether text is left over after them. -/
structure Clock where
  components : List Nat
  microsecond : Nat
  leftover : Bool

/-- The character that stands after a part of a text when nothing follows. -/
def endMark : Char := Char.ofNat 0

/-- Reads a fraction of a second: up to six digits count, further ones are skipped. `stop` is the
character after the part that is read. -/
def fraction? (stop : Char) (cs : List Char) : Option (Nat × Bool) := do
  let kept := cs.take 6
  let (value, _) ← digits? kept.length 0 kept
  let rest := (cs.drop 6).dropWhile fun c => (asciiDigit? c).isSome
  some (value * Nat.pow 10 (6 - kept.length), rest.headD stop != endMark)

/-- Reads up to `count` two-digit components and a fraction. Whether colons separate the components
is decided after the first. A single byte may be left over at the end. -/
def clockFrom? (stop : Char) : Nat → Option Bool → List Char → Option Clock
  | 0, _, cs => do
    let (micros, leftover) ← fraction? stop cs
    some ⟨[], micros, leftover⟩
  | count + 1, colons?, cs => do
    let (value, rest) ← digits? 2 0 cs
    let next := rest.headD stop
    let colons := colons?.getD (next == ':')
    if byteCount rest ≤ 1 then some ⟨[value], 0, next != endMark⟩
    else if colons && next == ':' then
      let clock ← clockFrom? stop count (some colons) rest.tail
      some { clock with components := value :: clock.components }
    else if next == '.' || next == ',' then
      let (micros, leftover) ← fraction? stop rest.tail
      some ⟨[value], micros, leftover⟩
    else if !colons then
      let clock ← clockFrom? stop count (some colons) rest
      some { clock with components := value :: clock.components }
    else none

/-- Reads a clock text that ends before the character `stop`. -/
def clock? (stop : Char) (cs : List Char) : Option Clock := clockFrom? stop 3 none cs

namespace Clock

/-- The component at a position; a missing one is zero. -/
def component (clock : Clock) (index : Nat) : Nat := clock.components.getD index 0

def time? (clock : Clock) : Option Time :=
  Time.of? (clock.component 0) (clock.component 1) (clock.component 2) clock.microsecond

/-- The offset of a clock text. An offset of no whole seconds is that of UTC. -/
def offset? (clock : Clock) (negative : Bool) : Option Offset :=
  let seconds := clock.component 0 * 3600 + clock.component 1 * 60 + clock.component 2
  if seconds = 0 then some .utc
  else Offset.of? (Double.signed negative (seconds * 1000000 + clock.microsecond))

end Clock

def beginsOffset (c : Char) : Bool := c == '+' || c == '-' || c == 'Z'

/-- The time and offset of the text after the separator. -/
def timeAndOffset? (cs : List Char) : Option (Time × Option Offset) := do
  let clockPart := cs.takeWhile fun c => !beginsOffset c
  match cs.dropWhile fun c => !beginsOffset c with
  | [] =>
    let clock ← clock? endMark clockPart
    guard !clock.leftover
    some (← clock.time?, none)
  | mark :: rest =>
    let clock ← clock? mark clockPart
    if mark = 'Z' then
      guard (rest.headD endMark == endMark)
      some (← clock.time?, some .utc)
    else
      let offset ← clock? endMark rest
      guard !offset.leftover
      some (← clock.time?, some (← offset.offset? (mark == '-')))

/-- The length of the date part of a datetime text, if it can be told. -/
def dateLength? (cs : List Char) : Option Nat :=
  let isDigitAt (index : Nat) : Bool := (cs[index]?.bind asciiDigit?).isSome
  if cs.length = 7 then some 7
  else if cs[4]? = some '-' then
    if cs[5]? = some 'W' then
      if cs[8]? = some '-' then
        if cs.length = 9 then none else if isDigitAt 10 then some 8 else some 10
      else some 8
    else some 10
  else if cs[4]? = some 'W' then
    let digitsEnd := 7 + ((cs.drop 7).takeWhile fun c => (asciiDigit? c).isSome).length
    if digitsEnd < 9 then some digitsEnd else if digitsEnd % 2 = 0 then some 7 else some 8
  else some 8

/-- The datetime of a text. -/
def dateTime? (cs : List Char) : Option DateTime := do
  guard (7 ≤ cs.length)
  let length ← dateLength? cs
  let date ← date? (cs.take length)
  match cs.drop length with
  | [] => some (.startOf date)
  | _ :: rest =>
    let (time, offset) ← timeAndOffset? rest
    some ⟨date, time, offset⟩

end TypedReply.Iso
