import TypedReply.Calendar.Iso
import TypedReply.Numeric.FloatText
import TypedReply.Text.Quoted
import TypedReply.Value.Basic

/-!
# The written forms of values

A value is *rendered* in messages so that its type can be told: texts are quoted, calendar values
and instances name their type and components. It is *displayed* where its content alone matters: a
text is displayed as it is.
-/

namespace TypedReply.Value

/-- The decimal text of an integer. Every integer has one here, though more than 4300 digits can neither
be written nor read: theorems for which this matters ask for shorter integers. -/
def intText (n : Int) : String :=
  String.ofList ((if n < 0 then ['-'] else []) ++ decimalDigits n.natAbs)

def natText (n : Nat) : String := String.ofList (decimalDigits n)

def enclosed (left right : String) (parts : List String) : String :=
  left ++ ", ".intercalate parts ++ right

def renderDate (d : Date) : String :=
  enclosed "datetime.date(" ")" ([d.year, d.month, d.day].map natText)

/-- A rendered time span: its days, seconds and microseconds that are not zero. -/
def renderSpan (micros : Int) : String :=
  let days := micros.fdiv microsPerDay
  let rest := micros.fmod microsPerDay
  let parts := [("days", days), ("seconds", rest.fdiv 1000000), ("microseconds", rest.fmod 1000000)]
  let shown := parts.filterMap fun (name, amount) =>
    if amount = 0 then none else some (name ++ "=" ++ intText amount)
  enclosed "datetime.timedelta(" ")" shown

/-- A rendered offset. -/
def renderOffset (offset : Offset) : String :=
  if offset.micros = 0 then "datetime.timezone.utc"
  else "datetime.timezone(" ++ renderSpan offset.micros ++ ")"

/-- A rendered datetime: seconds and microseconds appear up to the last that is not zero. -/
def renderDateTime (t : DateTime) : String :=
  let clock := t.time
  let fine := if clock.microsecond ≠ 0 then [clock.second, clock.microsecond]
    else if clock.second ≠ 0 then [clock.second] else []
  let numbers := [t.date.year, t.date.month, t.date.day, clock.hour, clock.minute] ++ fine
  let zone := t.offset.toList.map fun offset => "tzinfo=" ++ renderOffset offset
  enclosed "datetime.datetime(" ")" (numbers.map natText ++ zone)

mutual

/-- The rendered form of a value. -/
def render : Value → String
  | .null => "None"
  | .bool b => if b then "True" else "False"
  | .int n => intText n
  | .float x => x.display
  | .str text => Text.quoted text
  | .date d => renderDate d
  | .datetime t => renderDateTime t
  | .bytes data => Text.quotedBytes data
  | .member tag name value => "<" ++ tag.name ++ "." ++ name ++ ": " ++ value.render ++ ">"
  | .list items => enclosed "[" "]" (renderItems items)
  | .tuple [item] => "(" ++ item.render ++ ",)"
  | .tuple items => enclosed "(" ")" (renderItems items)
  | .set [] => "set()"
  | .set items => enclosed "\x7b" "\x7d" (renderItems items)
  | .frozenset [] => "frozenset()"
  | .frozenset items => enclosed "frozenset(\x7b" "\x7d)" (renderItems items)
  | .object entries => enclosed "\x7b" "\x7d" (renderEntries entries)
  | .record tag fields => tag.name ++ enclosed "(" ")" (renderFields fields)

/-- The rendered forms of items. -/
def renderItems : List Value → List String
  | [] => []
  | item :: items => item.render :: renderItems items

/-- The rendered forms of entries. -/
def renderEntries : List (Value × Value) → List String
  | [] => []
  | (key, value) :: entries => (key.render ++ ": " ++ value.render) :: renderEntries entries

/-- The rendered forms of the fields of an instance. -/
def renderFields : List (FieldTag × Value) → List String
  | [] => []
  | (tag, value) :: fields => (tag.name ++ "=" ++ value.render) :: renderFields fields

end

/-- The displayed form of a value. -/
def display : Value → String
  | .str text => text
  | .date d => String.ofList (Iso.dateText d)
  | .datetime t => String.ofList (Iso.dateTimeText ' ' t)
  | .member tag name _ => tag.name ++ "." ++ name
  | .record _ fields => " ".intercalate (renderFields fields)
  | value => value.render

def renderTexts (texts : List String) : String := (list (texts.map str)).render

end TypedReply.Value
