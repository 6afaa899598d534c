import TypedReply.Error
import TypedReply.Text.LowerCase

/-!
# Coercion to scalars

A value that already has a scalar's kind is kept. Other values are read leniently: numbers and
calendar values from text, integers from floats without a fraction, text from any scalar. Booleans
are not numbers.
-/

namespace TypedReply

/-- Whether a value has a scalar kind as it is. -/
def matchesScalar (kind : ScalarKind) (value : Value) : Bool :=
  match kind, value with
  | .string, .str _ => true
  | .int, .bool _ => false
  | .int, v => v.integer?.isSome
  | .float, .float _ => true
  | .bool, .bool _ => true
  | .date, .date _ => true
  | .datetime, .datetime _ => true
  | _, _ => false

/-- The failure of a coercion. -/
def unconvertible {α : Type} (path : Path) (expected : String) (received : Value)
    (reason : Reason) : Outcome α :=
  .error (.reply ⟨path, expected, received, .unconvertible reason⟩)

namespace Coerce

def trueWords : List String := ["true", "yes", "1"]

def falseWords : List String := ["false", "no", "0"]

/-- The text of a scalar of another kind. -/
def toText (value : Value) : Except Reason String :=
  match value with
  | .member _ _ inner => .ok inner.display
  | .bool b => .ok (if b then "true" else "false")
  | .int n => .ok (Value.intText n)
  | .float x => .ok x.display
  | .date d => .ok (String.ofList (Iso.dateText d))
  | .datetime t => .ok (String.ofList (Iso.dateTimeText 'T' t))
  | _ => .error .unsupported

/-- The integer of a text: an integer numeral, or a fractional numeral nearest to an integer. -/
def integerOfText (text : List Char) : Except Reason Int :=
  match Numeral.integer? text with
  | some n => .ok n
  | none =>
    match Numeral.double? text with
    | none => .error .notNumber
    | some x => x.toInt?.elim (.error .fractional) .ok

/-- The integer of a scalar of another kind. -/
def toInteger (value : Value) : Except Reason Int :=
  match value with
  | .bool _ => .error .booleanNotInteger
  | .float x => x.toInt?.elim (.error .fractional) .ok
  | v =>
    match v.text? with
    | some text => integerOfText (Text.trim text.toList)
    | none => .error .unsupported

/-- The floating point number of a scalar of another kind; none for an integer out of range. -/
def toDouble (value : Value) : Except Reason (Option Double) :=
  match value with
  | .bool _ => .error .booleanNotNumber
  | v =>
    match v.integer?, v.text? with
    | some n, _ => .ok (Double.ofInt? n)
    | none, some text =>
      (Numeral.double? (Text.trim text.toList)).elim (.error .notNumber) (.ok ∘ some)
    | none, none => .error .unsupported

/-- The Boolean of a scalar of another kind. -/
def toBool (value : Value) : Except Reason Bool :=
  match value.text?, value.integer? with
  | some text, _ =>
    let word := String.ofList (Text.lower (Text.trim text.toList))
    if trueWords.contains word then .ok true
    else if falseWords.contains word then .ok false
    else .error .notBoolean
  | none, some n => if n = 0 then .ok false else if n = 1 then .ok true else .error .unsupported
  | none, none => .error .unsupported

/-- The datetime of a text; a final `Z` of either case means UTC. -/
def dateTimeOfText? (text : List Char) : Option DateTime :=
  let trimmed := Text.trim text
  match trimmed.reverse with
  | last :: before =>
    if last = 'Z' ∨ last = 'z' then Iso.dateTime? (before.reverse ++ ['+', '0', '0', ':', '0', '0'])
    else Iso.dateTime? trimmed
  | [] => Iso.dateTime? trimmed

/-- The date of a text: a date, or the day of a datetime. -/
def dateOfText? (text : List Char) : Option Date :=
  Iso.date? (Text.trim text) <|> (dateTimeOfText? text).map (·.date)

/-- The date of a scalar of another kind. -/
def toDate (value : Value) : Except Reason Date :=
  match value with
  | .datetime t => .ok t.date
  | v =>
    match v.text? with
    | some text => (dateOfText? text.toList).elim (.error .notDate) .ok
    | none => .error .unsupported

/-- The datetime of a scalar of another kind. -/
def toDateTime (value : Value) : Except Reason DateTime :=
  match value with
  | .date d => .ok (.startOf d)
  | v =>
    match v.text? with
    | some text => (dateTimeOfText? text.toList).elim (.error .notDateTime) .ok
    | none => .error .unsupported

/-- Null, objects and lists are never read as scalars. -/
def isScalar : Value → Bool
  | .null => false
  | .object _ => false
  | .list _ => false
  | .tuple _ => false
  | _ => true

/-- A value of another kind read as a scalar; none for an integer beyond the floating point
range. -/
def convert (kind : ScalarKind) (value : Value) : Except Reason (Option Value) :=
  match kind with
  | .string => (toText value).map (some ∘ .str)
  | .int => (toInteger value).map (some ∘ .int)
  | .float => (toDouble value).map (·.map .float)
  | .bool => (toBool value).map (some ∘ .bool)
  | .date => (toDate value).map (some ∘ .date)
  | .datetime => (toDateTime value).map (some ∘ .datetime)

end Coerce

/-- A value as a scalar of a kind. -/
def coerceScalar (kind : ScalarKind) (value : Value) (path : Path) : Outcome Value :=
  if matchesScalar kind value then .ok value
  else if !Coerce.isScalar value then unconvertible path kind.name value .notScalar
  else
    match Coerce.convert kind value with
    | .ok (some result) => .ok result
    | .ok none => .fault .integerOverflow
    | .error reason => unconvertible path kind.name value reason

end TypedReply
