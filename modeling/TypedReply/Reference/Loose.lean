import TypedReply.Reference.UnixTime
import TypedReply.Descriptor.EnumType
import TypedReply.Reference.LooseNumeral

/-!
# Scalars as record classes take them

A class takes a scalar that fits its type expression exactly, one of a narrower kind, or, leniently,
one that converts: texts that hold numbers, Booleans, dates or datetimes, zero and one as Booleans,
floats without a fraction as integers, datetimes at midnight as dates, counted seconds as datetimes.
How well a value fits decides between the members of a union.
-/

namespace TypedReply

/-- How well a value fits a type expression. -/
inductive Fit where
  | lenient
  | strict
  | exact
deriving DecidableEq

namespace Fit

/-- The rank of a fit. -/
def rank : Fit → Nat
  | .lenient => 0
  | .strict => 1
  | .exact => 2

def worse (a b : Fit) : Fit := if a.rank ≤ b.rank then a else b

end Fit

namespace Loose

abbrev Fitted := Except Problem (Value × Fit)

def lenient (value : Value) : Fitted := .ok (value, .lenient)

def decoded? (data : List UInt8) : Option String :=
  String.fromUTF8? (ByteArray.mk data.toArray)

/-- The text that a value holds, itself or encoded; bytes that encode none are the given problem. -/
def heldText? (problem : Problem) : Value → Option (Except Problem String)
  | .bytes data => some ((decoded? data).elim (.error problem) .ok)
  | value => value.text?.map .ok

/-- The bytes that a text or bytes consist of, each as the character of its code. -/
def heldBytes? : Value → Option (List Char)
  | .bytes data => some (data.map fun byte => Char.ofNat byte.toNat)
  | value => value.text?.map Rfc3339.byteChars

/-- Whether an integer lies within the range of 64 bits. -/
def isWord (n : Int) : Bool := -Int.pow 2 63 ≤ n && n < Int.pow 2 63

/-! ## Numbers and Booleans -/

/-- A float as an integer; its magnitude stays below that of the least 64-bit integer. -/
def integerOfDouble (x : Double) : Except Problem Int :=
  match x, x.toInt? with
  | _, some n => if n.natAbs < Nat.pow 2 63 then .ok n else .error .integerSize
  | .finite _ _, none => .error .integerFraction
  | _, none => .error .notFinite

/-- A value as an integer. A member that is neither text nor integer is taken for the value it
carries, whatever that is. -/
def integer (value : Value) : Fitted :=
  match value, value.integer?, heldText? .integerText value with
  | .int n, _, _ => .ok (.int n, .exact)
  | .bool b, _, _ => lenient (.int (if b then 1 else 0))
  | .float x, _, _ => (integerOfDouble x).map fun n => (.int n, .lenient)
  | _, some n, _ => .ok (.int n, .strict)
  | _, none, some held => do
    let n ← integerOfText (← held).toList
    lenient (.int n)
  | .member _ _ carried, none, none => lenient carried
  | _, none, none => .error .notInteger

/-- A value as a floating point number. -/
def double (value : Value) : Fitted :=
  match value, value.integer?, heldText? .numberText value with
  | .float x, _, _ => .ok (.float x, .exact)
  | .bool b, _, _ => lenient (.float (Double.ofDecimal false (if b then 1 else 0) 0))
  | _, some n, _ => (Double.ofInt? n).elim (.error .notNumber) fun x => .ok (.float x, .strict)
  | _, none, some held => do
    (doubleOfText? (← held).toList).elim (.error .numberText) fun x => lenient (.float x)
  | _, none, none => .error .notNumber

/-- An integer as a Boolean. -/
def boolOfInteger (n : Int) : Fitted :=
  if n = 0 then lenient (.bool false)
  else if n = 1 then lenient (.bool true)
  else .error .booleanWord

/-- A value as a Boolean. -/
def bool (value : Value) : Fitted :=
  match value, value.integer?, heldText? .booleanWord value with
  | .bool b, _, _ => .ok (.bool b, .exact)
  | .float x, _, _ =>
    match integerOfDouble x with
    | .ok n => boolOfInteger n
    | .error _ => .error .notBoolean
  | _, some n, _ => if isWord n then boolOfInteger n else .error .notBoolean
  | _, none, some held => do
    (boolOfText? (← held)).elim (.error .booleanWord) fun b => lenient (.bool b)
  | _, none, none => .error .notBoolean

/-! ## Texts and bytes -/

/-- A value as a text. -/
def text (value : Value) : Fitted :=
  match value, value.text? with
  | .str text, _ => .ok (.str text, .exact)
  | .bytes data, _ => (decoded? data).elim (.error .undecodable) fun text => lenient (.str text)
  | _, some text => .ok (.str text, .strict)
  | .member _ _ carried, none => lenient (.str carried.display)
  | _, none => .error .notText

/-- A value as bytes. -/
def bytes (value : Value) : Fitted :=
  match value, value.text? with
  | .bytes data, _ => .ok (.bytes data, .exact)
  | _, some text => lenient (.bytes text.toUTF8.toList)
  | _, none => .error .notBytes

/-! ## Dates and datetimes -/

/-- The moment that a value holds in text or stands for as a number; none for a value that is
neither. -/
def moment? (value : Value) : Option (Except StampError Moment) :=
  match value, heldBytes? value with
  | .datetime t, _ => some (.ok ⟨some t.date, t.time, t.offset⟩)
  | .date d, _ => some (.ok ⟨some d, .midnight, none⟩)
  | .float x, _ => some (UnixTime.ofDouble x)
  | .bool _, _ => none
  | _, some cs => some (UnixTime.momentOfText cs)
  | value, none => do
    let n ← value.integer?
    guard (isWord n || (Double.ofInt? n).isSome)
    some (UnixTime.ofCount n 0)

/-- A value as a date: itself, a text of a date, or else a moment that is midnight. -/
def date (value : Value) : Fitted :=
  let dated (date : Option Date) : Fitted :=
    date.elim (.error (.dateText .yearZero)) fun date => lenient (.date date)
  match value, (heldBytes? value).map UnixTime.dateOfText with
  | .date d, _ => .ok (.date d, .exact)
  | _, some (.ok date) => dated date
  | _, _ =>
    match moment? value with
    | none => .error .notDate
    | some (.error error) => .error (.dateFromText error)
    | some (.ok moment) => if moment.isMidnight then dated moment.date else .error .inexactDate

/-- A value as a datetime: itself, a moment, or else a text of a date, at midnight. -/
def dateTime (value : Value) : Fitted :=
  let stamped (t : Option DateTime) : Fitted :=
    t.elim (.error (.dateTimeText .yearZero)) fun t => lenient (.datetime t)
  match value, moment? value, (heldBytes? value).map UnixTime.dateOfText with
  | .datetime t, _, _ => .ok (.datetime t, .exact)
  | _, some (.ok moment), _ => stamped moment.dateTime?
  | _, some (.error _), some (.ok date) => stamped (date.map .startOf)
  | _, some (.error _), some (.error error) => .error (.dateTimeFromText error)
  | _, some (.error error), none => .error (.dateTimeText error)
  | _, none, _ => .error .notDateTime

/-- A value as a scalar of a kind. -/
def scalar : ScalarKind → Value → Fitted
  | .string => text
  | .int => integer
  | .float => double
  | .bool => bool
  | .date => date
  | .datetime => dateTime

/-! ## Choices -/

/-- Whether a choice is looked up before integers and texts are compared by number and content. -/
def isEager : Value → Bool
  | .int _ => false
  | .str _ => false
  | _ => true

/-- The choice that a value names: one of its own type; else, for a value that can be a key, the
last equal one that is no integer or text; else the first equal one that cannot be a key; else the
last equal Boolean, integer or text. -/
def named? {α : Type} (choices : List (Value × α)) (value : Value) : Option α :=
  let equal := choices.filter fun (choice, _) => choice.same value
  let canBeKey (v : Value) : Bool := v.unhashable?.isNone
  let own := equal.find? fun (choice, _) => choice.isPrimitive && choice.sameType value
  let eager := equal.reverse.find? fun (choice, _) =>
    isEager choice && canBeKey choice && canBeKey value
  let keyless := equal.find? fun (choice, _) => !canBeKey choice
  let primitive := equal.reverse.find? fun (choice, _) => choice.isPrimitive && canBeKey value
  (own <|> eager <|> keyless <|> primitive).map Prod.snd

/-- A value as one of the choices of a literal. -/
def choice (values : List Value) (value : Value) : Fitted :=
  match named? (values.map fun choice => (choice, choice)) value with
  | some choice => .ok (choice, .exact)
  | none => .error (.notExpected (values.map (·.render)))

/-- A value as a member of an enumeration: itself, or the member that carries it. -/
def member (cls : EnumClass) (value : Value) : Fitted :=
  if cls.has value then .ok (value, .exact)
  else
    let wanted := match cls.tag.mixin with
      | some .text => (text value).toOption.map Prod.fst
      | some .integer => (integer value).toOption.map Prod.fst
      | none => some value
    let carried := cls.members.map fun entry => (entry.2, cls.toValue entry)
    match wanted.bind (named? carried) with
    | some member => lenient member
    | none => .error (.notExpected (cls.members.map fun entry => entry.2.render))

end Loose

end TypedReply
