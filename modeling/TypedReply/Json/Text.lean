import TypedReply.Error
import TypedReply.Value.Equality

/-!
# JSON text

Plain data as JSON text: on one line, or with every item on a line of its own, indented by its
depth. Keys may be sorted: texts by code point, numbers by size. Characters are escaped only where
JSON demands it; infinities and `nan` have words of their own.
-/

namespace TypedReply.Json

/-- How JSON text is laid out. -/
structure Style where
  /-- The spaces per level when every item stands on its own line. -/
  indent : Option Nat
  comma : List Char
  colon : List Char
  sortKeys : Bool

def floatWords : FloatWords :=
  ⟨['N', 'a', 'N'], ['I', 'n', 'f', 'i', 'n', 'i', 't', 'y']⟩

/-- One character of a text. -/
def escapedChar (c : Char) : List Char :=
  if c = '"' then ['\\', '"']
  else if c = '\\' then ['\\', '\\']
  else if c = '\n' then ['\\', 'n']
  else if c = '\r' then ['\\', 'r']
  else if c = '\t' then ['\\', 't']
  else if c = Char.ofNat 8 then ['\\', 'b']
  else if c = Char.ofNat 12 then ['\\', 'f']
  else if c.toNat < 0x20 then '\\' :: 'u' :: Text.hexDigits 4 c.toNat
  else [c]

def stringText (text : String) : List Char :=
  '"' :: (text.toList.flatMap escapedChar ++ ['"'])

def integerText (n : Int) : List Char :=
  (if n < 0 then ['-'] else []) ++ decimalDigits n.natAbs

def boolText (b : Bool) : List Char :=
  if b then ['t', 'r', 'u', 'e'] else ['f', 'a', 'l', 's', 'e']

def nullText : List Char := ['n', 'u', 'l', 'l']

/-- The text of a value without parts, if JSON has one. -/
def scalarText? : Value → Option (List Char)
  | .null => some nullText
  | .bool b => some (boolText b)
  | .float x => some (x.textWith floatWords)
  | v =>
    match v.text?, v.integer? with
    | some text, _ => some (stringText text)
    | none, some n => some (integerText n)
    | none, none => none

/-- The text of a key: a scalar that is no text is quoted as it is. -/
def keyText (key : Value) : Outcome (List Char) :=
  match key.text? with
  | some text => .ok (stringText text)
  | none =>
    match scalarText? key with
    | some text => .ok ('"' :: (text ++ ['"']))
    | none => .fault (.unusableKey key.typeName)

/-- Whether two keys can be ordered. -/
def comparable (a b : Value) : Bool :=
  (a.text?.isSome && b.text?.isSome) || (a.number?.isSome && b.number?.isSome) ||
    (a.text?.isNone && a.number?.isNone && !a.isMember && a.sameType b)

/-- The order of keys: texts by code point, numbers by size. -/
def keyLe (a b : Value) : Bool :=
  match a.text?, b.text?, a.number?, b.number? with
  | some s, some t, _, _ => !decide (t < s)
  | _, _, some m, some n => !n.lt m
  | _, _, _, _ => true

/-- Fails if two neighbouring keys cannot be ordered. -/
def checkOrder : List Value → Outcome Unit
  | a :: b :: rest =>
    if comparable b a then checkOrder (b :: rest)
    else .fault (.unordered b.typeName a.typeName)
  | _ => .ok ()

/-- Entries in the order of their keys. -/
def sorted {β : Type} (entries : List (Value × β)) : Outcome (List (Value × β)) := do
  checkOrder (entries.map Prod.fst)
  .ok (entries.mergeSort fun a b => keyLe a.1 b.1)

namespace Style

/-- The break before an item at a depth. -/
def lineBreak (style : Style) (depth : Nat) : List Char :=
  match style.indent with
  | some width => '\n' :: List.replicate (width * depth) ' '
  | none => []

/-- Items between brackets; `depth` is that of the brackets. -/
def enclose (style : Style) (depth : Nat) (left right : Char) (parts : List (List Char)) :
    List Char :=
  if parts.isEmpty then [left, right]
  else
    let inner := style.lineBreak (depth + 1)
    left :: (inner ++ (style.comma ++ inner).intercalate parts ++ style.lineBreak depth ++ [right])

end Style

mutual

/-- The text of a value at a depth. -/
def write (style : Style) (depth : Nat) : Value → Outcome (List Char)
  | .list items => do
    .ok (style.enclose depth '[' ']' (← writeItems style (depth + 1) items))
  | .tuple items => do
    .ok (style.enclose depth '[' ']' (← writeItems style (depth + 1) items))
  | .object entries => do
    let written := writeEntries style (depth + 1) entries
    let ordered ← if style.sortKeys then sorted written else .ok written
    let parts ← ordered.mapM fun (key, body) => do
      .ok ((← keyText key) ++ style.colon ++ (← body))
    .ok (style.enclose depth '\x7b' '\x7d' parts)
  | v =>
    match scalarText? v with
    | some text => .ok text
    | none => .fault (.notSerializable v.typeName)

/-- The texts of items. -/
def writeItems (style : Style) (depth : Nat) : List Value → Outcome (List (List Char))
  | [] => .ok []
  | item :: items => do
    let text ← write style depth item
    .ok (text :: (← writeItems style depth items))

/-- The keys of an object, each with the text of its value. -/
def writeEntries (style : Style) (depth : Nat) :
    List (Value × Value) → List (Value × Outcome (List Char))
  | [] => []
  | (key, value) :: entries => (key, write style depth value) :: writeEntries style depth entries

end

/-- The style of text for readers: items on lines of their own, in the order given. -/
def pretty (indent : Nat) : Style := ⟨some indent, [','], [':', ' '], false⟩

def oneLine : Style := ⟨none, [',', ' '], [':', ' '], false⟩

def text (style : Style) (value : Value) : Outcome String :=
  (write style 0 value).map String.ofList

end TypedReply.Json
