import TypedReply.Descriptor.Basic
import TypedReply.Error
import TypedReply.Json.Text

/-!
# Plain data

A value in plain form can be embedded in a prompt and read back: every instance becomes an object
that begins with the tag of its class, members become their values, calendar values become ISO texts
and every collection becomes a list.
-/

namespace TypedReply.Plain

def tagName (tag : RecordTag) : String :=
  if tag.isAnonymous then "AnonymousRecord" else tag.name

/-- Sets the value of a key; fails for a key that no object can have. -/
def insert (entries : Value.Entries) (key value : Value) : Outcome Value.Entries :=
  match key.unhashable? with
  | some typeName => .fault (.unhashable typeName)
  | none => .ok (entries.insert key value)

/-- Whether a field is left out, null being what its absence means. -/
def isOmitted (tag : FieldTag) (value : Value) : Bool := tag.omitsNull && value.isNull

mutual

/-- The plain form of a value. -/
def plain : Value → Outcome Value
  | .record tag fields => do
    let tagged : Value.Entries := [(.str typeKey, .str (tagName tag))]
    .ok (.object (← plainFields tagged fields))
  | .member _ _ value => .ok value
  | .date d => .ok (.str (String.ofList (Iso.dateText d)))
  | .datetime t => .ok (.str (String.ofList (Iso.dateTimeText 'T' t)))
  | .object entries => do .ok (.object (← plainEntries [] entries))
  | .list items => do .ok (.list (← plainItems items))
  | .tuple items => do .ok (.list (← plainItems items))
  | .set items => do .ok (.list (← plainItems items))
  | .frozenset items => do .ok (.list (← plainItems items))
  | value => .ok value

/-- The plain forms of items. -/
def plainItems : List Value → Outcome (List Value)
  | [] => .ok []
  | item :: items => do
    let first ← plain item
    .ok (first :: (← plainItems items))

/-- The plain forms of entries, after those done before. -/
def plainEntries (done : Value.Entries) : List (Value × Value) → Outcome Value.Entries
  | [] => .ok done
  | (key, value) :: entries => do
    let plainKey ← plain key
    let plainValue ← plain value
    plainEntries (← insert done plainKey plainValue) entries

/-- The plain forms of the fields of an instance, under their wire names. -/
def plainFields (done : Value.Entries) : List (FieldTag × Value) → Outcome Value.Entries
  | [] => .ok done
  | (tag, value) :: fields => do
    if isOmitted tag value then plainFields done fields
    else
      let plainValue ← plain value
      plainFields (done.insert (.str tag.wireName) plainValue) fields

end

/-- The plain form of a value as JSON text, on one line where no indentation is given. -/
def text (indent : Option Nat) (value : Value) : Outcome String := do
  let style := indent.elim Json.oneLine Json.pretty
  Json.text style (← plain value)

/-- The values that iteration over a value yields. -/
def iterated : Value → Outcome (List Value)
  | .list items => .ok items
  | .tuple items => .ok items
  | .set items => .ok items
  | .frozenset items => .ok items
  | .object entries => .ok (Value.Entries.keys entries)
  | .bytes data => .ok (data.map fun byte => .int byte.toNat)
  | .record _ fields => .ok (fields.map fun (tag, value) => .tuple [.str tag.name, value])
  | value =>
    match value.text? with
    | some text => .ok (text.toList.map fun c => .str (String.singleton c))
    | none => .fault (.notIterable value.typeName)

/-- The plain forms of the entries of a history that are not null. -/
def history (entries : Value) : Outcome (List Value) := do
  plainItems ((← iterated entries).filter (!·.isNull))

end TypedReply.Plain
