import TypedReply.Registry
import TypedReply.Reply.Discriminator
import TypedReply.Value.Fold

/-!
# Reading replies

An untyped reply is read against a descriptor. What is read depends on the reply itself and on how
its parts are read, so reading is a fold over the reply. A union is resolved by an explicit tag,
then by a sibling discriminator, then by the required fields that are present; a reply that fits no
member is kept as it is.
-/

namespace TypedReply

namespace Read

abbrev Reader := Descriptor → Path → Outcome Value

/-- The failure of a reply. -/
def fail {α : Type} (path : Path) (expected : String) (received : Value) (cause : Cause) :
    Outcome α :=
  .error (.reply ⟨path, expected, received, cause⟩)

/-- Whether a reply has the shape of a descriptor as it is. -/
def exactMatch (raw : Value) : Descriptor → Bool
  | .scalar kind => matchesScalar kind raw
  | .enum type => type.has raw
  | .array _ => raw.items?.isSome
  | .null => raw.isNull
  | .optional inner => raw.isNull || exactMatch raw inner
  | _ => false

/-- Whether a field of the type may be null. -/
def acceptsNull : Descriptor → Bool
  | .union members => Descriptor.nilable members
  | descriptor => exactMatch .null descriptor

/-- Whether an object has a key for every required field. -/
def hasRequired (entries : Value.Entries) (record : RecordView) : Bool :=
  (requiredNames record.fields).all entries.has

def isTagged (raw : Value) : Bool := (raw.get? typeKey).isSome

/-! ## Records -/

/-- What stands for a field that is absent, or null where null is not admitted. -/
def fallback (field : Field) : Value := field.default.getD .null

/-- The value of an absent field. -/
def absentField (store : Store) (field : Field) (path : Path) : Outcome Value :=
  if field.default.isSome || !field.required then .ok (fallback field)
  else fail path (field.type.kind store) .null (.missingField field.name)

/-- The record that a discriminator selects for an untagged object. -/
def discriminated? (found : List Discrimination) (entries : Value.Entries) (field : Field)
    (value : Value) : Option Descriptor := do
  let discrimination ← found.find? (·.field == field.name)
  guard (value.isObject && !isTagged value)
  discrimination.mapping.resolve? ((entries.get? discrimination.discriminator).getD .null)

/-- The value of a field that is present. -/
def presentField (found : List Discrimination) (entries : Value.Entries) (field : Field)
    (part : Part Reader) (path : Path) : Outcome Value :=
  if part.value.isNull && !field.required && !acceptsNull field.type then .ok (fallback field)
  else
    match discriminated? found entries field part.value with
    | some record => part.result record path
    | none => part.result field.type path

/-- The values of a record's fields, under the names of the fields. -/
def fieldValues (store : Store) (entries : Value.Entries) (parts : Parts Reader)
    (fields : List Field) (path : Path) : Outcome (List (Value × Value)) :=
  let found := Discrimination.detect store fields
  fields.mapM fun field => do
    let fieldPath := path ++ [Path.key field.name]
    let value ← match parts.get? field.name with
      | some part => presentField found entries field part fieldPath
      | none => absentField store field fieldPath
    .ok (.str field.name, value)

/-- The failure of a class to make an instance. -/
def constructionFailure {α : Type} (record : RecordView) (path : Path) : Rejection → Outcome α
  | .refused refusal =>
    fail (path ++ refusal.path) record.kind refusal.received
      (.construction record.kind refusal.message)
  | .fault fault => .fault fault

/-- The instance of a record's class, or the object itself for a record without one. -/
def instantiate (registry : Registry) (record : RecordView) (values : Value) (path : Path) :
    Outcome Value :=
  match record.cls with
  | none => .ok values
  | some key =>
    match registry.library.validate registry.catalog key values with
    | .ok value => .ok value
    | .error rejection => constructionFailure record path rejection

/-- Whether a reply is an instance of a record's class already. -/
def isInstanceOf (record : RecordView) (raw : Value) : Bool :=
  match record.cls with
  | some key => raw.isInstance key
  | none => false

/-- A reply as a record. -/
def readRecord (registry : Registry) (raw : Value) (parts : Parts Reader) (record : RecordView)
    (path : Path) : Outcome Value :=
  if isInstanceOf record raw then .ok raw
  else
    match raw.entries? with
    | none => fail path record.kind raw (.wrongShape .object)
    | some entries => do
      let values ← fieldValues registry.structs entries parts record.fields path
      instantiate registry record (.object (Value.Entries.ofPairs values)) path

/-- A reply as the record that its tag names. -/
def readTagged (registry : Registry) (raw : Value) (parts : Parts Reader) (tag : Value)
    (records : List (String × RecordView)) (path : Path) : Outcome Value :=
  match records.find? fun (name, _) => tag.isText name with
  | some (_, record) => readRecord registry raw parts record path
  | none =>
    let names := records.map Prod.fst
    fail (path ++ [Path.key typeKey]) (" | ".intercalate names) tag (.unknownTag names)

/-! ## Lists -/

/-- Items read in order, each under its position. -/
def readItems (element : Descriptor) (path : Path) (position : Nat) :
    List (Part Reader) → Outcome (List Value)
  | [] => .ok []
  | item :: items => do
    let value ← item.result element (path ++ [Path.index position])
    .ok (value :: (← readItems element path (position + 1) items))

/-! ## Unions -/

/-- A member of a union, with the reply read against it. -/
structure Candidate where
  member : Descriptor
  read : Path → Outcome Value

/-- The first candidate whose reading does not end in a reply error; the reply itself if there is
none. -/
def firstAccepted (raw : Value) (path : Path) : List Candidate → Outcome Value
  | [] => .ok raw
  | candidate :: candidates =>
    match candidate.read path with
    | .error (.reply _) => firstAccepted raw path candidates
    | outcome => outcome

/-- Whether a descriptor is a map. -/
def isMap : Descriptor → Bool
  | .map _ _ => true
  | _ => false

/-- A reply that is no object as a member of a union: exactly first, then leniently. -/
def readPlain (raw : Value) (candidates : List Candidate) (path : Path) : Outcome Value :=
  match candidates.find? fun candidate => exactMatch raw candidate.member with
  | some candidate => candidate.read path
  | none =>
    firstAccepted raw path <| candidates.filter fun candidate =>
      !candidate.member.isRecord && !isMap candidate.member

/-- An untagged object as a member of a union: the first record with all required fields present,
else the first map, else the object itself. -/
def readUntagged (registry : Registry) (raw : Value) (entries : Value.Entries)
    (parts : Parts Reader) (candidates : List Candidate) (path : Path) : Outcome Value :=
  let records := candidates.filterMap fun candidate =>
    candidate.member.unwrapped.record? registry.structs
  match records.find? (hasRequired entries), candidates.find? (isMap ·.member) with
  | some record, _ => readRecord registry raw parts record path
  | none, some candidate => candidate.read path
  | none, none => .ok raw

/-- The records of a union that a tag can select. -/
def taggedRecords (registry : Registry) (members : List Descriptor) :
    List (String × RecordView) :=
  (Descriptor.namedRecords registry.structs members).filterMap fun (name, record) =>
    (record.record? registry.structs).map (name, ·)

/-- A reply as a member of a union; the candidates are the members other than null. -/
def readUnion (registry : Registry) (raw : Value) (parts : Parts Reader)
    (members : List Descriptor) (candidates : List Candidate) (path : Path) : Outcome Value :=
  if raw.isNull && Descriptor.nilable members then .ok .null
  else
    match raw.entries? with
    | none => readPlain raw candidates path
    | some entries =>
      let records := taggedRecords registry members
      match entries.get? typeKey with
      | some tag =>
        if records.isEmpty then readUntagged registry raw entries parts candidates path
        else readTagged registry raw parts tag records path
      | none => readUntagged registry raw entries parts candidates path

/-- The record inside an optional that a tagged reply must name. -/
def tagged? (registry : Registry) (raw : Value) (inner : Descriptor) :
    Option (Value × String × RecordView) := do
  let record ← inner.record? registry.structs
  let name ← record.tag?
  let tag ← raw.get? typeKey
  some (tag, name, record)

/-! ## Maps -/

mutual

/-- Whether a key is read as a choice of an enumeration. A key that equals a choice is kept, and is no
choice, for what is read is made of other objects than the choices are. -/
def picks (key : Part Reader) : Descriptor → Bool
  | .enum type => !type.has key.value
  | .optional inner => picks key inner
  | .union members => (picksByShape? key members).getD (picksByTrial key members)
  | _ => false

/-- Whether the first member of a union that a key has the shape of picks a choice. -/
def picksByShape? (key : Part Reader) : List Descriptor → Option Bool
  | [] => none
  | member :: members =>
    if !member.isNull && exactMatch key.value member then some (picks key member)
    else picksByShape? key members

/-- Whether the first member of a union that a key is accepted by picks a choice. -/
def picksByTrial (key : Part Reader) : List Descriptor → Bool
  | [] => false
  | member :: members =>
    if member.isNull || member.isRecord || isMap member then picksByTrial key members
    else
      match key.result member [] with
      | .error (.reply _) => picksByTrial key members
      | _ => picks key member

end

/-- A key that was read. It has a name if it is a choice that does not equal itself, such as `nan`: a
choice is one object wherever it stands. -/
structure ReadKey where
  value : Value
  name : Option String

namespace ReadKey

/-- A key that was read as a choice, or otherwise. -/
def of (isPicked : Bool) (value : Value) : ReadKey :=
  ⟨value, if isPicked && !value.same value then some value.display else none⟩

/-- Whether two keys share a place: they are equal, or one choice. -/
def same (key other : ReadKey) : Bool :=
  key.value.same other.value || (key.name.isSome && key.name == other.name)

end ReadKey

/-- The map of entries that were read, set one after another. -/
def mapOf (pairs : List (ReadKey × Value)) : Value :=
  .object ((setAllBy ReadKey.same pairs).map fun (key, value) => (key.value, value))

/-- One entry: its key is read before its value, and must be usable as a key. -/
def readEntry (key value : Descriptor) (path : Path) (entry : Part Reader × Part Reader) :
    Outcome (ReadKey × Value) := do
  let entryPath := path ++ [Path.key entry.1.value.display]
  let newKey ← entry.1.result key entryPath
  let newValue ← entry.2.result value entryPath
  match newKey.unhashable? with
  | some typeName => .fault (.unhashable typeName)
  | none => .ok (.of (!entry.1.value.isObject && picks entry.1 key) newKey, newValue)

mutual

/-- A reply read against a descriptor by means of its parts. -/
def read (registry : Registry) (raw : Value) (parts : Parts Reader) :
    Descriptor → Path → Outcome Value
  | .scalar kind, path => coerceScalar kind raw path
  | .enum type, path => coerceEnum type raw path
  | .array element, path =>
    if raw.items?.isSome then (readItems element path 0 parts.items).map .list
    else fail path ((Descriptor.array element).kind registry.structs) raw (.wrongShape .array)
  | .map key value, path =>
    if raw.isObject then
      (parts.entries.mapM (readEntry key value path)).map mapOf
    else fail path ((Descriptor.map key value).kind registry.structs) raw (.wrongShape .object)
  | .optional inner, path =>
    if raw.isNull then .ok .null
    else
      match tagged? registry raw inner with
      | some (tag, name, record) => readTagged registry raw parts tag [(name, record)] path
      | none => read registry raw parts inner path
  | .union members, path =>
    readUnion registry raw parts members (candidates registry raw parts members) path
  | .null, path =>
    if raw.isNull then .ok .null else fail path "null" raw (.wrongShape .null)
  | .fixed record, path => readRecord registry raw parts (FixedRecord.view record) path
  | .struct id, path => readRecord registry raw parts (registry.structs.at id).view path
  | .stray value, _ => .fault (.notDescriptor value)

/-- The members of a union other than null, with the reply read against each. -/
def candidates (registry : Registry) (raw : Value) (parts : Parts Reader) :
    List Descriptor → List Candidate
  | [] => []
  | member :: members =>
    if member.isNull then candidates registry raw parts members
    else ⟨member, read registry raw parts member⟩ :: candidates registry raw parts members

end

end Read

/-- A reply read against a descriptor; `path` leads to the reply. -/
def readAt (registry : Registry) (raw : Value) (descriptor : Descriptor) (path : Path) :
    Outcome Value :=
  raw.fold (Read.read registry) descriptor path

def read (registry : Registry) (raw : Value) (descriptor : Descriptor) : Outcome Value :=
  readAt registry raw descriptor []

end TypedReply
