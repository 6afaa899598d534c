import TypedReply.Proofs.Aligned
import TypedReply.Proofs.Reply.Keys
import TypedReply.Proofs.Value.Objects
import TypedReply.Proofs.Value.Parts
import TypedReply.Reply.Read
import Mathlib.Data.List.Nodup
import Mathlib.Data.Option.Basic

/-!
# What is read

Reading against a descriptor comes down to reading the parts of the value. A tag decides between the
records of a union and before its siblings do, and null that a field does not admit gives way to what
stands for an absent field.
-/

namespace TypedReply

namespace Descriptor

/-- The name that a tag may select a descriptor by, if it is a record. -/
def tag? (store : Store) (descriptor : Descriptor) : Option String :=
  (descriptor.record? store).bind RecordView.tag?

end Descriptor

namespace Read

/-! ## Discriminators -/

/-- Discriminations are replaced by new ones or joined by them. -/
theorem forall_mem_merge {property : Discrimination → Prop} {news found : List Discrimination}
    (old : ∀ discrimination ∈ found, property discrimination)
    (new : ∀ discrimination ∈ news, property discrimination) :
    ∀ discrimination ∈ news.foldl (fun found new =>
        if found.any (·.field == new.field) then
          found.map fun old => if old.field == new.field then new else old
        else found ++ [new]) found, property discrimination := by
  induction news generalizing found with
  | nil => exact old
  | cons first rest ih =>
      have isFirst := new first List.mem_cons_self
      refine ih ?_ fun discrimination isLater => new discrimination (List.mem_cons_of_mem _ isLater)
      dsimp only
      split
      · intro discrimination isFound
        obtain ⟨before, isOld, rfl⟩ := List.mem_map.mp isFound
        split
        · exact isFirst
        · exact old before isOld
      · intro discrimination isFound
        rcases List.mem_append.mp isFound with isOld | isNew
        · exact old discrimination isOld
        · exact List.mem_singleton.mp isNew ▸ isFirst

/-- A field that is discriminated by the field before it is a union, whose records the mapping
names. -/
theorem exists_members_of_ofPair? {store : Store} {previous field : Field}
    {found : Discrimination} (ofPair : Discrimination.ofPair? store previous field = some found) :
    ∃ members, field.type.unwrapped = .union members ∧
      found = ⟨field.name, previous.name,
        Descriptor.typeMapping store members previous.type⟩ := by
  simp only [Discrimination.ofPair?] at ofPair
  split at ofPair
  next members isUnion =>
    refine ⟨members, isUnion, ?_⟩
    split at ofPair
    · split at ofPair
      · cases ofPair
      · exact (Option.some.inj ofPair).symm
    · cases ofPair
  next => cases ofPair

/-- Every discrimination is of a field by another one. -/
theorem exists_pair_of_mem_detect {store : Store} {fields : List Field} {found : Discrimination}
    (isFound : found ∈ Discrimination.detect store fields) :
    ∃ previous, ∃ field ∈ fields, Discrimination.ofPair? store previous field = some found := by
  have each : ∀ new ∈ (fields.zip fields.tail).filterMap
        fun pair => Discrimination.ofPair? store pair.1 pair.2,
      ∃ previous, ∃ field ∈ fields, Discrimination.ofPair? store previous field = some new := by
    intro new isNew
    obtain ⟨⟨previous, field⟩, isPair, ofPair⟩ := List.mem_filterMap.mp isNew
    exact ⟨previous, field, List.mem_of_mem_tail (List.of_mem_zip isPair).2, ofPair⟩
  exact forall_mem_merge (List.forall_mem_nil _) each found isFound

theorem exists_field_of_mem_detect {store : Store} {fields : List Field} {found : Discrimination}
    (isFound : found ∈ Discrimination.detect store fields) :
    ∃ field ∈ fields, field.name = found.field ∧
      ∃ members, field.type.unwrapped = .union members := by
  obtain ⟨previous, field, isField, ofPair⟩ := exists_pair_of_mem_detect isFound
  obtain ⟨members, isUnion, rfl⟩ := exists_members_of_ofPair? ofPair
  exact ⟨field, isField, rfl, members, isUnion⟩

/-- No sibling chooses the record of a field, unless the field is a union and its value an object
without a tag. -/
theorem discriminated?_eq_none {store : Store} {fields : List Field}
    (distinct : (fields.map (·.name)).Nodup) {field : Field} (isField : field ∈ fields)
    (entries : Value.Entries) {value : Value}
    (tagged : ∀ members, field.type.unwrapped = .union members → value.isObject = true →
      isTagged value = true) :
    discriminated? (Discrimination.detect store fields) entries field value = none := by
  unfold discriminated?
  cases hit : (Discrimination.detect store fields).find? (·.field == field.name) with
  | none => rfl
  | some found =>
      obtain ⟨other, isOther, sameName, members, isUnion⟩ :=
        exists_field_of_mem_detect (List.mem_of_find?_eq_some hit)
      have isNamed : found.field = field.name := by simpa using List.find?_some hit
      obtain rfl : other = field :=
        List.inj_on_of_nodup_map distinct isOther isField (sameName.trans isNamed)
      have unguarded : (value.isObject && !isTagged value) = false := by
        cases isObject : value.isObject with
        | false => rfl
        | true => simp [tagged members isUnion isObject]
      simp only [Option.bind_eq_bind, Option.bind_some, unguarded, guard]
      rfl

end Read

/-! ## Reading -/

/-- A value is read as another against a descriptor, wherever it stands. -/
def ReadsAs (registry : Registry) (descriptor : Descriptor) (value result : Value) : Prop :=
  ∀ path, readAt registry value descriptor path = .ok result

variable {registry : Registry} {value : Value}

/-- Reading is the step of reading at a value and its parts. -/
theorem readAt_eq (registry : Registry) (value : Value) (descriptor : Descriptor) (path : Path) :
    readAt registry value descriptor path =
      Read.read registry value (value.parts (Read.read registry)) descriptor path := by
  rw [readAt, Value.fold_eq]

open Read

/-- A record is read by reading its fields. -/
theorem read_eq_readRecord {descriptor : Descriptor} {record : RecordView}
    (isRecord : descriptor.record? registry.structs = some record) (raw : Value)
    (parts : Parts Reader) (path : Path) :
    Read.read registry raw parts descriptor path = readRecord registry raw parts record path := by
  cases descriptor <;> cases isRecord <;> simp only [Read.read]

/-! ### Tags -/

/-- A descriptor with a name is a record of that name, and no optional. -/
theorem exists_record_of_tag? {store : Store} {descriptor : Descriptor} {name : String}
    (named : descriptor.tag? store = some name) :
    descriptor.unwrapped = descriptor ∧
      ∃ record, descriptor.record? store = some record ∧ record.tag? = some name := by
  obtain ⟨record, isRecord, isName⟩ := Option.bind_eq_some_iff.mp named
  refine ⟨?_, record, isRecord, isName⟩
  cases descriptor <;> first | rfl | cases isRecord

/-- The records that tags select among members that are records with names: one for each, under its
name. -/
theorem taggedRecords_of_names (registry : Registry) {members : List Descriptor}
    {names : List String} (named : (Descriptor.nonNull members).map
      (Descriptor.tag? registry.structs) = names.map some) :
    (taggedRecords registry members).map Prod.fst = names ∧
      List.Forall₂ (fun member entry => member.record? registry.structs = some entry.2 ∧
        entry.2.tag? = some entry.1) (Descriptor.nonNull members)
        (taggedRecords registry members) := by
  unfold taggedRecords Descriptor.namedRecords
  generalize Descriptor.nonNull members = others at named ⊢
  induction others generalizing names with
  | nil =>
      obtain rfl : names = [] := by simpa using named
      exact ⟨rfl, .nil⟩
  | cons member rest ih =>
      cases names with
      | nil => cases named
      | cons name names =>
          simp only [List.map_cons, List.cons.injEq] at named
          obtain ⟨unwrapped, record, isRecord, isName⟩ := exists_record_of_tag? named.1
          obtain ⟨sameNames, aligned⟩ := ih named.2
          simp only [List.filterMap_cons, unwrapped, isRecord, isName, Option.bind_eq_bind,
            Option.bind_some, Option.map_some, List.map_cons]
          exact ⟨congrArg (name :: ·) sameNames, .cons ⟨isRecord, isName⟩ aligned⟩

/-- The record of a tag is read against the record that has its name. -/
theorem readTagged_of_mem {records : List (String × RecordView)}
    (distinct : (records.map Prod.fst).Nodup) {name : String} {record : RecordView}
    (isRecord : (name, record) ∈ records) (raw : Value) (parts : Parts Reader) (path : Path) :
    readTagged registry raw parts (.str name) records path =
      readRecord registry raw parts record path := by
  have found : records.find? (fun entry => (Value.str name).isText entry.1) =
      some (name, record) := by
    induction records with
    | nil => cases isRecord
    | cons first rest ih =>
        simp only [List.map_cons, List.nodup_cons] at distinct
        rcases List.mem_cons.mp isRecord with rfl | isLater
        · simp [Value.isText, Value.text?]
        · have different : name ≠ first.1 := by
            rintro rfl
            exact distinct.1 (List.mem_map.mpr ⟨_, isLater, rfl⟩)
          simpa [List.find?_cons, Value.isText, Value.text?, different] using ih distinct.2 isLater
  simp only [readTagged, found]

/-- A tagged value is read against a record among those that the tag may name, or refused. -/
theorem readTagged_cases (registry : Registry) (raw : Value) (parts : Parts Reader) (tag : Value)
    (records : List (String × RecordView)) (path : Path) :
    (∃ name record, (name, record) ∈ records ∧
      readTagged registry raw parts tag records path = readRecord registry raw parts record path) ∨
    ∃ error, readTagged registry raw parts tag records path = .error (.reply error) := by
  unfold readTagged
  split
  next name record found => exact .inl ⟨name, record, List.mem_of_find?_eq_some found, rfl⟩
  next => exact .inr ⟨_, rfl⟩

/-- The record inside an optional that a value must name is what is inside, and has a name. -/
theorem record?_of_tagged? {inner : Descriptor} {tag : Value} {name : String} {record : RecordView}
    (selected : tagged? registry value inner = some (tag, name, record)) :
    inner.record? registry.structs = some record ∧ record.tag? = some name ∧
      value.get? typeKey = some tag := by
  simp only [tagged?, Option.bind_eq_bind, Option.bind_eq_some_iff] at selected
  obtain ⟨_, isRecord, _, isName, _, isTag, same⟩ := selected
  cases same
  exact ⟨isRecord, isName, isTag⟩

/-- A value that is not null is read against an optional as against what is inside, unless it carries
another tag than the name of this. -/
theorem readAt_optional_of_admitted {inner : Descriptor} (present : value.isNull = false)
    (admitted : ∀ name tag, inner.tag? registry.structs = some name →
      value.get? typeKey = some tag → tag.isText name = true) (path : Path) :
    readAt registry value (.optional inner) path = readAt registry value inner path := by
  rw [readAt_eq, readAt_eq, Read.read]
  simp only [present, Bool.false_eq_true, if_false]
  cases selected : tagged? registry value inner with
  | none => rfl
  | some choice =>
      obtain ⟨tag, name, record⟩ := choice
      obtain ⟨isRecord, isName, isTag⟩ := record?_of_tagged? selected
      have named : inner.tag? registry.structs = some name :=
        Option.bind_eq_some_iff.mpr ⟨record, isRecord, isName⟩
      rw [read_eq_readRecord isRecord]
      simp only [readTagged, List.find?_cons, admitted name tag named isTag]

/-- A value that is not null is read against an optional as against what is inside, whose tag it
carries if that has a name. -/
theorem readAt_optional {inner : Descriptor} (present : value.isNull = false)
    (tagged : ∀ name, inner.tag? registry.structs = some name →
      value.get? typeKey = some (.str name)) (path : Path) :
    readAt registry value (.optional inner) path = readAt registry value inner path := by
  apply readAt_optional_of_admitted present
  intro name tag named isTag
  rw [tagged name named] at isTag
  cases isTag
  rw [Value.isText_str, beq_self_eq_true]

/-- A value that carries another tag than the name of what is inside an optional is refused. -/
theorem exists_error_of_readAt_optional {inner : Descriptor} {name : String} {tag : Value}
    (present : value.isNull = false) (named : inner.tag? registry.structs = some name)
    (isTag : value.get? typeKey = some tag) (other : tag.isText name = false) (path : Path) :
    ∃ error, readAt registry value (.optional inner) path = .error (.reply error) := by
  obtain ⟨record, isRecord, isName⟩ := Option.bind_eq_some_iff.mp named
  have selected : tagged? registry value inner = some (tag, name, record) := by
    simp only [tagged?, isRecord, isName, isTag, Option.bind_eq_bind, Option.bind_some]
  rw [readAt_eq, Read.read]
  simp only [present, Bool.false_eq_true, if_false, selected, readTagged, List.find?_cons, other,
    List.find?_nil]
  exact ⟨_, rfl⟩

/-- An object that carries the tag of a member is read against a union of named records as against
the member. -/
theorem readAt_union {members : List Descriptor} {names : List String} (distinct : names.Nodup)
    (named : (Descriptor.nonNull members).map (Descriptor.tag? registry.structs) = names.map some)
    {member : Descriptor} (isMember : member ∈ Descriptor.nonNull members) {name : String}
    (isName : member.tag? registry.structs = some name)
    (isTag : value.get? typeKey = some (.str name)) (path : Path) :
    readAt registry value (.union members) path = readAt registry value member path := by
  obtain ⟨sameNames, aligned⟩ := taggedRecords_of_names registry named
  obtain ⟨⟨other, record⟩, isChoice, isRecord, isOther⟩ := exists_right_of_mem aligned isMember
  have sameTag : member.tag? registry.structs = some other :=
    Option.bind_eq_some_iff.mpr ⟨record, isRecord, isOther⟩
  obtain rfl : name = other := Option.some.inj (isName.symm.trans sameTag)
  obtain ⟨entries, rfl⟩ : ∃ entries, value = .object entries := by
    cases value <;> simp_all [Value.get?, Value.entries?]
  have nonempty : (taggedRecords registry members).isEmpty = false :=
    List.isEmpty_eq_false_iff.mpr (List.ne_nil_of_mem isChoice)
  have found : Value.Entries.get? entries typeKey = some (.str name) := isTag
  rw [readAt_eq, readAt_eq, Read.read, read_eq_readRecord isRecord]
  simp only [readUnion, Value.isNull, Bool.false_and, Value.entries?, found, nonempty]
  exact readTagged_of_mem (sameNames ▸ distinct) isChoice _ _ _

/-! ### Parts -/

/-- The value of a field of a record, present or absent. -/
def readField (store : Store) (fields : List Field) (entries : Value.Entries) (parts : Parts Reader)
    (field : Field) (path : Path) : Outcome Value :=
  match parts.get? field.name with
  | some part => presentField (Discrimination.detect store fields) entries field part path
  | none => absentField store field path

/-- The values of fields are read one by one, each under its name. -/
theorem fieldValues_eq (store : Store) (entries : Value.Entries) (parts : Parts Reader)
    (fields : List Field) (path : Path) :
    fieldValues store entries parts fields path = fields.mapM fun field =>
      (readField store fields entries parts field (path ++ [Path.key field.name])).map
        fun value => (.str field.name, value) := by
  refine mapM_congr fun field _ => ?_
  unfold readField
  cases parts.get? field.name <;> rfl

theorem fieldValues_eq_ok_iff {store : Store} {entries : Value.Entries} {parts : Parts Reader}
    {fields : List Field} {path : Path} {results : List (Value × Value)} :
    fieldValues store entries parts fields path = .ok results ↔
      List.Forall₂ (fun field result => ∃ value, readField store fields entries parts field
        (path ++ [Path.key field.name]) = .ok value ∧ (.str field.name, value) = result)
        fields results := by
  simp only [fieldValues_eq, mapM_eq_ok_iff, map_eq_ok_iff]

/-- The values that a pass through a list puts under names stand under those names. -/
theorem exists_named_of_mapM {α : Type} {name : α → String} {reader : α → Outcome Value}
    {values : List α} {results : List (Value × Value)}
    (areRead : (values.mapM fun value => (reader value).map fun result => (.str (name value), result)) =
      .ok results) :
    ∃ named : Fields, results = Value.entriesOf named ∧
      List.Forall₂ (fun value entry => entry.1 = name value ∧ reader value = .ok entry.2)
        values named := by
  rw [mapM_eq_ok_iff] at areRead
  induction areRead with
  | nil => exact ⟨[], rfl, .nil⟩
  | @cons value _ _ _ isFirst _ ih =>
      obtain ⟨result, isRead, rfl⟩ := map_eq_ok_iff.mp isFirst
      obtain ⟨named, rfl, each⟩ := ih
      exact ⟨(name value, result) :: named, rfl, .cons ⟨rfl, isRead⟩ each⟩

/-- The values that are read for fields stand under the names of the fields. -/
theorem exists_named_of_fieldValues {store : Store} {entries : Value.Entries}
    {parts : Parts Reader} {fields : List Field} {path : Path} {results : List (Value × Value)}
    (areRead : fieldValues store entries parts fields path = .ok results) :
    ∃ named : Fields, results = Value.entriesOf named ∧
      List.Forall₂ (fun field entry => entry.1 = field.name ∧
        readField store fields entries parts field (path ++ [Path.key field.name]) = .ok entry.2)
        fields named := by
  rw [fieldValues_eq] at areRead
  exact exists_named_of_mapM areRead

theorem fieldValues_of_aligned {store : Store} {entries : Value.Entries} {parts : Parts Reader}
    {fields : List Field} {path : Path} {values : List Value}
    (each : List.Forall₂ (fun field value => readField store fields entries parts field
      (path ++ [Path.key field.name]) = .ok value) fields values) :
    fieldValues store entries parts fields path =
      .ok (Value.entriesOf ((fields.map (·.name)).zip values)) := by
  rw [fieldValues_eq_ok_iff]
  generalize all : readField store fields entries parts = reader at each ⊢
  clear all
  induction each with
  | nil => exact .nil
  | cons isFirst _ ih => exact .cons ⟨_, isFirst, rfl⟩ ih

/-- The value of a field that is present is read against the record that a sibling chooses, or else
against the type of the field, unless it is null that gives way. -/
theorem presentField_toPart (found : List Discrimination) (entries : Value.Entries) (field : Field)
    (part : Value) (path : Path) :
    presentField found entries field (Value.toPart (Read.read registry) part) path =
      if part.isNull && !field.required && !acceptsNull field.type then .ok (fallback field)
      else readAt registry part ((discriminated? found entries field part).getD field.type) path := by
  unfold presentField
  cases chosen : discriminated? found entries field part <;> simp only [Value.toPart, chosen] <;> rfl

/-- The value of a field that is present is read against the type of the field, if no sibling chooses
another record for it, and it is not null or null is admitted or demanded. -/
theorem presentField_eq {fields : List Field} {entries : Value.Entries} {field : Field}
    {part : Value}
    (undiscriminated : discriminated? (Discrimination.detect registry.structs fields) entries field
      part = none)
    (kept : (part.isNull && !field.required && !acceptsNull field.type) = false) (path : Path) :
    presentField (Discrimination.detect registry.structs fields) entries field
      (Value.toPart (Read.read registry) part) path = readAt registry part field.type path := by
  rw [presentField_toPart, undiscriminated, kept]
  rfl

/-- An object is read as a record by reading the fields of the record and making an instance of what
is read. -/
theorem readRecord_object (record : RecordView) (entries : Value.Entries) (parts : Parts Reader)
    (path : Path) : readRecord registry (.object entries) parts record path = (do
      let values ← fieldValues registry.structs entries parts record.fields path
      instantiate registry record (.object (Value.Entries.ofPairs values)) path) := by
  have notInstance : isInstanceOf record (.object entries) = false := by
    unfold isInstanceOf
    split <;> rfl
  simp only [readRecord, notInstance, Bool.false_eq_true, if_false, Value.entries?]

/-- An object is read against a descriptor of a record as that record. -/
theorem readAt_record {descriptor : Descriptor} {record : RecordView}
    (isRecord : descriptor.record? registry.structs = some record) (entries : Value.Entries)
    (path : Path) : readAt registry (.object entries) descriptor path = (do
      let values ← fieldValues registry.structs entries
        ((Value.object entries).parts (Read.read registry)) record.fields path
      instantiate registry record (.object (Value.Entries.ofPairs values)) path) := by
  rw [readAt_eq, read_eq_readRecord isRecord, readRecord_object]

/-- Named values are read one by one, each under its name. -/
theorem readAt_map (element : Descriptor) (fields : Fields) (path : Path) :
    readAt registry (.ofFields fields) (.map (.scalar .string) element) path =
      (fields.mapM fun field => (readAt registry field.2 element (path ++ [Path.key field.1])).map
        fun value => (.str field.1, value)).map fun pairs => .object (Value.Entries.ofPairs pairs) := by
  have entries : ((Value.ofFields fields).parts (Read.read registry)).entries.mapM
      (readEntry (.scalar .string) element path) = (fields.mapM fun field =>
        (readAt registry field.2 element (path ++ [Path.key field.1])).map
          fun value => (Value.str field.1, value)).map (List.map (Prod.map (⟨·, none⟩) id)) := by
    rw [Value.ofFields_eq, Value.parts, Value.entriesOf, List.map_map, List.mapM_map, ← mapM_map]
    apply mapM_congr
    intro field _
    -- The key is a text, which is read as it is.
    change (readAt registry field.2 element (path ++ [Path.key field.1]) >>= fun value =>
      .ok ((⟨.str field.1, none⟩ : ReadKey), value)) = _
    cases readAt registry field.2 element (path ++ [Path.key field.1]) <;> rfl
  rw [readAt_eq, Read.read, Value.isObject_ofFields, if_pos rfl, entries]
  generalize (fields.mapM _ : Outcome (List (Value × Value))) = outcome
  cases outcome with
  | ok pairs => exact congrArg Except.ok (mapOf_nameless pairs)
  | error failure => rfl

namespace ReadsAs

/-- A list is read item by item. -/
theorem array {element : Descriptor} {items results : List Value}
    (each : List.Forall₂ (ReadsAs registry element) items results) :
    ReadsAs registry (.array element) (.list items) (.list results) := by
  have reads (position : Nat) (path : Path) :
      readItems element path position (items.map (Value.toPart (Read.read registry))) =
        .ok results := by
    induction each generalizing position with
    | nil => rfl
    | cons isFirst _ ih =>
        have first := isFirst (path ++ [Path.index position])
        rw [readAt] at first
        simp only [List.map_cons, readItems, Value.toPart, first, ih, bind, Except.bind]
  intro path
  simp only [readAt_eq, Read.read, Value.items?, Option.isSome_some, if_true, Value.parts, reads,
    Except.map]

/-- Named values are read one by one. -/
theorem map {element : Descriptor} {fields results : Fields}
    (each : List.Forall₂ (fun field result => field.1 = result.1 ∧
      ReadsAs registry element field.2 result.2) fields results) :
    ReadsAs registry (.map (.scalar .string) element) (.ofFields fields)
      (.object (Value.Entries.ofPairs (Value.entriesOf results))) := by
  intro path
  rw [readAt_map, mapM_eq_ok_iff.mpr]
  · rfl
  rw [Value.entriesOf, List.forall₂_map_right_iff]
  apply each.imp
  intro field result isRead
  rw [isRead.2, isRead.1]
  rfl

end ReadsAs

end TypedReply
