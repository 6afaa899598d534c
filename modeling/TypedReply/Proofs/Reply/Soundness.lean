import TypedReply.Proofs.Record.Taking
import TypedReply.Proofs.Reference.Library
import TypedReply.Proofs.Reply.Location

/-!
# What is read has its type

Whatever a reply is read as inhabits the descriptor that it was read against: scalars have their
kind, choices are offered, lists and maps hold what inhabits their descriptors, records have exactly
the declared fields or are instances of their class. Only a union may keep the reply as it is, and
does so only if none of its members applies.
-/

namespace TypedReply

open Read

/-! ## Inhabitants -/

/-- A value is a choice of an enumeration: a member of its class, or one of the listed choices,
itself or one of its type that equals it. -/
def EnumType.Offers : EnumType → Value → Prop
  | .choices values, value => ∃ choice ∈ values,
      value = choice ∨ value.sameType choice = true ∧ value.same choice = true
  | .ofClass cls, value => cls.has value = true

/-- No member of a union applies to a reply: to an object, because its tag selects nothing, every
record lacks a required field, and there is no map; to any other reply, because it has the shape of
no member, and each that is neither a record nor a map refuses it. -/
inductive Inapplicable (registry : Registry) (members : List Descriptor) : Value → Prop where
  | object {entries : Value.Entries}
      (untagged : entries.get? typeKey = none ∨
        Descriptor.namedRecords registry.structs members = [])
      (incomplete : ∀ member ∈ Descriptor.nonNull members, ∀ record,
        member.unwrapped.record? registry.structs = some record →
          ∃ name ∈ requiredNames record.fields, entries.has name = false)
      (noMap : ∀ key value, .map key value ∉ Descriptor.nonNull members) :
      Inapplicable registry members (.object entries)
  | plain {raw : Value} (notObject : raw.isObject = false)
      (inexact : ∀ member ∈ Descriptor.nonNull members, exactMatch raw member = false)
      (refused : ∀ member ∈ Descriptor.nonNull members, member.isRecord = false →
        isMap member = false → ∃ error, read registry raw member = .error (.reply error)) :
      Inapplicable registry members raw

mutual

/-- What a reply is read as inhabits a descriptor. -/
inductive Inhabits (registry : Registry) : Descriptor → Value → Value → Prop where
  | scalar {kind : ScalarKind} {raw value : Value} (typed : matchesScalar kind value = true) :
      Inhabits registry (.scalar kind) raw value
  | enum {type : EnumType} {raw value : Value} (offered : type.Offers value) :
      Inhabits registry (.enum type) raw value
  | array {element : Descriptor} {raw : Value} {items results : List Value}
      (isList : raw.items? = some items) (each : InhabitEach registry element items results) :
      Inhabits registry (.array element) raw (.list results)
  | map {key element : Descriptor} {entries results : Value.Entries}
      (keys : ∀ newKey ∈ results.keys, InhabitsOneOf registry key entries.keys newKey)
      (values : ∀ newValue ∈ results.values,
        InhabitsOneOf registry element entries.values newValue) :
      Inhabits registry (.map key element) (.object entries) (.object results)
  | absent {inner : Descriptor} : Inhabits registry (.optional inner) .null .null
  | present {inner : Descriptor} {raw value : Value}
      (inhabits : Inhabits registry inner raw value) :
      Inhabits registry (.optional inner) raw value
  | null : Inhabits registry .null .null .null
  /-- A record with a class is an instance of the class. -/
  | instance {descriptor : Descriptor} {record : RecordView} {key : ClassKey} {raw value : Value}
      (isRecord : descriptor.record? registry.structs = some record)
      (hasClass : record.cls = some key) (isInstance : value.isInstance key = true) :
      Inhabits registry descriptor raw value
  /-- A record without a class holds a value under each declared name, in order of declaration. -/
  | object {descriptor : Descriptor} {record : RecordView} {entries : Value.Entries}
      {results : Fields} (isRecord : descriptor.record? registry.structs = some record)
      (classless : record.cls = none)
      (names : results.map Prod.fst = (record.fields.map (·.name)).eraseDups)
      (each : ∀ result ∈ results, InhabitsField registry record.fields entries result) :
      Inhabits registry descriptor (.object entries) (.ofFields results)
  | member {members : List Descriptor} {member : Descriptor} {raw value : Value}
      (isMember : member ∈ Descriptor.nonNull members)
      (inhabits : Inhabits registry member raw value) :
      Inhabits registry (.union members) raw value
  | nil {members : List Descriptor} (isNil : Descriptor.nilable members = true) :
      Inhabits registry (.union members) .null .null
  | unchanged {members : List Descriptor} {raw : Value}
      (inapplicable : Inapplicable registry members raw) :
      Inhabits registry (.union members) raw raw

/-- What several values are read as inhabits a descriptor, one by one. -/
inductive InhabitEach (registry : Registry) : Descriptor → List Value → List Value → Prop where
  | nil {element : Descriptor} : InhabitEach registry element [] []
  | cons {element : Descriptor} {raw value : Value} {raws values : List Value}
      (first : Inhabits registry element raw value)
      (rest : InhabitEach registry element raws values) :
      InhabitEach registry element (raw :: raws) (value :: values)

/-- What one of several values is read as inhabits a descriptor. -/
inductive InhabitsOneOf (registry : Registry) : Descriptor → List Value → Value → Prop where
  | intro {descriptor : Descriptor} {raws : List Value} {raw value : Value} (isRaw : raw ∈ raws)
      (inhabits : Inhabits registry descriptor raw value) :
      InhabitsOneOf registry descriptor raws value

/-- What a record holds under a declared name: what is read of the part that is given under it, the
default, or null for a field that need not be given and has none. -/
inductive InhabitsField (registry : Registry) :
    List Field → Value.Entries → String × Value → Prop where
  | given {fields : List Field} {entries : Value.Entries} {field : Field} {part value : Value}
      (isField : field ∈ fields) (isPart : entries.get? field.name = some part)
      (inhabits : Inhabits registry field.type part value) :
      InhabitsField registry fields entries (field.name, value)
  | default {fields : List Field} {entries : Value.Entries} {field : Field} {value : Value}
      (isField : field ∈ fields)
      (omitted : ∀ part, entries.get? field.name = some part → part = .null)
      (declared : field.default = some value) :
      InhabitsField registry fields entries (field.name, value)
  | missing {fields : List Field} {entries : Value.Entries} {field : Field}
      (isField : field ∈ fields)
      (omitted : ∀ part, entries.get? field.name = some part → part = .null)
      (undeclared : field.default = none) (optional : field.required = false) :
      InhabitsField registry fields entries (field.name, .null)

end

variable {registry : Registry} {raw value : Value}

/-- What inhabits the inside of an optional inhabits the optional. -/
theorem Inhabits.of_unwrapped {descriptor : Descriptor}
    (inhabits : Inhabits registry descriptor.unwrapped raw value) :
    Inhabits registry descriptor raw value := by
  cases descriptor with
  | optional inner => exact .present inhabits
  | _ => exact inhabits

/-! ## Scalars and choices -/

theorem matchesScalar_of_coerceScalar {kind : ScalarKind} {path : Path}
    (coerced : coerceScalar kind raw path = .ok value) : matchesScalar kind value = true := by
  unfold coerceScalar at coerced
  split at coerced
  next isMatch =>
    cases coerced
    exact isMatch
  split at coerced
  · cases coerced
  split at coerced
  next result converted =>
    obtain rfl : result = value := Except.ok.inj coerced
    cases kind <;> obtain ⟨held, -, same⟩ := map_eq_ok_iff.mp converted
    case float =>
      obtain ⟨x, -, rfl⟩ := Option.map_eq_some_iff.mp same
      rfl
    all_goals
      cases same
      rfl
  · cases coerced
  · cases coerced

namespace EnumType

theorem offers_of_mem_named {type : EnumType} {label : String} {names : List String}
    (isNamed : (label, names, value) ∈ type.named) : type.Offers value := by
  cases type with
  | choices values =>
      obtain ⟨⟨_, choice⟩, isPair, same⟩ := List.mem_map.mp isNamed
      cases same
      exact ⟨value, (List.of_mem_zip isPair).2, .inl rfl⟩
  | ofClass cls =>
      obtain ⟨entry, -, same⟩ := List.mem_map.mp isNamed
      cases same
      simp [Offers, EnumClass.has, EnumClass.toValue]

theorem exists_mem_named_of_choose? {type : EnumType} {tag : String}
    (chosen : type.choose? tag = some value) : ∃ label names, (label, names, value) ∈ type.named := by
  obtain ⟨⟨label, names, choice⟩, found, rfl⟩ := Option.map_eq_some_iff.mp chosen
  simp only [Option.orElse_eq_orElse, Option.orElse_eq_or, Option.or_eq_some_iff] at found
  rcases found with exactly | ⟨-, loosely⟩
  · exact ⟨label, names, List.mem_of_find?_eq_some exactly⟩
  · exact ⟨label, names, List.mem_of_find?_eq_some loosely⟩

theorem offers_of_choose? {type : EnumType} {tag : String} (chosen : type.choose? tag = some value) :
    type.Offers value := by
  obtain ⟨label, names, isNamed⟩ := exists_mem_named_of_choose? chosen
  exact offers_of_mem_named isNamed

theorem offers_of_has {type : EnumType} (has : type.has value = true) : type.Offers value := by
  cases type with
  | choices values =>
      obtain ⟨choice, isChoice, same⟩ := List.any_eq_true.mp has
      exact ⟨choice, isChoice, .inr (by simpa using same)⟩
  | ofClass cls => exact has

end EnumType

theorem offers_of_coerceEnum {type : EnumType} {path : Path}
    (coerced : coerceEnum type raw path = .ok value) : type.Offers value := by
  unfold coerceEnum at coerced
  split at coerced
  next has =>
    cases coerced
    exact EnumType.offers_of_has has
  dsimp only at coerced
  split at coerced
  · cases coerced
  split at coerced
  next chosen =>
    cases coerced
    exact EnumType.offers_of_choose? chosen
  · cases coerced

/-! ## Discriminators -/

/-- A descriptor is a member of a union, as it is or inside an optional. -/
def Descriptor.IsMemberOf (members : List Descriptor) (descriptor : Descriptor) : Prop :=
  ∃ member ∈ nonNull members, member.unwrapped = descriptor

namespace Read

/-- The named records of a union are members of it, and records. -/
theorem of_mem_namedRecords {store : Store} {members : List Descriptor}
    {pair : String × Descriptor} (isPair : pair ∈ Descriptor.namedRecords store members) :
    pair.2.IsMemberOf members ∧ ∃ record, pair.2.record? store = some record := by
  obtain ⟨member, isMember, isNamed⟩ := List.mem_filterMap.mp isPair
  simp only [Option.bind_eq_bind, Option.bind_eq_some_iff] at isNamed
  obtain ⟨record, isRecord, _, -, same⟩ := isNamed
  rw [← Option.some.inj same]
  exact ⟨⟨member, isMember, rfl⟩, record, isRecord⟩

/-- A union without records that tags select has no named records. -/
theorem namedRecords_eq_nil {registry : Registry} {members : List Descriptor}
    (none : (taggedRecords registry members).isEmpty = true) :
    Descriptor.namedRecords registry.structs members = [] := by
  rw [List.eq_nil_iff_forall_not_mem]
  intro pair isPair
  obtain ⟨-, record, isRecord⟩ := of_mem_namedRecords isPair
  have isTagged : (pair.1, record) ∈ taggedRecords registry members :=
    List.mem_filterMap.mpr ⟨pair, isPair, by simp [isRecord]⟩
  rw [List.isEmpty_iff.mp none] at isTagged
  cases isTagged

/-- A record that a tag selects is a record among the members of the union. -/
theorem exists_member_of_mem_taggedRecords {registry : Registry} {members : List Descriptor}
    {name : String} {record : RecordView}
    (isTagged : (name, record) ∈ taggedRecords registry members) :
    ∃ member ∈ Descriptor.nonNull members,
      member.unwrapped.record? registry.structs = some record := by
  obtain ⟨pair, isPair, same⟩ := List.mem_filterMap.mp isTagged
  obtain ⟨_, isRecord, same⟩ := Option.map_eq_some_iff.mp same
  cases same
  obtain ⟨⟨member, isMember, isOwn⟩, -⟩ := of_mem_namedRecords isPair
  exact ⟨member, isMember, isOwn ▸ isRecord⟩

theorem forall_mem_offerAll {property : Descriptor → Prop} {mapping : TypeMapping}
    (known : ∀ entry ∈ mapping, property entry.2) (names : List String) {record : Descriptor}
    (isRecord : property record) : ∀ entry ∈ mapping.offerAll names record, property entry.2 := by
  unfold TypeMapping.offerAll
  induction names generalizing mapping with
  | nil => exact known
  | cons name names ih =>
      refine ih fun entry isEntry => ?_
      simp only [TypeMapping.offer] at isEntry
      split at isEntry
      · exact known entry isEntry
      · rcases List.mem_append.mp isEntry with isOld | isNew
        · exact known entry isOld
        · exact List.mem_singleton.mp isNew ▸ isRecord

theorem isMemberOf_of_mem_typeMapping {store : Store} {members : List Descriptor}
    {discriminator : Descriptor} :
    ∀ entry ∈ Descriptor.typeMapping store members discriminator, entry.2.IsMemberOf members := by
  unfold Descriptor.typeMapping
  refine List.foldlRecOn (motive := fun mapping : TypeMapping =>
    ∀ entry ∈ mapping, entry.2.IsMemberOf members) _ _ (List.forall_mem_nil _) ?_
  exact fun mapping known pair isPair => forall_mem_offerAll known _ (of_mem_namedRecords isPair).1

theorem exists_entry_of_resolve? {mapping : TypeMapping} {value : Value} {record : Descriptor}
    (resolved : mapping.resolve? value = some record) : ∃ name, (name, record) ∈ mapping := by
  have found {name : String} (isFound : mapping.lookup name = some record) :
      ∃ name, (name, record) ∈ mapping := by
    obtain ⟨before, after, rfl, -⟩ := List.lookup_eq_some_iff.mp isFound
    exact ⟨name, by simp⟩
  simp only [TypeMapping.resolve?, Option.bind_eq_bind, Option.bind_eq_some_iff,
    Option.orElse_eq_orElse, Option.orElse_eq_or, Option.or_eq_some_iff] at resolved
  obtain ⟨_, -, exactly | ⟨-, loosely⟩⟩ := resolved
  · exact found exactly
  · exact found loosely

/-- The record that a discriminator selects is a record of a union that is the type of a field of
that name. -/
theorem exists_field_of_discriminated? {store : Store} {fields : List Field}
    {entries : Value.Entries} {field : Field} {value : Value} {record : Descriptor}
    (selected : discriminated? (Discrimination.detect store fields) entries field value =
      some record) :
    ∃ other ∈ fields, other.name = field.name ∧ ∃ members, other.type.unwrapped = .union members ∧
      record.IsMemberOf members := by
  simp only [discriminated?, Option.bind_eq_bind, Option.bind_eq_some_iff] at selected
  obtain ⟨found, hit, -, -, resolved⟩ := selected
  obtain ⟨previous, other, isOther, ofPair⟩ :=
    exists_pair_of_mem_detect (List.mem_of_find?_eq_some hit)
  obtain ⟨members, isUnion, rfl⟩ := exists_members_of_ofPair? ofPair
  obtain ⟨name, isEntry⟩ := exists_entry_of_resolve? resolved
  exact ⟨other, isOther, by simpa using List.find?_some hit, members, isUnion,
    isMemberOf_of_mem_typeMapping _ isEntry⟩

end Read

/-! ## Records -/

/-- Whatever a value is read as inhabits the descriptor that it is read against. -/
def IsReadSoundly (registry : Registry) (raw : Value) : Prop :=
  ∀ descriptor path value, readAt registry raw descriptor path = .ok value →
    Inhabits registry descriptor raw value

namespace Read

variable {entries : Value.Entries} {fields : List Field} {path : Path}

theorem inhabitsField_fallback {field : Field} (isField : field ∈ fields)
    (omitted : ∀ part, entries.get? field.name = some part → part = .null)
    (dispensable : field.required = true → field.default.isSome = true) :
    InhabitsField registry fields entries (field.name, fallback field) := by
  unfold fallback
  cases declared : field.default with
  | some value => exact .default isField omitted declared
  | none =>
      refine .missing isField omitted declared ?_
      cases required : field.required with
      | false => rfl
      | true => simpa [declared] using dispensable required

/-- What a field is read as is what it holds. -/
theorem inhabitsField_of_readField {field : Field} (isField : field ∈ fields)
    (sound : ∀ part, entries.get? field.name = some part → IsReadSoundly registry part)
    (isRead : readField registry.structs fields entries
      ((Value.object entries).parts (read registry)) field path = .ok value) :
    InhabitsField registry fields entries (field.name, value) := by
  unfold readField at isRead
  rw [Value.get?_parts] at isRead
  cases isPart : entries.get? field.name with
  | none =>
      simp only [isPart, Option.map_none, absentField] at isRead
      split at isRead
      next dispensable =>
        cases isRead
        refine inhabitsField_fallback isField (by simp [isPart]) fun required => ?_
        simpa [required] using dispensable
      · cases isRead
  | some part =>
      simp only [isPart, Option.map_some, presentField, Value.toPart] at isRead
      split at isRead
      next isNull =>
        cases isRead
        simp only [Bool.and_eq_true, Bool.not_eq_true'] at isNull
        refine inhabitsField_fallback isField (fun other isOther => ?_) (by simp [isNull.1.2])
        rw [isPart] at isOther
        exact Value.isNull_iff.mp (Option.some.inj isOther ▸ isNull.1.1)
      split at isRead
      next record selected =>
        obtain ⟨other, isOther, sameName, members, isUnion, member, isMember, rfl⟩ :=
          exists_field_of_discriminated? selected
        have inhabits := (sound part isPart _ _ _ isRead).of_unwrapped
        have inType : Inhabits registry other.type part value :=
          .of_unwrapped (isUnion ▸ .member isMember inhabits)
        rw [← sameName] at isPart ⊢
        exact .given isOther isPart inType
      next => exact .given isField isPart (sound part isPart _ _ _ isRead)

/-- Values that are given one by one under the names of fields are named values. -/
theorem exists_named_of_aligned {holds : String × Value → Prop} {fields : List Field}
    {results : List (Value × Value)} (aligned : List.Forall₂ (fun field result =>
      ∃ value, holds (field.name, value) ∧ (Value.str field.name, value) = result) fields results) :
    ∃ named, results = Value.entriesOf named ∧ named.map Prod.fst = fields.map (·.name) ∧
      ∀ result ∈ named, holds result := by
  induction aligned with
  | nil => exact ⟨[], rfl, rfl, by simp⟩
  | cons first _ ih =>
      obtain ⟨value, isHeld, rfl⟩ := first
      obtain ⟨named, rfl, names, each⟩ := ih
      refine ⟨(_, value) :: named, rfl, by rw [List.map_cons, names, List.map_cons], ?_⟩
      exact List.forall_mem_cons.mpr ⟨isHeld, each⟩

/-- What the fields of a record are read as is what an object of them holds. -/
theorem exists_of_fieldValues {results : List (Value × Value)}
    (sound : ∀ name part, entries.get? name = some part → IsReadSoundly registry part)
    (areRead : fieldValues registry.structs entries ((Value.object entries).parts (read registry))
      fields path = .ok results) :
    ∃ named : Fields, Value.object (Value.Entries.ofPairs results) = .ofFields named ∧
      named.map Prod.fst = (fields.map (·.name)).eraseDups ∧
        ∀ result ∈ named, InhabitsField registry fields entries result := by
  have aligned : List.Forall₂ (fun field result => ∃ value,
      InhabitsField registry fields entries (field.name, value) ∧
        (Value.str field.name, value) = result) fields results := by
    refine aligned_of_mem (fieldValues_eq_ok_iff.mp areRead) fun field isField result => ?_
    rintro ⟨value, isRead, same⟩
    exact ⟨value, inhabitsField_of_readField isField (sound field.name) isRead, same⟩
  obtain ⟨named, rfl, names, each⟩ := exists_named_of_aligned aligned
  refine ⟨Fields.putAll [] named, ?_, ?_, fun result isResult => ?_⟩
  · rw [ofPairs_entriesOf_eq, Value.ofFields_eq]
  · simp [Fields.map_fst_putAll, names]
  · exact each result ((Fields.mem_or_mem_of_mem_putAll isResult).resolve_left List.not_mem_nil)

/-- A record that is read is an instance of its class, or an object of what its fields are read
as. -/
theorem inhabits_of_readRecord (makesInstances : registry.library.MakesInstances)
    {descriptor : Descriptor} {record : RecordView}
    (isRecord : descriptor.record? registry.structs = some record)
    (sound : ∀ entries name part, raw.entries? = some entries → entries.get? name = some part →
      IsReadSoundly registry part)
    (isRead : readRecord registry raw (raw.parts (read registry)) record path = .ok value) :
    Inhabits registry descriptor raw value := by
  unfold readRecord at isRead
  split at isRead
  next isInstance =>
    cases isRead
    unfold isInstanceOf at isInstance
    split at isInstance
    next key hasClass => exact .instance isRecord hasClass isInstance
    · cases isInstance
  split at isRead
  · cases isRead
  next entries isObject =>
    obtain ⟨results, areRead, made⟩ := bind_eq_ok_iff.mp isRead
    obtain rfl := Value.entries?_eq_some_iff.mp isObject
    unfold instantiate at made
    split at made
    next classless =>
      cases made
      obtain ⟨named, same, names, each⟩ :=
        exists_of_fieldValues (fun name part => sound entries name part rfl) areRead
      rw [same]
      exact .object isRecord classless names each
    next key hasClass =>
      split at made
      next taken isMade =>
        cases made
        obtain ⟨tag, fields, rfl, rfl⟩ := makesInstances isMade
        exact .instance isRecord hasClass (by simp [Value.isInstance])
      next rejection _ => cases rejection <;> cases made

/-! ## Lists and maps -/

theorem inhabitEach_of_readItems {element : Descriptor} {position : Nat} {items results : List Value}
    (sound : ∀ item ∈ items, IsReadSoundly registry item)
    (areRead : readItems element path position (items.map (Value.toPart (read registry))) =
      .ok results) : InhabitEach registry element items results := by
  induction items generalizing position results with
  | nil =>
      cases areRead
      exact .nil
  | cons item items ih =>
      simp only [List.map_cons, readItems, bind_eq_ok_iff] at areRead
      obtain ⟨first, isFirst, rest, areRest, done⟩ := areRead
      cases done
      exact .cons (sound item List.mem_cons_self _ _ _ isFirst)
        (ih (fun other isOther => sound other (List.mem_cons_of_mem _ isOther)) areRest)

/-- The keys and values of entries that are read are what keys and values are read as. -/
theorem inhabits_map {key element : Descriptor} {results : List (ReadKey × Value)}
    (sound : ∀ entry ∈ entries, IsReadSoundly registry entry.1 ∧ IsReadSoundly registry entry.2)
    (areRead : ((Value.object entries).parts (read registry)).entries.mapM
      (readEntry key element path) = .ok results) :
    Inhabits registry (.map key element) (.object entries) (mapOf results) := by
  rw [mapM_eq_ok_iff, Value.parts_entries _ rfl, List.forall₂_map_left_iff] at areRead
  have each : ∀ result ∈ results, InhabitsOneOf registry key entries.keys result.1.value ∧
      InhabitsOneOf registry element entries.values result.2 := by
    intro result isResult
    obtain ⟨⟨oldKey, oldValue⟩, isEntry, isRead⟩ := exists_left_of_mem areRead isResult
    obtain ⟨keySound, valueSound⟩ := sound _ isEntry
    simp only [readEntry, Value.toPart, bind_eq_ok_iff] at isRead
    obtain ⟨newKey, keyRead, newValue, valueRead, checked⟩ := isRead
    split at checked
    · cases checked
    · cases checked
      exact ⟨.intro (List.mem_map_of_mem isEntry) (keySound _ _ _ keyRead),
        .intro (List.mem_map_of_mem isEntry) (valueSound _ _ _ valueRead)⟩
  obtain ⟨kept, isMap, areKept⟩ := @forall_mem_mapOf results
    (InhabitsOneOf registry key entries.keys) (InhabitsOneOf registry element entries.values) each
  rw [isMap]
  refine .map (fun newKey isKey => ?_) fun newValue isValue => ?_
  · obtain ⟨entry, isEntry, rfl⟩ := List.mem_map.mp isKey
    exact (areKept entry isEntry).1
  · obtain ⟨entry, isEntry, rfl⟩ := List.mem_map.mp isValue
    exact (areKept entry isEntry).2

/-! ## Unions -/

/-- The candidates of a union, with the reply read against each as it is read by itself. -/
theorem candidates_parts (registry : Registry) (raw : Value) (members : List Descriptor) :
    candidates registry raw (raw.parts (read registry)) members =
      (Descriptor.nonNull members).map fun member => ⟨member, readAt registry raw member⟩ := by
  rw [candidates_eq]
  congr 1
  funext member
  congr 1
  funext path
  rw [readAt_eq]

/-- The first candidate that does not refuse the reply reads it, unless all refuse it. -/
theorem firstAccepted_cases {candidates : List Candidate}
    (accepted : firstAccepted raw path candidates = .ok value) :
    (∃ candidate ∈ candidates, candidate.read path = .ok value) ∨
      value = raw ∧ ∀ candidate ∈ candidates, ∃ error,
        candidate.read path = .error (.reply error) := by
  induction candidates with
  | nil =>
      cases accepted
      exact .inr ⟨rfl, fun _ isCandidate => nomatch isCandidate⟩
  | cons candidate candidates ih =>
      unfold firstAccepted at accepted
      split at accepted
      next error refused =>
        rcases ih accepted with ⟨other, isOther, isRead⟩ | ⟨same, others⟩
        · exact .inl ⟨other, List.mem_cons_of_mem _ isOther, isRead⟩
        · exact .inr ⟨same, List.forall_mem_cons.mpr ⟨⟨error, refused⟩, others⟩⟩
      · exact .inl ⟨candidate, List.mem_cons_self, accepted⟩

section Members

variable {members : List Descriptor}
variable (sound : ∀ member ∈ Descriptor.nonNull members, ∀ value,
  readAt registry raw member path = .ok value → Inhabits registry member raw value)
include sound

theorem inhabits_of_readPlain (notObject : raw.isObject = false)
    (isRead : readPlain raw (candidates registry raw (raw.parts (read registry)) members) path =
      .ok value) : Inhabits registry (.union members) raw value := by
  rw [candidates_parts] at isRead
  unfold readPlain at isRead
  split at isRead
  next candidate found =>
    obtain ⟨member, isMember, rfl⟩ := List.mem_map.mp (List.mem_of_find?_eq_some found)
    exact .member isMember (sound member isMember value isRead)
  next inexact =>
    rcases firstAccepted_cases isRead with ⟨candidate, isCandidate, isRead⟩ | ⟨rfl, refused⟩
    · obtain ⟨member, isMember, rfl⟩ := List.mem_map.mp (List.mem_of_mem_filter isCandidate)
      exact .member isMember (sound member isMember value isRead)
    · refine .unchanged (.plain notObject (fun member isMember => ?_) ?_)
      · simpa using List.find?_eq_none.mp inexact _ (List.mem_map_of_mem isMember)
      · intro member isMember noRecord noMap
        obtain ⟨error, isRefused⟩ := refused ⟨member, readAt registry value member⟩
          (List.mem_filter.mpr ⟨List.mem_map_of_mem isMember, by simp [noRecord, noMap]⟩)
        exact exists_error_of_readAt isRefused

omit sound in
/-- A record among the members of a union is read as a member of the union. -/
theorem inhabits_of_readMember (makesInstances : registry.library.MakesInstances)
    {record : RecordView} {member : Descriptor}
    (isMember : member ∈ Descriptor.nonNull members)
    (isRecord : member.unwrapped.record? registry.structs = some record)
    (soundParts : ∀ entries name part, raw.entries? = some entries →
      entries.get? name = some part → IsReadSoundly registry part)
    (isRead : readRecord registry raw (raw.parts (read registry)) record path = .ok value) :
    Inhabits registry (.union members) raw value :=
  .member isMember (.of_unwrapped (inhabits_of_readRecord makesInstances isRecord soundParts isRead))

theorem inhabits_of_readUntagged (makesInstances : registry.library.MakesInstances)
    (soundParts : ∀ name part, entries.get? name = some part → IsReadSoundly registry part)
    (isObject : raw = .object entries)
    (untagged : entries.get? typeKey = none ∨ Descriptor.namedRecords registry.structs members = [])
    (isRead : readUntagged registry raw entries (raw.parts (read registry))
      (candidates registry raw (raw.parts (read registry)) members) path = .ok value) :
    Inhabits registry (.union members) raw value := by
  subst isObject
  rw [candidates_parts] at isRead
  unfold readUntagged at isRead
  dsimp only at isRead
  split at isRead
  next record _ found =>
    obtain ⟨candidate, isCandidate, isRecord⟩ :=
      List.mem_filterMap.mp (List.mem_of_find?_eq_some found)
    obtain ⟨member, isMember, rfl⟩ := List.mem_map.mp isCandidate
    refine inhabits_of_readMember makesInstances isMember isRecord
      (fun others name part isObject => ?_) isRead
    cases isObject
    exact soundParts name part
  next candidate _ found =>
    obtain ⟨member, isMember, rfl⟩ := List.mem_map.mp (List.mem_of_find?_eq_some found)
    exact .member isMember (sound member isMember value isRead)
  next noRecord noMap =>
    cases isRead
    refine .unchanged (.object untagged (fun member isMember record isRecord => ?_) ?_)
    · have incomplete := List.find?_eq_none.mp noRecord record
        (List.mem_filterMap.mpr ⟨_, List.mem_map_of_mem isMember, isRecord⟩)
      simpa [hasRequired] using incomplete
    · intro key element isMember
      exact absurd rfl (List.find?_eq_none.mp noMap _ (List.mem_map_of_mem isMember))

/-- What a union reads inhabits a member, or is the reply that no member applies to. -/
theorem inhabits_of_readUnion (makesInstances : registry.library.MakesInstances)
    (soundParts : ∀ entries name part, raw.entries? = some entries →
      entries.get? name = some part → IsReadSoundly registry part)
    (isRead : readUnion registry raw (raw.parts (read registry)) members
      (candidates registry raw (raw.parts (read registry)) members) path = .ok value) :
    Inhabits registry (.union members) raw value := by
  unfold readUnion at isRead
  split at isRead
  next isNil =>
    simp only [Bool.and_eq_true, Value.isNull_iff] at isNil
    obtain ⟨rfl, isNil⟩ := isNil
    cases isRead
    exact .nil isNil
  split at isRead
  next notObject =>
    exact inhabits_of_readPlain sound (by simp [Value.isObject, notObject]) isRead
  next entries isObject =>
    obtain rfl := Value.entries?_eq_some_iff.mp isObject
    have untagged := @inhabits_of_readUntagged registry _ value entries path members sound
      makesInstances (fun name part => soundParts entries name part rfl) rfl
    dsimp only at isRead
    split at isRead
    next tag isTag =>
      split at isRead
      next noRecords => exact untagged (.inr (namedRecords_eq_nil noRecords)) isRead
      · rcases readTagged_cases registry _ _ tag _ path with
          ⟨name, record, isTagged, same⟩ | ⟨error, refused⟩
        · obtain ⟨member, isMember, isRecord⟩ := exists_member_of_mem_taggedRecords isTagged
          exact inhabits_of_readMember makesInstances isMember isRecord soundParts (same ▸ isRead)
        · cases refused.symm.trans isRead
    next noTag => exact untagged (.inl noTag) isRead

end Members

end Read

/-! ## Replies -/

theorem isReadSoundly {registry : Registry} (makesInstances : registry.library.MakesInstances)
    (raw : Value) : IsReadSoundly registry raw := by
  induction raw using Value.induction_parts with
  | step raw items entries =>
      have soundParts (found) (name) (part) (isObject : raw.entries? = some found)
          (isPart : found.get? name = some part) : IsReadSoundly registry part := by
        obtain ⟨key, isEntry⟩ := Value.Entries.exists_mem_of_get? isPart
        exact (entries found isObject _ isEntry).2
      intro descriptor path value isRead
      rw [readAt_eq] at isRead
      induction descriptor using Descriptor.induction generalizing value with
      | scalar kind =>
          simp only [Read.read] at isRead
          exact .scalar (matchesScalar_of_coerceScalar isRead)
      | enum type =>
          simp only [Read.read] at isRead
          exact .enum (offers_of_coerceEnum isRead)
      | array element =>
          simp only [Read.read] at isRead
          split at isRead
          next isList =>
            obtain ⟨found, isList⟩ := Option.isSome_iff_exists.mp isList
            obtain ⟨results, areRead, rfl⟩ := map_eq_ok_iff.mp isRead
            rw [Value.parts_items, Value.iterated_of_items? isList] at areRead
            rw [Value.iterated_of_items? isList] at items
            exact .array isList (inhabitEach_of_readItems items areRead)
          · cases isRead
      | map key element =>
          simp only [Read.read] at isRead
          split at isRead
          next isObject =>
            obtain ⟨found, isObject⟩ := Option.isSome_iff_exists.mp isObject
            obtain ⟨results, areRead, rfl⟩ := map_eq_ok_iff.mp isRead
            obtain rfl := Value.entries?_eq_some_iff.mp isObject
            exact inhabits_map (entries found rfl) areRead
          · cases isRead
      | optional inner ih =>
          simp only [Read.read] at isRead
          split at isRead
          next isNull =>
            obtain rfl := Value.isNull_iff.mp isNull
            cases isRead
            exact .absent
          split at isRead
          next tag name record selected =>
            have isRecord := (record?_of_tagged? selected).1
            rcases readTagged_cases registry raw _ tag [(name, record)] path with
              ⟨_, _, isOnly, same⟩ | ⟨error, refused⟩
            · cases List.mem_singleton.mp isOnly
              exact .present (inhabits_of_readRecord makesInstances isRecord soundParts (same ▸ isRead))
            · cases refused.symm.trans isRead
          next => exact .present (ih value isRead)
      | union members ih =>
          simp only [Read.read] at isRead
          refine inhabits_of_readUnion (fun member isMember value isRead => ?_) makesInstances
            soundParts isRead
          exact ih member (List.mem_of_mem_filter isMember) value (by rwa [← readAt_eq])
      | null =>
          simp only [Read.read] at isRead
          split at isRead
          next isNull =>
            obtain rfl := Value.isNull_iff.mp isNull
            cases isRead
            exact .null
          · cases isRead
      | fixed record =>
          simp only [Read.read] at isRead
          exact inhabits_of_readRecord makesInstances rfl soundParts isRead
      | struct id =>
          simp only [Read.read] at isRead
          exact inhabits_of_readRecord makesInstances rfl soundParts isRead
      | stray value =>
          simp only [Read.read] at isRead
          cases isRead

/-- Reading is sound where what the library makes of an object is an instance of the class asked for:
what a reply is read as inhabits the descriptor it is read against. -/
theorem inhabits_of_read {registry : Registry} (makesInstances : registry.library.MakesInstances)
    {raw value : Value} {descriptor : Descriptor} (isRead : read registry raw descriptor = .ok value) :
    Inhabits registry descriptor raw value :=
  isReadSoundly makesInstances raw descriptor [] value isRead

/-- The registry after buyers are declared. -/
def buyersRegistry : Registry :=
  ((Registry.defineStruct "Buyer" "Buyer" [⟨"name", .scalar .string, true, none, none⟩] none).run
    .empty).2

/-- An order of a number of items by a buyer, with something extra and perhaps a note. -/
def orderRecord : Descriptor :=
  .fixed ⟨[⟨"buyer", .struct 0, true, none, none⟩, ⟨"count", .scalar .int, true, none, none⟩,
    ⟨"extra", .union [.scalar .date, .scalar .bool], true, none, none⟩,
    ⟨"note", .scalar .string, false, none, none⟩], none, none, none⟩

/-- An order is read: an instance for its buyer, its number from a text, something extra that fits
nothing as it is, and null for the note. -/
theorem orderRecord_read :
    let raw := Value.ofFields [("buyer", .ofFields [("name", .str "Ann")]), ("count", .str " 7 "),
      ("extra", .list [.int 1])]
    let buyer := Value.record ⟨.declared 0, "Buyer", [.base]⟩ [(⟨"name", "name", false⟩, .str "Ann")]
    let order := Value.ofFields [("buyer", buyer), ("count", .int 7), ("extra", .list [.int 1]),
      ("note", .null)]
    buyersRegistry.library.MakesInstances ∧ read buyersRegistry raw orderRecord = .ok order ∧
      Inhabits buyersRegistry orderRecord raw order :=
  ⟨ClassLibrary.reference_makesInstances, rfl,
    inhabits_of_read ClassLibrary.reference_makesInstances rfl⟩

end TypedReply
