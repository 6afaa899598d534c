import TypedReply.Proofs.Coerce.Json
import TypedReply.Proofs.Reply.Reading
import TypedReply.Reference.Library

/-!
# Acceptance of admitted replies

What the compiled schema of a descriptor admits is read without an error. Reading follows the
meaning of the descriptor: records are complete, the values of unions carry the tag of one member,
and no sibling field gets to choose a record, since it only does for objects without a tag.
-/

namespace TypedReply

theorem RecordView.name_of_tag? {record : RecordView} {name : String}
    (named : record.tag? = some name) : record.name = some name :=
  (Option.filter_eq_some_iff.mp named).1

namespace Descriptor

/-- What a descriptor may be for the schema's word to be enough: scalars are those of JSON,
enumerations are lists of texts, keys are texts, unions are of records with different names, and
records have no class and name their fields differently. -/
structure Plain (store : Store) (descriptor : Descriptor) : Prop where
  scalars : ∀ kind, descriptor = .scalar kind → kind.isPlain = true
  enums : ∀ type, descriptor = .enum type → ∃ texts, type = .ofTexts texts
  keys : ∀ key value, descriptor = .map key value → key = .scalar .string
  unions : ∀ members, descriptor = .union members →
    ∃ names : List String, names.Nodup ∧ (nonNull members).map (tag? store) = names.map some
  records : ∀ record, descriptor.record? store = some record →
    record.cls = none ∧ (record.fields.map (·.name)).Nodup

theorem fields_eq_of_record? {store : Store} {descriptor : Descriptor} {record : RecordView}
    (isRecord : descriptor.record? store = some record) :
    descriptor.fields store = record.fields := by
  cases descriptor <;> cases isRecord <;> rfl

theorem Plain.regular {store : Store} {descriptor : Descriptor} (plain : descriptor.Plain store) :
    descriptor.Regular store := by
  constructor
  · cases isRecord : descriptor.record? store with
    | some record =>
        rw [fields_eq_of_record? isRecord]
        exact (plain.records record isRecord).2
    | none =>
        cases descriptor with
        | fixed => cases isRecord
        | struct => cases isRecord
        | _ => exact List.nodup_nil
  · intro type isEnum
    obtain ⟨texts, rfl⟩ := plain.enums type isEnum
    exact EnumType.literals_ofTexts texts

theorem get?_typeKey_of_admits {store : Store} {descriptor : Descriptor} {name : String}
    (named : descriptor.tag? store = some name) {value : Value}
    (admits : descriptor.Admits store value) : value.get? typeKey = some (.str name) := by
  cases descriptor with
  | fixed record =>
      have sameName : record.name = some name :=
        @RecordView.name_of_tag? (FixedRecord.view record) name named
      cases admits with
      | fixed _ tagged => exact tagged name sameName
  | struct id =>
      have sameName : some (store.at id).name = some name :=
        @RecordView.name_of_tag? (store.at id).view name named
      cases admits with
      | struct tagged => rw [tagged, Option.some.inj sameName]
  | _ => cases named

end Descriptor

/-! ## Reading -/

/-- A value is read without an error against a descriptor, wherever it stands. -/
def Reads (registry : Registry) (descriptor : Descriptor) (value : Value) : Prop :=
  ∃ result, ReadsAs registry descriptor value result

variable {registry : Registry} {value : Value}

namespace Reads

open Read

theorem array {element : Descriptor} {items : List Value}
    (each : ∀ item ∈ items, Reads registry element item) :
    Reads registry (.array element) (.list items) := by
  obtain ⟨results, aligned⟩ := exists_aligned each
  exact ⟨.list results, .array aligned⟩

theorem map {element : Descriptor} {fields : Fields}
    (each : ∀ field ∈ fields, Reads registry element field.2) :
    Reads registry (.map (.scalar .string) element) (.ofFields fields) := by
  have named (field) (isField : field ∈ fields) : ∃ result : String × Value,
      field.1 = result.1 ∧ ReadsAs registry element field.2 result.2 := by
    obtain ⟨result, reads⟩ := each field isField
    exact ⟨(field.1, result), rfl, reads⟩
  obtain ⟨results, aligned⟩ := exists_aligned named
  exact ⟨_, .map aligned⟩

theorem null {descriptor : Descriptor} (plain : descriptor.Plain registry.structs)
    (acceptsNull : Read.acceptsNull descriptor = true) : Reads registry descriptor .null := by
  refine ⟨.null, fun path => ?_⟩
  rw [readAt_eq]
  cases descriptor with
  | scalar kind => cases kind <;> cases acceptsNull
  | enum type =>
      obtain ⟨texts, rfl⟩ := plain.enums type rfl
      simp [Read.acceptsNull, exactMatch, EnumType.ofTexts, EnumType.has, Value.sameType]
        at acceptsNull
  | optional inner => simp [Read.read, Value.isNull]
  | union members =>
      have nilable : Descriptor.nilable members = true := acceptsNull
      simp [Read.read, readUnion, Value.isNull, nilable]
  | null => simp [Read.read, Value.isNull]
  | _ => cases acceptsNull

/-- The value of a field that is present is read: null that the field does not admit gives way to
what stands for an absent field, and no sibling chooses another record. -/
theorem exists_presentField {fields : List Field} (distinct : (fields.map (·.name)).Nodup)
    {field : Field} (isField : field ∈ fields) (plain : field.type.Plain registry.structs)
    (entries : Value.Entries) {part : Value}
    (readable : ¬(field.required = false ∧ part = .null) → Reads registry field.type part)
    (tagged : ∀ members, field.type.unwrapped = .union members → part.isObject = true →
      isTagged part = true) :
    ∃ result, ∀ path, presentField (Discrimination.detect registry.structs fields) entries field
      (Value.toPart (Read.read registry) part) path = .ok result := by
  cases replaced : part.isNull && !field.required && !Read.acceptsNull field.type with
  | true =>
      refine ⟨fallback field, fun path => ?_⟩
      simp only [presentField, Value.toPart, replaced, if_true]
  | false =>
      have reads : Reads registry field.type part := by
        by_cases isNull : field.required = false ∧ part = .null
        · obtain ⟨optional, rfl⟩ := isNull
          exact null plain (by simpa [optional, Value.isNull] using replaced)
        · exact readable isNull
      obtain ⟨result, isResult⟩ := reads
      refine ⟨result, fun path => ?_⟩
      rw [presentField_eq (discriminated?_eq_none distinct isField entries tagged) replaced]
      exact isResult path

/-- An object among the values of a union of named records carries a tag. -/
theorem isTagged_of_admits {type : Descriptor} {members : List Descriptor}
    (isUnion : type.unwrapped = .union members)
    (plain : type.Throughout registry.structs (Descriptor.Plain registry.structs))
    (admits : type.Admits registry.structs value) (isObject : value.isObject = true) :
    isTagged value = true := by
  have ofUnion (plain : (Descriptor.union members).Plain registry.structs)
      (admits : (Descriptor.union members).Admits registry.structs value) :
      isTagged value = true := by
    cases admits with
    | nil => cases isObject
    | member isMember admits =>
        obtain ⟨names, -, named⟩ := plain.unions members rfl
        have isNamed : Descriptor.tag? registry.structs _ ∈ names.map some :=
          named ▸ List.mem_map_of_mem isMember
        obtain ⟨name, -, isName⟩ := List.mem_map.mp isNamed
        simp [isTagged, Descriptor.get?_typeKey_of_admits isName.symm admits]
  cases type with
  | union others =>
      cases isUnion
      exact ofUnion plain.here admits
  | optional inner =>
      cases isUnion
      cases admits with
      | absent => cases isObject
      | present admits => exact ofUnion (plain.of_part (.inner _)).here admits
  | _ => cases isUnion

/-- An object is read against a record without a class if it has the required fields, its parts are
what the fields describe, unless they are null and need not be given, and what is described is
read. -/
theorem record {descriptor : Descriptor} {record : RecordView}
    (isRecord : descriptor.record? registry.structs = some record)
    (plain : descriptor.Throughout registry.structs (Descriptor.Plain registry.structs))
    {entries : Value.Entries}
    (complete : ∀ field ∈ record.fields, field.required = true →
      ((Value.object entries).get? field.name).isSome = true)
    (described : ∀ field ∈ record.fields, ∀ part,
      (Value.object entries).get? field.name = some part →
        ¬(field.required = false ∧ part = .null) → field.type.Admits registry.structs part)
    (reads : ∀ field ∈ record.fields, ∀ part, (Value.object entries).get? field.name = some part →
      field.type.Admits registry.structs part → Reads registry field.type part) :
    Reads registry descriptor (.object entries) := by
  obtain ⟨classless, distinct⟩ := plain.here.records record isRecord
  have each (field) (isField : field ∈ record.fields) : ∃ value, ∀ path,
      readField registry.structs record.fields entries
        ((Value.object entries).parts (Read.read registry)) field path = .ok value := by
    have fieldPlain : field.type.Throughout registry.structs _ :=
      plain.of_part (.field (Descriptor.fields_eq_of_record? isRecord ▸ isField))
    simp only [readField, Value.get?_parts]
    cases found : entries.get? field.name with
    | none =>
        have optional : field.required = false := by
          cases required : field.required with
          | false => rfl
          | true =>
              have present := complete field isField required
              simp [Value.get?, Value.entries?, found] at present
        exact ⟨fallback field, fun path => by simp [absentField, optional]⟩
    | some part =>
        have readable (notNull : ¬(field.required = false ∧ part = .null)) :
            Reads registry field.type part :=
          reads field isField part found (described field isField part found notNull)
        have tagged (members) (isUnion : field.type.unwrapped = .union members)
            (isObject : part.isObject = true) : isTagged part = true := by
          have notNull : ¬(field.required = false ∧ part = .null) := by
            rintro ⟨-, rfl⟩
            cases isObject
          exact isTagged_of_admits isUnion fieldPlain
            (described field isField part found notNull) isObject
        exact exists_presentField distinct isField fieldPlain.here entries readable tagged
  have named (field) (isField : field ∈ record.fields) : ∃ result, ∀ path, ∃ value,
      readField registry.structs record.fields entries
        ((Value.object entries).parts (Read.read registry)) field path = .ok value ∧
      (Value.str field.name, value) = result := by
    obtain ⟨value, isValue⟩ := each field isField
    exact ⟨(.str field.name, value), fun path => ⟨value, isValue path, rfl⟩⟩
  obtain ⟨results, aligned⟩ := exists_aligned named
  refine ⟨.object (Value.Entries.ofPairs results), fun path => ?_⟩
  have areResults : fieldValues registry.structs entries
      ((Value.object entries).parts (Read.read registry)) record.fields path = .ok results :=
    fieldValues_eq_ok_iff.mpr (aligned.imp fun field result isResult => isResult _)
  rw [readAt_record isRecord]
  simp [areResults, instantiate, classless, bind, Except.bind]

theorem optional {inner : Descriptor} (reads : Reads registry inner value)
    (tagged : ∀ name, inner.tag? registry.structs = some name →
      value.get? typeKey = some (.str name)) : Reads registry (.optional inner) value := by
  obtain ⟨result, isResult⟩ := reads
  cases isNull : value.isNull with
  | true =>
      refine ⟨.null, fun path => ?_⟩
      rw [readAt_eq, Read.read, if_pos isNull]
  | false => exact ⟨result, fun path => (readAt_optional isNull tagged path).trans (isResult path)⟩

/-- A value that a union of named records describes is read as the record that its tag names. -/
theorem union {members : List Descriptor}
    (plain : (Descriptor.union members).Plain registry.structs)
    (reads : ∀ member ∈ Descriptor.nonNull members, member.Admits registry.structs value →
      Reads registry member value)
    (admits : (Descriptor.union members).Admits registry.structs value) :
    Reads registry (.union members) value := by
  obtain ⟨names, distinct, named⟩ := plain.unions members rfl
  cases admits with
  | nil isNil =>
      refine ⟨.null, fun path => ?_⟩
      rw [readAt_eq, Read.read]
      cases nilable : Descriptor.nilable members with
      | true => simp [readUnion, Value.isNull, nilable]
      | false =>
          have empty : members = [] := by
            rw [Descriptor.nonNull_of_not_nilable nilable] at isNil
            exact isNil.resolve_left (by simp [nilable])
          subst empty
          rfl
  | member isMember admits =>
      have isNamed := named ▸ List.mem_map_of_mem isMember
      obtain ⟨name, -, isName⟩ := List.mem_map.mp isNamed
      have isTag := Descriptor.get?_typeKey_of_admits isName.symm admits
      obtain ⟨result, isResult⟩ := reads _ isMember admits
      exact ⟨result, fun path =>
        (readAt_union distinct named isMember isName.symm isTag path).trans (isResult path)⟩

/-! ### Descriptors -/

/-- What a plain descriptor admits is read against it, if all smaller values are. The induction is
on the descriptor; a record leads on to the parts of the value. -/
theorem of_smaller {bits : Nat} (few : bits ≤ 1000) {value : Value} (json : value.IsJson (2 ^ bits))
    (smaller : ∀ part : Value, sizeOf part < sizeOf value → part.IsJson (2 ^ bits) →
      ∀ descriptor : Descriptor,
        descriptor.Throughout registry.structs (Descriptor.Plain registry.structs) →
          descriptor.Admits registry.structs part → Reads registry descriptor part)
    (descriptor : Descriptor)
    (plain : descriptor.Throughout registry.structs (Descriptor.Plain registry.structs))
    (admits : descriptor.Admits registry.structs value) : Reads registry descriptor value := by
  induction descriptor using Descriptor.induction with
  | scalar kind =>
      cases admits with
      | scalar typed =>
          obtain ⟨result, isResult⟩ := exists_coerceScalar (plain.here.scalars kind rfl) json few typed
          exact ⟨result, fun path => by rw [readAt_eq, Read.read, isResult path]⟩
  | enum type =>
      obtain ⟨texts, rfl⟩ := plain.here.enums type rfl
      cases admits with
      | @enum _ text isLabel =>
          rw [EnumType.labels_ofTexts] at isLabel
          refine ⟨.str text, fun path => ?_⟩
          rw [readAt_eq, Read.read]
          exact coerceEnum_of_mem isLabel path
  | array element =>
      cases admits with
      | array each =>
          refine array fun item isItem => ?_
          exact smaller item (Value.sizeOf_lt_of_mem_list isItem) (json.item isItem) element
            (plain.of_part (.element element)) (each item isItem)
  | map key element =>
      obtain rfl := plain.here.keys key element rfl
      cases admits with
      | map isObject each =>
          cases json with
          | object distinct parts =>
              refine map fun field isField => ?_
              have found := (Value.get?_ofFields _ field.1).trans
                (Fields.get?_of_mem distinct isField)
              exact smaller field.2 (Value.sizeOf_lt_of_get? found) (parts field isField) element
                (plain.of_part (.value _ element)) (each field.1 field.2 found)
          | _ => cases isObject
  | optional inner ih =>
      have innerPlain := plain.of_part (.inner inner)
      cases admits with
      | absent =>
          refine ⟨.null, fun path => ?_⟩
          rw [readAt_eq, Read.read]
          exact if_pos rfl
      | present admits =>
          exact optional (ih innerPlain admits) fun name named =>
            Descriptor.get?_typeKey_of_admits named admits
  | union members ih =>
      refine union plain.here (fun member isMember admits => ?_) admits
      have isMember := List.mem_of_mem_filter isMember
      exact ih member isMember (plain.of_part (.member isMember)) admits
  | null =>
      cases admits with
      | null => exact null plain.here rfl
  | fixed shape =>
      cases admits with
      | fixed isObject tagged complete closed each =>
          obtain ⟨entries, rfl⟩ : ∃ entries, value = .object entries := by
            cases value <;> simp_all [Value.isObject, Value.entries?]
          exact record rfl plain (fun field isField _ => complete field isField) each
            fun field isField part found => smaller part (Value.sizeOf_lt_of_get? found)
              (json.part found) field.type (plain.of_part (.field isField))
  | struct id =>
      cases admits with
      | struct tagged complete each =>
          obtain ⟨entries, rfl⟩ : ∃ entries, value = .object entries := by
            cases value <;> simp_all [Value.get?, Value.entries?]
          exact record rfl plain complete each
            fun field isField part found => smaller part (Value.sizeOf_lt_of_get? found)
              (json.part found) field.type (plain.of_part (.field isField))
  | stray held => cases admits

theorem of_admits {bits : Nat} (few : bits ≤ 1000) (value : Value) (json : value.IsJson (2 ^ bits))
    (descriptor : Descriptor)
    (plain : descriptor.Throughout registry.structs (Descriptor.Plain registry.structs))
    (admits : descriptor.Admits registry.structs value) : Reads registry descriptor value := by
  induction size : sizeOf value using Nat.strongRecOn generalizing value descriptor with
  | ind _ ih =>
      subst size
      exact of_smaller few json
        (fun part smaller json descriptor plain admits =>
          ih _ smaller part json descriptor plain admits rfl)
        descriptor plain admits

end Reads

/-- What the compiled schema of a plain descriptor admits is read against the descriptor without an
error, cycles among its structs included. -/
theorem exists_read_of_admitted {options : Options} {registry : Registry} {target : Descriptor}
    {compiled : Compiled} (compiles : compile options registry.structs target = .ok compiled)
    (plain : target.Throughout registry.structs (Descriptor.Plain registry.structs)) {value : Value}
    (json : value.IsJson (2 ^ 1000)) (admitted : compiled.Admits value) :
    ∃ result, read registry value target = .ok result := by
  have regular : target.Throughout registry.structs (Descriptor.Regular registry.structs) :=
    fun found reaches => (plain found reaches).regular
  have admits := (Compile.means_of_compile compiles regular value).sound admitted
  obtain ⟨result, reads⟩ := Reads.of_admits (Nat.le_refl 1000) value json target plain admits
  exact ⟨result, reads []⟩

theorem Descriptor.IsLinked.plain {descriptor : Descriptor} (linked : descriptor.IsLinked) :
    descriptor.Plain linkedNumbers := by
  rcases linked with rfl | rfl | rfl
  · refine ⟨by rintro kind ⟨⟩, by rintro type ⟨⟩, by rintro key value ⟨⟩, by rintro members ⟨⟩, ?_⟩
    rintro record ⟨⟩
    exact ⟨rfl, by decide⟩
  · refine ⟨?_, by rintro type ⟨⟩, by rintro key value ⟨⟩, by rintro members ⟨⟩,
      by rintro record ⟨⟩⟩
    rintro kind ⟨⟩
    rfl
  · exact ⟨by rintro kind ⟨⟩, by rintro type ⟨⟩, by rintro key value ⟨⟩, by rintro members ⟨⟩,
      by rintro record ⟨⟩⟩

def linkedRegistry : Registry := { Registry.empty with structs := linkedNumbers }

theorem isJson_linkTo {bound : Nat} {number : Int} (small : number.natAbs < bound) {more : Fields}
    (distinct : (["_type", "number"] ++ more.map Prod.fst).Nodup)
    (each : ∀ field ∈ more, field.2.IsJson bound) : (linkTo number more).IsJson bound := by
  refine .object (by simpa using distinct) ?_
  simp only [List.cons_append, List.nil_append, List.forall_mem_cons]
  exact ⟨.str "Link", .int number small, each⟩

theorem isJson_twoLinks {bits : Nat} (several : 1 < bits) : twoLinks.IsJson (2 ^ bits) := by
  have small : 2 < 2 ^ bits := by simpa using Nat.pow_lt_pow_right Nat.one_lt_two several
  refine isJson_linkTo (Nat.lt_of_succ_lt small) (by decide) ?_
  simp only [List.forall_mem_singleton]
  exact isJson_linkTo small (by decide) (by simp)

/-- A link that is followed by another is admitted and read. -/
theorem twoLinks_read :
    ∃ compiled, compile Options.defaults linkedRegistry.structs (.struct 0) = .ok compiled ∧
      Descriptor.Throughout linkedNumbers (Descriptor.Plain linkedNumbers) (.struct 0) ∧
      twoLinks.IsJson (2 ^ 1000) ∧ compiled.Admits twoLinks ∧
      ∃ result, read linkedRegistry twoLinks (.struct 0) = .ok result := by
  have plain := linkedNumbers_throughout fun _ => Descriptor.IsLinked.plain
  have regular := linkedNumbers_throughout fun _ => Descriptor.IsLinked.regular
  have unwidened := linkedNumbers_throughout fun _ => Descriptor.IsLinked.unwidened
  have json := @isJson_twoLinks 1000 (by decide)
  have means := @Compile.means_of_compile Options.defaults linkedNumbers _ _ rfl regular twoLinks
  have admitted := means.complete unwidened admits_twoLinks
  exact ⟨_, rfl, plain, json, admitted, exists_read_of_admitted rfl plain json admitted⟩

end TypedReply
