import TypedReply.Proofs.Plain
import TypedReply.Proofs.Schema.Nullability
import TypedReply.Registry

/-!
# Values that are held as declared

A value is held as a descriptor declares if it and what is inside are what the program itself makes
for the descriptor: scalars of their kind, choices, lists, objects, and instances of exactly the
classes of records. A field that need not be given may be null instead. In plain form a null is left
out where it is the default of its field.
-/

namespace TypedReply

/-- The value of a field that need not be given is null. -/
def Field.IsLacking (field : Field) (value : Value) : Prop := field.required = false ∧ value = .null

def Field.IsNullable (field : Field) : Prop :=
  field.type.enum? = none ∧ field.type.widenedEnum? = none

/-- A field as a record declares it and as the class of the record does, and the value that an
instance holds of it. -/
structure Slot where
  declared : Field
  field : ClassField
  value : Value

namespace Slot

def held (slot : Slot) : FieldTag × Value := (slot.field.tag, slot.value)

def pair (slot : Slot) : Field × Value := (slot.declared, slot.value)

/-- A record and its class agree on a field: it goes by one name, is never left out if it must be
given, and is null only where it may be. -/
structure Agrees (slot : Slot) : Prop where
  name : slot.declared.name = slot.field.wireName
  required : slot.declared.required = true → slot.field.presence.isNullDefault = false
  nullable : Field.IsLacking slot.declared slot.value → Field.IsNullable slot.declared

theorem Agrees.optional_of_isOmitted {slot : Slot} (agrees : slot.Agrees)
    (omitted : Plain.isOmitted slot.field.tag slot.value = true) : slot.declared.required = false := by
  rw [Plain.isOmitted, Bool.and_eq_true] at omitted
  by_contra required
  rw [Bool.not_eq_false] at required
  exact Bool.false_ne_true ((agrees.required required).symm.trans omitted.1)

theorem map_declared (slots : List Slot) :
    slots.map (·.declared) = (slots.map (·.pair)).map Prod.fst := by
  rw [List.map_map]
  rfl

theorem names_of_agree {slots : List Slot} (agree : ∀ slot ∈ slots, slot.Agrees) :
    slots.map (·.field.wireName) = (slots.map (·.pair)).map (·.1.name) := by
  rw [List.map_map]
  exact List.map_congr_left fun slot isSlot => (agree slot isSlot).name.symm

theorem nullable_of_agree {slots : List Slot} (agree : ∀ slot ∈ slots, slot.Agrees) :
    ∀ pair ∈ slots.map (·.pair), Field.IsLacking pair.1 pair.2 → Field.IsNullable pair.1 := by
  intro pair isPair
  obtain ⟨slot, isSlot, rfl⟩ := List.mem_map.mp isPair
  exact (agree slot isSlot).nullable

/-- The fields of a record and of its class, which go together, and as many values are slots. -/
theorem exists_of_aligned {related : ClassField → Field → Prop} {fields : List ClassField}
    {declared : List Field} {values : List Value} (aligned : List.Forall₂ related fields declared)
    (complete : values.length = fields.length) : ∃ slots : List Slot,
      declared = slots.map (·.declared) ∧ fields = slots.map (·.field) ∧
        values = slots.map (·.value) ∧ ∀ slot ∈ slots, related slot.field slot.declared := by
  induction aligned generalizing values with
  | nil => exact ⟨[], rfl, rfl, List.length_eq_zero_iff.mp complete, List.forall_mem_nil _⟩
  | @cons field first _ _ isRelated _ ih =>
      cases values with
      | nil => cases complete
      | cons value rest =>
          obtain ⟨slots, rfl, rfl, rfl, each⟩ := ih (Nat.succ.inj complete)
          exact ⟨⟨first, field, value⟩ :: slots, rfl, rfl, rfl,
            List.forall_mem_cons.mpr ⟨isRelated, each⟩⟩

end Slot

/-- A record goes by the tag of its class, and by no name if it has no class. -/
def Descriptor.IsTagged (registry : Registry) (descriptor : Descriptor) : Prop :=
  ∀ record, descriptor.record? registry.structs = some record →
    record.name = record.cls.bind fun key =>
      (registry.catalog.get? key).map fun cls => Plain.tagName cls.tag

namespace Registry

/-- A value is held as a descriptor declares. -/
inductive Holds (registry : Registry) : Descriptor → Value → Prop where
  | scalar {kind : ScalarKind} {value : Value} (typed : matchesScalar kind value = true) :
      Holds registry (.scalar kind) value
  | choice {values : List Value} {value : Value}
      (primitive : ∀ choice ∈ values, choice.isPrimitive = true) (isChoice : value ∈ values) :
      Holds registry (.enum (.choices values)) value
  | member {cls : EnumClass} {name text : String} (isMember : (name, .str text) ∈ cls.members) :
      Holds registry (.enum (.ofClass cls)) (cls.toValue (name, .str text))
  | array {element : Descriptor} {items : List Value}
      (each : ∀ item ∈ items, Holds registry element item) :
      Holds registry (.array element) (.list items)
  | map {key element : Descriptor} {fields : Fields} (distinct : (fields.map Prod.fst).Nodup)
      (each : ∀ field ∈ fields, Holds registry element field.2) :
      Holds registry (.map key element) (.ofFields fields)
  | absent {inner : Descriptor} (plain : inner.enum? = none) :
      Holds registry (.optional inner) .null
  | present {inner : Descriptor} {value : Value} (holds : Holds registry inner value) :
      Holds registry (.optional inner) value
  | variant {members : List Descriptor} {member : Descriptor} {value : Value}
      (isMember : member ∈ Descriptor.nonNull members) (holds : Holds registry member value) :
      Holds registry (.union members) value
  | nil {members : List Descriptor} (nilable : Descriptor.nilable members = true)
      (plain : (Descriptor.union members).widenedEnum? = none) :
      Holds registry (.union members) .null
  | null : Holds registry .null .null
  /-- An instance of the class of a record. -/
  | record {descriptor : Descriptor} {record : RecordView} {cls : RecordClass} {slots : List Slot}
      (isRecord : descriptor.record? registry.structs = some record)
      (isClass : record.cls = some cls.key) (found : registry.catalog.get? cls.key = some cls)
      (declared : record.fields = slots.map (·.declared)) (fields : cls.fields = slots.map (·.field))
      (distinct : (typeKey :: slots.map (·.field.wireName)).Nodup)
      (agree : ∀ slot ∈ slots, slot.Agrees)
      (each : ∀ slot ∈ slots, ¬Field.IsLacking slot.declared slot.value →
        Holds registry slot.declared.type slot.value) :
      Holds registry descriptor (.record cls.tag (slots.map (·.held)))
  /-- An object of the fields of a record without a class. -/
  | object {record : FixedRecord} {slots : List (Field × Value)} (classless : record.cls = none)
      (declared : record.fields = slots.map Prod.fst)
      (distinct : (slots.map (·.1.name)).Nodup)
      (nullable : ∀ slot ∈ slots, Field.IsLacking slot.1 slot.2 → Field.IsNullable slot.1)
      (each : ∀ slot ∈ slots, ¬Field.IsLacking slot.1 slot.2 →
        Holds registry slot.1.type slot.2) :
      Holds registry (.fixed record) (.ofFields (slots.map fun slot => (slot.1.name, slot.2)))

/-! ## Deviations -/

/-- What stands in a value that is held as a descriptor declares, with the descriptor that it is held
as. -/
inductive Encloses (registry : Registry) : Descriptor × Value → Descriptor × Value → Prop where
  | item {element : Descriptor} {items : List Value} {item : Value} (isItem : item ∈ items) :
      Encloses registry (.array element, .list items) (element, item)
  | value {key element : Descriptor} {entries : Value.Entries} {entry : Value × Value}
      (isEntry : entry ∈ entries) :
      Encloses registry (.map key element, .object entries) (element, entry.2)
  | present (inner : Descriptor) (value : Value) :
      Encloses registry (.optional inner, value) (inner, value)
  | variant {members : List Descriptor} {member : Descriptor} (isMember : member ∈ members)
      (value : Value) : Encloses registry (.union members, value) (member, value)
  | field {descriptor : Descriptor} {tag : RecordTag} {fields : List (FieldTag × Value)}
      {declared : Field} {field : FieldTag × Value}
      (isField : (declared, field) ∈ (descriptor.fields registry.structs).zip fields) :
      Encloses registry (descriptor, .record tag fields) (declared.type, field.2)
  | entry {record : FixedRecord} {entries : Value.Entries} {declared : Field}
      {entry : Value × Value} (isEntry : (declared, entry) ∈ record.fields.zip entries) :
      Encloses registry (.fixed record, .object entries) (declared.type, entry.2)

/-- An instance of the class of a fixed record leaves a field out in plain form. -/
inductive LeavesOut : Descriptor × Value → Prop where
  | intro {record : FixedRecord} {tag : RecordTag} {fields : List (FieldTag × Value)}
      {field : FieldTag × Value} (isField : field ∈ fields)
      (omitted : Plain.isOmitted field.1 field.2 = true) : LeavesOut (.fixed record, .record tag fields)

/-- In plain form what a record holds is not tagged by the name of the record. -/
inductive Mistags (registry : Registry) : Descriptor × Value → Prop where
  | record {descriptor : Descriptor} {record : RecordView} {cls : RecordClass} {tag : RecordTag}
      {fields : List (FieldTag × Value)} (isRecord : descriptor.record? registry.structs = some record)
      (isClass : record.cls = some cls.key) (found : registry.catalog.get? cls.key = some cls)
      (isTag : cls.tag = tag) (different : record.name ≠ some (Plain.tagName tag)) :
      Mistags registry (descriptor, .record tag fields)
  | object {record : FixedRecord} {entries : Value.Entries} (classless : record.cls = none)
      (named : record.name ≠ none) : Mistags registry (.fixed record, .object entries)

/-- Nothing deviates in plain form from what the schema of the descriptor asks for: no field of a fixed
record is left out, and records are tagged by their names. -/
def Conforms (registry : Registry) (descriptor : Descriptor) (value : Value) : Prop :=
  ∀ part, Relation.ReflTransGen registry.Encloses (descriptor, value) part →
    ¬LeavesOut part ∧ ¬registry.Mistags part

section Enclosed

variable {registry : Registry} {descriptor : Descriptor} {value : Value}

theorem Encloses.of_slot {slots : List Slot}
    (declared : descriptor.fields registry.structs = slots.map (·.declared)) {slot : Slot}
    (isSlot : slot ∈ slots) (tag : RecordTag) : registry.Encloses
      (descriptor, .record tag (slots.map (·.held))) (slot.declared.type, slot.value) := by
  have isField : (slot.declared, slot.held) ∈
      (descriptor.fields registry.structs).zip (slots.map (·.held)) := by
    rw [declared, List.zip_map']
    exact List.mem_map.mpr ⟨slot, isSlot, rfl⟩
  exact .field isField

theorem Encloses.of_pair {record : FixedRecord} {slots : List (Field × Value)}
    (declared : record.fields = slots.map Prod.fst) {slot : Field × Value} (isSlot : slot ∈ slots) :
    registry.Encloses (.fixed record, .ofFields (slots.map fun slot => (slot.1.name, slot.2)))
      (slot.1.type, slot.2) := by
  have isEntry : (slot.1, (Value.str slot.1.name, slot.2)) ∈
      record.fields.zip (Value.entriesOf (slots.map fun slot => (slot.1.name, slot.2))) := by
    rw [declared, Value.entriesOf, List.map_map, List.zip_map']
    exact List.mem_map.mpr ⟨slot, isSlot, rfl⟩
  exact .entry isEntry

theorem Encloses.part {held part : Descriptor × Value} (encloses : registry.Encloses held part) :
    Descriptor.Part registry.structs held.1 part.1 := by
  cases encloses with
  | item => exact .element _
  | value => exact .value _ _
  | present => exact .inner _
  | variant isMember => exact .member isMember
  | field isField => exact .field (List.of_mem_zip isField).1
  | entry isEntry => exact .field (List.of_mem_zip isEntry).1

theorem Conforms.of_part {part : Descriptor × Value} (conforms : registry.Conforms descriptor value)
    (encloses : registry.Encloses (descriptor, value) part) : registry.Conforms part.1 part.2 :=
  fun _ within => conforms _ (.head encloses within)

/-- Nothing deviates where no fixed record is reached and all records are tagged. -/
theorem conforms_of_tagged
    (tagged : descriptor.Throughout registry.structs (Descriptor.IsTagged registry))
    (unfixed : ∀ record, ¬Descriptor.Reaches registry.structs descriptor (.fixed record)) :
    registry.Conforms descriptor value := by
  intro part within
  have reaches : Descriptor.Reaches registry.structs descriptor part.1 :=
    within.lift Prod.fst fun _ _ encloses => encloses.part
  constructor
  · rintro ⟨-, -⟩
    exact unfixed _ reaches
  · intro mistags
    cases mistags with
    | record isRecord isClass found isTag different =>
        apply different
        rw [tagged _ reaches _ isRecord, isClass, Option.bind_some, found, Option.map_some, isTag]
    | object => exact unfixed _ reaches

end Enclosed

end Registry

end TypedReply
