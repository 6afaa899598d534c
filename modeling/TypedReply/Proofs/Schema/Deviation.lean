import TypedReply.Proofs.Registry.Fitted
import TypedReply.Proofs.Schema.Conveyance
import TypedReply.Proofs.Schema.Meaning

/-!
# What deviates is refused

The plain form of what is held as a fitted descriptor declares is admitted only if nothing in it
deviates: a fixed record asks for every field, and a record with a name for the tag that is its name.
-/

namespace TypedReply

open Relation

variable {registry : Registry} {descriptor : Descriptor} {value wire : Value}

/-- Whether a value is no list, no object and no instance. -/
def Value.isLeaf : Value → Bool
  | .list _ => false
  | .object _ => false
  | .record _ _ => false
  | _ => true

/-! ## Plain forms of what is held -/

/-- What is written of the fields of an instance are plain forms of their own. -/
theorem exists_settled_slots (tag : RecordTag) {slots : List Slot}
    (distinct : (typeKey :: slots.map (·.field.wireName)).Nodup)
    (each : ∀ slot ∈ slots, ¬Field.IsLacking slot.declared slot.value →
      ∃ wire, Plain.plain slot.value = .ok wire ∧ Plain.plain wire = .ok wire) :
    ∃ entries : Fields, Plain.plain (.record tag (slots.map (·.held))) = .ok (.ofFields entries) ∧
      (entries.map Prod.fst).Nodup ∧ ∀ entry ∈ entries, Plain.plain entry.2 = .ok entry.2 := by
  obtain ⟨entries, isPlain, -⟩ := exists_plain_slots tag distinct fun slot isSlot notLacking =>
    (each slot isSlot notLacking).imp fun _ settled => settled.1
  have settled : ∀ held ∈ slots.map (·.held), ∀ wire, Plain.plain held.2 = .ok wire →
      Plain.plain wire = .ok wire := by
    rintro _ isHeld wire isWire
    obtain ⟨slot, isSlot, rfl⟩ := List.mem_map.mp isHeld
    by_cases lacking : Field.IsLacking slot.declared slot.value
    · have isNull : Plain.plain slot.value = .ok .null := by
        rw [lacking.2]
        rfl
      cases isNull.symm.trans isWire
      rfl
    · obtain ⟨own, isOwn, isSettled⟩ := each slot isSlot lacking
      cases isOwn.symm.trans isWire
      exact isSettled
  obtain ⟨others, same, distinctNames, areSettled⟩ := @Plain.exists_entries_of_plain_record
    (fun wire => Plain.plain wire = .ok wire) tag _ rfl settled _ isPlain
  rw [same] at isPlain
  exact ⟨others, isPlain, distinctNames, areSettled⟩

namespace Registry

theorem Holds.exists_plain (holds : registry.Holds descriptor value) :
    ∃ wire, Plain.plain value = .ok wire ∧ Plain.plain wire = .ok wire := by
  induction holds with
  | scalar typed =>
      obtain ⟨wire, isPlain, -, settled⟩ := exists_plain_scalar typed
      exact ⟨wire, isPlain, settled⟩
  | choice primitive isChoice =>
      have isPlain := plain_of_isPrimitive (primitive _ isChoice)
      exact ⟨_, isPlain, isPlain⟩
  | @member cls name text => exact ⟨.str text, rfl, rfl⟩
  | @array element items _ ih =>
      obtain ⟨wires, aligned⟩ := exists_aligned ih
      refine ⟨.list wires, ?_, ?_⟩
      · rw [Plain.plain]
        exact bind_eq_ok_iff.mpr
          ⟨wires, Plain.plainItems_eq_ok_iff.mpr (aligned.imp fun _ _ settled => settled.1), rfl⟩
      · have settled : ∀ wire ∈ wires, Plain.plain wire = .ok wire := by
          intro wire isWire
          obtain ⟨_, -, -, settled⟩ := exists_left_of_mem aligned isWire
          exact settled
        rw [Plain.plain]
        exact bind_eq_ok_iff.mpr
          ⟨wires, Plain.plainItems_eq_ok_iff.mpr (List.forall₂_same.mpr settled), rfl⟩
  | map distinct _ ih => exact Plain.exists_settled_ofFields distinct ih
  | absent | nil | null => exact ⟨.null, rfl, rfl⟩
  | present _ ih => exact ih
  | variant _ _ ih => exact ih
  | @record _ _ cls _ _ _ _ _ _ distinct _ _ ih =>
      obtain ⟨entries, isPlain, names, settled⟩ := exists_settled_slots cls.tag distinct ih
      exact ⟨.ofFields entries, isPlain, Plain.plain_ofFields_self names settled⟩
  | @object record slots _ _ distinct _ _ ih =>
      have names : (slots.map fun slot => (slot.1.name, slot.2)).map Prod.fst =
          slots.map (·.1.name) := by
        rw [List.map_map]
        rfl
      refine Plain.exists_settled_ofFields (names ▸ distinct) (List.forall_mem_map.mpr ?_)
      intro slot isSlot
      by_cases lacking : Field.IsLacking slot.1 slot.2
      · exact ⟨.null, by rw [lacking.2]; rfl, rfl⟩
      · exact ih slot isSlot lacking

/-! ## Parts that deviate -/

theorem Conforms.of_parts (whole : ¬LeavesOut (descriptor, value))
    (tagged : ¬registry.Mistags (descriptor, value))
    (parts : ∀ part, registry.Encloses (descriptor, value) part →
      registry.Conforms part.1 part.2) : registry.Conforms descriptor value := by
  intro found within
  rcases within.cases_head with rfl | ⟨part, encloses, within⟩
  · exact ⟨whole, tagged⟩
  · exact parts part encloses found within

theorem conforms_of_isLeaf (isLeaf : value.isLeaf = true) : registry.Conforms descriptor value := by
  intro part within
  have same : part.2 = value := by
    induction within with
    | refl => rfl
    | tail _ encloses ih =>
        cases encloses with
        | present | variant => exact ih
        | _ =>
            obtain rfl := ih
            cases isLeaf
  constructor
  · rintro ⟨⟩
    obtain rfl := same
    cases isLeaf
  · rintro ⟨⟩ <;>
    · obtain rfl := same
      cases isLeaf

theorem isLeaf_of_plain_null (isPlain : Plain.plain value = .ok .null) : value.isLeaf = true := by
  cases value with
  | list | object | record =>
      rw [Plain.plain] at isPlain
      obtain ⟨_, -, made⟩ := bind_eq_ok_iff.mp isPlain
      cases made
  | _ => rfl

/-- What stands directly in an instance of the class of a record are the values of its fields. -/
theorem Encloses.exists_slot {record : RecordView} {slots : List Slot} {tag : RecordTag}
    {part : Descriptor × Value} (isRecord : descriptor.record? registry.structs = some record)
    (declared : descriptor.fields registry.structs = slots.map (·.declared))
    (encloses : registry.Encloses (descriptor, .record tag (slots.map (·.held))) part) :
    ∃ slot ∈ slots, part = (slot.declared.type, slot.value) := by
  cases encloses with
  | present | variant => cases isRecord
  | field isField =>
      rw [declared, List.zip_map'] at isField
      obtain ⟨slot, isSlot, same⟩ := List.mem_map.mp isField
      cases same
      exact ⟨slot, isSlot, rfl⟩

/-- What stands directly in an object of the fields of a record are the values of the fields. -/
theorem Encloses.exists_pair {record : FixedRecord} {pairs : List (Field × Value)}
    {part : Descriptor × Value} (declared : record.fields = pairs.map Prod.fst)
    (encloses : registry.Encloses
      (.fixed record, .ofFields (pairs.map fun pair => (pair.1.name, pair.2))) part) :
    ∃ pair ∈ pairs, part = (pair.1.type, pair.2) := by
  cases encloses with
  | entry isEntry =>
      rw [declared, List.map_map, List.zip_map'] at isEntry
      obtain ⟨pair, isPair, same⟩ := List.mem_map.mp isEntry
      cases same
      exact ⟨pair, isPair, rfl⟩

/-- What stands for no record does not deviate itself. -/
theorem Conforms.of_plain_parts (plain : descriptor.record? registry.structs = none)
    (parts : ∀ part, registry.Encloses (descriptor, value) part →
      registry.Conforms part.1 part.2) : registry.Conforms descriptor value := by
  refine .of_parts ?_ ?_ parts
  · rintro ⟨⟩
    cases plain
  · intro mistags
    cases mistags with
    | record isRecord => cases plain.symm.trans isRecord
    | object => cases plain

/-- What a field holds conforms if its plain form is null or admitted. -/
theorem conforms_of_field {field : Field} (isPlain : Plain.plain value = .ok wire)
    (admits : ¬(field.required = false ∧ wire = .null) →
      field.type.Admits registry.structs wire)
    (known : ¬field.IsLacking value → ∀ wire, Plain.plain value = .ok wire →
      field.type.Admits registry.structs wire → registry.Conforms field.type value) :
    registry.Conforms field.type value := by
  by_cases isNull : wire = .null
  · exact conforms_of_isLeaf (isLeaf_of_plain_null (isNull ▸ isPlain))
  · refine known (fun lacking => ?_) wire isPlain (admits fun both => isNull both.2)
    rw [lacking.2] at isPlain
    exact isNull (Except.ok.inj isPlain).symm

section Slots

variable {slots : List Slot} {entries : Fields}
variable (agree : ∀ slot ∈ slots, slot.Agrees)
variable (isHeld : ∀ slot ∈ slots, ∃ wire, Plain.plain slot.value = .ok wire ∧
  entries.get? slot.field.wireName =
    if Plain.isOmitted slot.field.tag slot.value then none else some wire)
include agree isHeld

/-- What an instance holds conforms if what is written of its fields is admitted. -/
theorem conforms_of_slots
    (admits : ∀ slot ∈ slots, ∀ part, entries.get? slot.declared.name = some part →
      ¬(slot.declared.required = false ∧ part = .null) →
        slot.declared.type.Admits registry.structs part)
    (known : ∀ slot ∈ slots, ¬slot.declared.IsLacking slot.value → ∀ wire,
      Plain.plain slot.value = .ok wire → slot.declared.type.Admits registry.structs wire →
        registry.Conforms slot.declared.type slot.value) :
    ∀ slot ∈ slots, registry.Conforms slot.declared.type slot.value := by
  intro slot isSlot
  obtain ⟨wire, isPlain, found⟩ := isHeld slot isSlot
  cases omitted : Plain.isOmitted slot.field.tag slot.value with
  | true =>
      rw [Plain.isOmitted, Bool.and_eq_true, Value.isNull_iff] at omitted
      rw [omitted.2]
      exact conforms_of_isLeaf rfl
  | false =>
      rw [omitted, ← (agree slot isSlot).name] at found
      exact conforms_of_field isPlain (admits slot isSlot wire found) (known slot isSlot)

theorem kept_of_complete (complete : ∀ slot ∈ slots, (entries.get? slot.declared.name).isSome = true) :
    ∀ slot ∈ slots, Plain.isOmitted slot.field.tag slot.value = false := by
  intro slot isSlot
  obtain ⟨wire, -, found⟩ := isHeld slot isSlot
  by_contra omitted
  rw [Bool.not_eq_false] at omitted
  have present := complete slot isSlot
  rw [(agree slot isSlot).name, found, if_pos omitted] at present
  cases present

end Slots

/-- An instance conforms if nothing is left out of it, it is tagged by the name of its record, and what
it holds conforms. -/
theorem Conforms.of_slots {record : RecordView} {tag : RecordTag} {slots : List Slot}
    (isRecord : descriptor.record? registry.structs = some record)
    (declared : descriptor.fields registry.structs = slots.map (·.declared))
    (named : record.name = some (Plain.tagName tag))
    (whole : ¬LeavesOut (descriptor, .record tag (slots.map (·.held))))
    (each : ∀ slot ∈ slots, registry.Conforms slot.declared.type slot.value) :
    registry.Conforms descriptor (.record tag (slots.map (·.held))) := by
  refine .of_parts whole ?_ fun part encloses => ?_
  · intro mistags
    cases mistags with
    | record isSame _ _ _ different =>
        cases isRecord.symm.trans isSame
        exact different named
  · obtain ⟨slot, isSlot, rfl⟩ := encloses.exists_slot isRecord declared
    exact each slot isSlot

/-! ## Values -/

/-- That a fitted descriptor admits the plain form of a value attests that the value conforms to the
descriptor. -/
def Attests (registry : Registry) (descriptor : Descriptor) (value : Value) : Prop :=
  descriptor.Throughout registry.structs registry.Fitted → ∀ wire, Plain.plain value = .ok wire →
    descriptor.Admits registry.structs wire → registry.Conforms descriptor value

theorem attests_of_isLeaf (isLeaf : value.isLeaf = true) : registry.Attests descriptor value :=
  fun _ _ _ _ => conforms_of_isLeaf isLeaf

theorem attests_array {element : Descriptor} {items : List Value}
    (each : ∀ item ∈ items, registry.Attests element item) :
    registry.Attests (.array element) (.list items) := by
  intro fitted wire isPlain admits
  rw [Plain.plain] at isPlain
  obtain ⟨wires, arePlain, made⟩ := bind_eq_ok_iff.mp isPlain
  cases made
  refine .of_plain_parts rfl fun part encloses => ?_
  cases encloses with
  | @item _ _ item isItem =>
      obtain ⟨wire, isWire, isPlain⟩ :=
        exists_right_of_mem (Plain.plainItems_eq_ok_iff.mp arePlain) isItem
      cases admits with
      | array admitted =>
          exact each item isItem (fitted.of_part (.element _)) wire isPlain (admitted wire isWire)

theorem attests_map {key element : Descriptor} {fields : Fields}
    (distinct : (fields.map Prod.fst).Nodup)
    (isPlain : ∀ field ∈ fields, ∃ wire, Plain.plain field.2 = .ok wire)
    (each : ∀ field ∈ fields, registry.Attests element field.2) :
    registry.Attests (.map key element) (.ofFields fields) := by
  intro fitted wire areWritten admits
  obtain ⟨wires, areWires, -, isWritten, -⟩ := Plain.exists_plain_ofFields distinct isPlain
  cases areWires.symm.trans areWritten
  refine .of_plain_parts rfl fun part encloses => ?_
  cases encloses with
  | @value _ _ _ entry isEntry =>
      obtain ⟨field, isField, rfl⟩ := List.mem_map.mp isEntry
      obtain ⟨wire, isPlain, found⟩ := isWritten field isField
      cases admits with
      | map _ admitted =>
          refine each field isField (fitted.of_part (.value _ _)) wire isPlain
            (admitted field.1 wire ?_)
          rw [Value.get?_ofFields, found]

theorem attests_optional {inner : Descriptor} (attests : registry.Attests inner value) :
    registry.Attests (.optional inner) value := by
  intro fitted wire isPlain admits
  refine .of_plain_parts rfl fun part encloses => ?_
  cases encloses with
  | present =>
      cases admits with
      | absent => exact conforms_of_isLeaf (isLeaf_of_plain_null isPlain)
      | present admits => exact attests (fitted.of_part (.inner _)) wire isPlain admits
  | field isField => cases isField

section Slots

variable {tag : RecordTag} {slots : List Slot} {entries : Fields}
variable (agree : ∀ slot ∈ slots, slot.Agrees)
variable (isTagged : entries.get? typeKey = some (.str (Plain.tagName tag)))
variable (isHeld : ∀ slot ∈ slots, ∃ wire, Plain.plain slot.value = .ok wire ∧
  entries.get? slot.field.wireName =
    if Plain.isOmitted slot.field.tag slot.value then none else some wire)
variable (each : ∀ slot ∈ slots, ¬Field.IsLacking slot.declared slot.value →
  registry.Attests slot.declared.type slot.value)
include agree isTagged isHeld each

/-- An instance of the class of a fixed record conforms if what is written of it is admitted: the tag is
the name, for there is no field of its name, and nothing is left out, for the record asks for all
fields. -/
theorem conforms_of_fixed {record : FixedRecord} (declared : record.fields = slots.map (·.declared))
    (fitted : (Descriptor.fixed record).Throughout registry.structs registry.Fitted)
    (admits : (Descriptor.fixed record).Admits registry.structs (.ofFields entries)) :
    registry.Conforms (.fixed record) (.record tag (slots.map (·.held))) := by
  have isField (slot) (isSlot : slot ∈ slots) : slot.declared ∈ record.fields :=
    declared ▸ List.mem_map_of_mem isSlot
  cases admits with
  | fixed isObject tagged complete closed admitted =>
      simp only [Value.get?_ofFields] at tagged complete closed admitted
      have named : record.name = some (Plain.tagName tag) := by
        cases isName : record.name with
        | none =>
            -- The tag is written, and a record without a name admits it only as one of its fields.
            rcases closed typeKey (by rw [isTagged]; rfl) with isField | ⟨-, isSome⟩
            · exact ((List.nodup_cons.mp (fitted.here.names rfl)).1 isField).elim
            · rw [isName] at isSome
              cases isSome
        | some name =>
            rw [isTagged] at tagged
            cases tagged name isName
            rfl
      have kept := kept_of_complete agree isHeld fun slot isSlot =>
        complete slot.declared (isField slot isSlot)
      refine .of_slots rfl declared named ?_ ?_
      · rintro ⟨isOmittedField, omitted⟩
        obtain ⟨slot, isSlot, rfl⟩ := List.mem_map.mp isOmittedField
        exact Bool.false_ne_true ((kept slot isSlot).symm.trans omitted)
      · exact conforms_of_slots agree isHeld
          (fun slot isSlot => admitted slot.declared (isField slot isSlot))
          fun slot isSlot notLacking =>
            each slot isSlot notLacking (fitted.of_part (.field (isField slot isSlot)))

/-- An instance of the class of a struct conforms if what is written of it is admitted. -/
theorem conforms_of_struct {id : StructId}
    (declared : (registry.structs.at id).fields = slots.map (·.declared))
    (fitted : (Descriptor.struct id).Throughout registry.structs registry.Fitted)
    (admits : (Descriptor.struct id).Admits registry.structs (.ofFields entries)) :
    registry.Conforms (.struct id) (.record tag (slots.map (·.held))) := by
  have isField (slot) (isSlot : slot ∈ slots) : slot.declared ∈ (registry.structs.at id).fields :=
    declared ▸ List.mem_map_of_mem isSlot
  cases admits with
  | struct tagged complete admitted =>
      simp only [Value.get?_ofFields] at tagged admitted
      rw [isTagged] at tagged
      have named : (registry.structs.at id).name = Plain.tagName tag :=
        (Value.str.inj (Option.some.inj tagged)).symm
      refine .of_slots rfl declared (congrArg some named) ?_ ?_
      · rintro ⟨⟩
      · exact conforms_of_slots agree isHeld
          (fun slot isSlot => admitted slot.declared (isField slot isSlot))
          fun slot isSlot notLacking =>
            each slot isSlot notLacking (fitted.of_part (.field (isField slot isSlot)))

end Slots

/-- An object of the fields of a record without a class conforms if its plain form is admitted: the
record has no name, for no tag is written. -/
theorem attests_object {record : FixedRecord} {pairs : List (Field × Value)}
    (declared : record.fields = pairs.map Prod.fst) (distinct : (pairs.map (·.1.name)).Nodup)
    (isPlain : ∀ pair ∈ pairs, ¬Field.IsLacking pair.1 pair.2 →
      ∃ wire, Plain.plain pair.2 = .ok wire)
    (each : ∀ pair ∈ pairs, ¬Field.IsLacking pair.1 pair.2 →
      registry.Attests pair.1.type pair.2) :
    registry.Attests (.fixed record) (.ofFields (pairs.map fun pair => (pair.1.name, pair.2))) := by
  intro fitted wire areWritten admits
  obtain ⟨wires, areWires, names, isWritten⟩ := exists_plain_pairs distinct isPlain
  cases areWires.symm.trans areWritten
  have free : typeKey ∉ pairs.map (·.1.name) := by
    have free := (List.nodup_cons.mp (fitted.here.names rfl)).1
    rwa [FixedRecord.view, declared, List.map_map] at free
  have isField (pair) (isPair : pair ∈ pairs) : pair.1 ∈ record.fields :=
    declared ▸ List.mem_map_of_mem isPair
  cases admits with
  | fixed _ tagged _ _ admitted =>
      simp only [Value.get?_ofFields] at tagged admitted
      refine .of_parts ?_ ?_ fun part encloses => ?_
      · rintro ⟨⟩
      · intro mistags
        cases mistags with
        | object _ named =>
            obtain ⟨name, isName⟩ := Option.ne_none_iff_exists'.mp named
            have isTag := tagged name isName
            rw [Fields.get?_eq_none_of_not_mem (names ▸ free)] at isTag
            cases isTag
      · obtain ⟨pair, isPair, rfl⟩ := encloses.exists_pair declared
        obtain ⟨wire, isPlain, found⟩ := isWritten pair isPair
        exact conforms_of_field isPlain (admitted pair.1 (isField pair isPair) wire found)
          fun notLacking =>
            each pair isPair notLacking (fitted.of_part (.field (isField pair isPair)))

theorem attests_of_holds (holds : registry.Holds descriptor value) :
    registry.Attests descriptor value := by
  induction holds with
  | @scalar kind value typed =>
      apply attests_of_isLeaf
      cases value with
      | list | object | record => cases kind <;> cases typed
      | _ => rfl
  | choice | member =>
      intro fitted
      cases fitted.here with
      | record isRecord => cases isRecord
  | array _ ih => exact attests_array ih
  | map distinct each ih =>
      exact attests_map distinct
        (fun field isField => (each field isField).exists_plain.imp fun _ both => both.1) ih
  | absent | nil | null => exact attests_of_isLeaf rfl
  | present _ ih => exact attests_optional ih
  | variant => exact fun fitted => (fitted.here.ne_union _ rfl).elim
  | @record descriptor record cls slots isRecord isClass found declared fields distinct agree each ih =>
      intro fitted wire isPlain admits
      obtain ⟨entries, areEntries, isTagged, -, isHeld⟩ := exists_plain_slots cls.tag distinct
        fun slot isSlot notLacking =>
          (each slot isSlot notLacking).exists_plain.imp fun _ both => both.1
      cases areEntries.symm.trans isPlain
      cases descriptor with
      | fixed fixed =>
          cases isRecord
          exact conforms_of_fixed agree isTagged isHeld ih declared fitted admits
      | struct id =>
          cases isRecord
          exact conforms_of_struct agree isTagged isHeld ih declared fitted admits
      | _ => cases isRecord
  | object classless declared distinct nullable each ih =>
      exact attests_object declared distinct
        (fun pair isPair notLacking =>
          (each pair isPair notLacking).exists_plain.imp fun _ both => both.1) ih

end Registry

end TypedReply
