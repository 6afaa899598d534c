import TypedReply.Proofs.Registry.Held
import TypedReply.Proofs.Schema.Meaning

/-!
# Plain forms and schemas

The plain form of what is held as a descriptor declares is admitted by the schema of the descriptor,
unless a fixed record leaves a field out: of a struct's fields only those that must be given have to
be there, of a fixed record's all.
-/

namespace TypedReply

open Compile Registry

variable {definitions : Definitions}

/-! ## Scalars -/

/-- The plain form of a scalar has the type that JSON gives to its kind, and is its own plain form. -/
theorem exists_plain_scalar {kind : ScalarKind} {value : Value}
    (typed : matchesScalar kind value = true) :
    ∃ wire, Plain.plain value = .ok wire ∧ wire.hasType kind.jsonType = true ∧
      Plain.plain wire = .ok wire := by
  unfold matchesScalar at typed
  split at typed
  · exact ⟨_, rfl, rfl, rfl⟩
  · cases typed
  next notBool =>
    obtain ⟨n, isInteger⟩ := Option.isSome_iff_exists.mp typed
    unfold Value.integer? at isInteger
    split at isInteger
    · exact (notBool _ rfl).elim
    · exact ⟨_, rfl, rfl, rfl⟩
    · exact ⟨_, rfl, rfl, rfl⟩
    · cases isInteger
  · exact ⟨_, rfl, rfl, rfl⟩
  · exact ⟨_, rfl, rfl, rfl⟩
  · exact ⟨_, rfl, rfl, rfl⟩
  · exact ⟨_, rfl, rfl, rfl⟩
  · cases typed

/-! ## Choices -/

theorem plain_of_isPrimitive {value : Value} (primitive : value.isPrimitive = true) :
    Plain.plain value = .ok value := by
  cases value with
  | bool | int | str => rfl
  | _ => cases primitive

theorem Value.sameJson_self {value : Value} (primitive : value.isPrimitive = true) :
    value.sameJson value = true := by
  cases value with
  | bool b => simp [sameJson]
  | int n => simp [sameJson, sameScalar, number?, integer?, Number.same]
  | str text => simp
  | _ => cases primitive

theorem Value.hasType_choiceType {value : Value} (primitive : value.isPrimitive = true) :
    value.hasType (choiceType value) = true := by
  cases value with
  | bool b => rfl
  | int n => rfl
  | str text => rfl
  | _ => cases primitive

theorem admitsType_typeKeyword {names : List String} {name : String} (isName : name ∈ names)
    {value : Value} (typed : value.hasType name = true) :
    admitsType (typeKeyword names) value = true := by
  have kept : name ∈ names.eraseDups := List.mem_eraseDups.mpr isName
  unfold typeKeyword
  split
  next single same =>
    rw [same] at kept
    obtain rfl := List.mem_singleton.mp kept
    exact typed
  next =>
    simp only [admitsType, List.any_map, List.any_eq_true]
    exact ⟨name, kept, typed⟩

theorem validates_choice {values : List Value}
    (primitive : ∀ choice ∈ values, choice.isPrimitive = true) {value : Value}
    (isChoice : value ∈ values) : Validates definitions (enumNode (.choices values)) value := by
  have isPrimitive := primitive value isChoice
  by_cases allTexts : EnumType.allTexts values = true
  · have texts : (EnumType.choices values).literals = [] := by
      simp only [EnumType.literals, allTexts, if_true]
    have isText := List.all_eq_true.mp allTexts value isChoice
    obtain ⟨text, rfl⟩ : ∃ text, value = .str text := by
      cases value with
      | str text => exact ⟨text, rfl⟩
      | bool | int => cases isText
      | _ => cases isPrimitive
    refine (validates_enumNode texts).mpr ⟨text, rfl, .str text, ?_, by simp⟩
    simpa only [EnumType.values, allTexts, if_true] using isChoice
  · have literals : (EnumType.choices values).literals = values := by
      simp only [EnumType.literals, allTexts]
      rfl
    have carried : values.map memberValue = values.map id := by
      apply List.map_congr_left
      intro choice isOther
      have isPrimitive := primitive choice isOther
      cases choice with
      | member => cases isPrimitive
      | _ => rfl
    have nonempty : (EnumType.choices values).literals ≠ [] := by
      rw [literals]
      exact List.ne_nil_of_mem isChoice
    have typed : admitsType (typeKeyword (values.map choiceType)) value = true :=
      admitsType_typeKeyword (List.mem_map_of_mem isChoice) (Value.hasType_choiceType isPrimitive)
    have same : ∃ choice ∈ values, choice.sameJson value = true :=
      ⟨value, isChoice, Value.sameJson_self isPrimitive⟩
    rw [enumNode_of_literals nonempty, literals, carried, List.map_id, validates_node_iff]
    simpa [Fields.get?_cons, typed] using same

/-! ## Records -/

section Parts

variable {drawn : StructId → Value → Prop}
variable (standing : ∀ id node, drawn id node → IsCompiled node ∧ IsSilent node)
include standing

/-- The node of a field admits the plain form of what is held of it, if the node of its type does
where a value is given. -/
theorem validates_held_field {field : Field} {value wire inner : Value}
    (isPlain : Plain.plain value = .ok wire)
    (nullable : Field.IsLacking field value → Field.IsNullable field)
    (renders : Renders drawn field.type inner)
    (admits : ¬Field.IsLacking field value → Validates definitions inner wire) :
    Validates definitions (fieldNode field.required field.description inner) wire := by
  have isCompiled := renders.isCompiled fun id node stands => (standing id node stands).1
  by_cases lacking : Field.IsLacking field value
  · obtain ⟨plain, unwidened⟩ := nullable lacking
    obtain ⟨optional, rfl⟩ := lacking
    obtain rfl := Except.ok.inj isPlain
    rw [optional, (renders.stance standing).validates_null_fieldNode_iff isCompiled]
    simp [plain, unwidened]
  · rw [validates_fieldNode isCompiled]
    exact .inl (admits lacking)

/-- What is written of the fields of a record is admitted by the nodes of the fields. -/
theorem validates_held_fields {pairs : List (Field × Value)} {compiled : Fields} {written : Value}
    (renders : List.Forall₂ (RendersField drawn) (pairs.map Prod.fst) compiled)
    (nullable : ∀ pair ∈ pairs, Field.IsLacking pair.1 pair.2 → Field.IsNullable pair.1)
    (isWritten : ∀ pair ∈ pairs, ∀ part, written.get? pair.1.name = some part →
      Plain.plain pair.2 = .ok part)
    (admits : ∀ pair ∈ pairs, ¬Field.IsLacking pair.1 pair.2 → ∀ wire,
      Plain.plain pair.2 = .ok wire → ∀ node, Renders drawn pair.1.type node →
        Validates definitions node wire)
    (name : String) (part : Value) (found : written.get? name = some part) (node : Value)
    (declared : compiled.get? name = some node) : Validates definitions node part := by
  obtain ⟨field, isField, -, same, inner, isRendered, isNode⟩ :=
    exists_left_of_mem renders (Fields.mem_of_get? declared)
  obtain ⟨pair, isPair, rfl⟩ := List.mem_map.mp isField
  dsimp only at same isNode
  subst same isNode
  have isPlain := isWritten pair isPair part found
  exact validates_held_field standing isPlain (nullable pair isPair) isRendered
    fun notLacking => admits pair isPair notLacking part isPlain inner isRendered

end Parts

/-- The plain form of an instance holds its tag and, under their names, what is held of the fields that
are not left out. -/
theorem exists_plain_slots (tag : RecordTag) {slots : List Slot}
    (distinct : (typeKey :: slots.map (·.field.wireName)).Nodup)
    (each : ∀ slot ∈ slots, ¬Field.IsLacking slot.declared slot.value →
      ∃ wire, Plain.plain slot.value = .ok wire) :
    ∃ entries : Fields, Plain.plain (.record tag (slots.map (·.held))) = .ok (.ofFields entries) ∧
      entries.get? typeKey = some (.str (Plain.tagName tag)) ∧
      (∀ name, name ≠ typeKey → name ∉ slots.map (·.field.wireName) → entries.get? name = none) ∧
      ∀ slot ∈ slots, ∃ wire, Plain.plain slot.value = .ok wire ∧
        entries.get? slot.field.wireName =
          if Plain.isOmitted slot.field.tag slot.value then none else some wire := by
  have names : (slots.map (·.held)).map (·.1.wireName) = slots.map (·.field.wireName) := by
    rw [List.map_map]
    rfl
  have plains (slot) (isSlot : slot ∈ slots) : ∃ wire, Plain.plain slot.value = .ok wire := by
    by_cases lacking : Field.IsLacking slot.declared slot.value
    · exact ⟨.null, by rw [lacking.2]; rfl⟩
    · exact each slot isSlot lacking
  obtain ⟨entries, isPlain, tagged, others, held⟩ :=
    Plain.exists_plain_record tag (names ▸ distinct) fun field isField => by
      obtain ⟨slot, isSlot, rfl⟩ := List.mem_map.mp isField
      exact plains slot isSlot
  rw [names] at others
  refine ⟨entries, isPlain, tagged, others, fun slot isSlot => ?_⟩
  obtain ⟨wire, isWire⟩ := plains slot isSlot
  exact ⟨wire, isWire, held slot.held (List.mem_map_of_mem isSlot) wire isWire⟩

/-- The plain form of an object of the fields of a record holds the plain forms of what they hold. -/
theorem exists_plain_pairs {pairs : List (Field × Value)} (distinct : (pairs.map (·.1.name)).Nodup)
    (each : ∀ pair ∈ pairs, ¬Field.IsLacking pair.1 pair.2 →
      ∃ wire, Plain.plain pair.2 = .ok wire) :
    ∃ wires : Fields, Plain.plain (.ofFields (pairs.map fun pair => (pair.1.name, pair.2))) =
        .ok (.ofFields wires) ∧ wires.map Prod.fst = pairs.map (·.1.name) ∧
      ∀ pair ∈ pairs, ∃ wire, Plain.plain pair.2 = .ok wire ∧
        wires.get? pair.1.name = some wire := by
  have names : (pairs.map fun pair => (pair.1.name, pair.2)).map Prod.fst =
      pairs.map (·.1.name) := by
    rw [List.map_map]
    rfl
  obtain ⟨wires, isPlain, sameNames, isWritten, -⟩ := Plain.exists_plain_ofFields (names ▸ distinct)
    (List.forall_mem_map.mpr fun pair isPair => by
      by_cases lacking : Field.IsLacking pair.1 pair.2
      · exact ⟨.null, by rw [lacking.2]; rfl⟩
      · exact each pair isPair lacking)
  exact ⟨wires, isPlain, sameNames.trans names,
    fun pair isPair => isWritten _ (List.mem_map_of_mem isPair)⟩

/-- What is written of the fields of a fixed record, all of them and nothing else, is admitted by the
node of the record. -/
theorem validates_held_record {drawn : StructId → Value → Prop}
    (standing : ∀ id node, drawn id node → IsCompiled node ∧ IsSilent node) {record : FixedRecord}
    {pairs : List (Field × Value)} {compiled : Fields} {written : Value}
    (declared : record.fields = pairs.map Prod.fst)
    (renders : List.Forall₂ (RendersField drawn) record.fields compiled)
    (distinct : (pairs.map (·.1.name)).Nodup)
    (nullable : ∀ pair ∈ pairs, Field.IsLacking pair.1 pair.2 → Field.IsNullable pair.1)
    (isObject : written.isObject = true)
    (tagged : written.get? typeKey = record.name.map .str)
    (closed : ∀ name, name ≠ typeKey → name ∉ pairs.map (·.1.name) → written.get? name = none)
    (isWritten : ∀ pair ∈ pairs, ∃ wire, Plain.plain pair.2 = .ok wire ∧
      written.get? pair.1.name = some wire)
    (admits : ∀ pair ∈ pairs, ¬Field.IsLacking pair.1 pair.2 → ∀ wire,
      Plain.plain pair.2 = .ok wire → ∀ node, Renders drawn pair.1.type node →
        Validates definitions node wire) :
    Validates definitions
      (recordNode record.name record.description (record.fields.map (·.name)) compiled) written := by
  have names : record.fields.map (·.name) = pairs.map (·.1.name) := by
    rw [declared, List.map_map]
    rfl
  have sameNames := map_fst_of_renders renders
  rw [← sameNames, validates_recordNode _ _ (sameNames ▸ names ▸ distinct)
    (typeKey_not_mem_of_renders renders), sameNames, names]
  refine ⟨isObject, ?_, ?_, ?_, ?_⟩
  · rintro name isName
    rw [tagged, isName]
    rfl
  · intro name isName
    obtain ⟨pair, isPair, rfl⟩ := List.mem_map.mp isName
    obtain ⟨wire, -, found⟩ := isWritten pair isPair
    rw [found]
    rfl
  · intro name present
    by_cases isTag : name = typeKey
    · subst isTag
      rw [tagged, Option.isSome_map] at present
      exact .inr ⟨rfl, present⟩
    · by_contra absent
      rw [closed name isTag fun isName => absent (.inl isName)] at present
      cases present
  · apply validates_held_fields standing (declared ▸ renders) nullable _ admits
    intro pair isPair part found
    obtain ⟨wire, isPlain, isFound⟩ := isWritten pair isPair
    cases isFound.symm.trans found
    exact isPlain

/-- What is written of the fields of a struct, of those that must be given at least, is admitted by the
body of the struct. -/
theorem validates_held_struct (options : Options) {drawn : StructId → Value → Prop}
    (standing : ∀ id node, drawn id node → IsCompiled node ∧ IsSilent node) {struct : Struct}
    {pairs : List (Field × Value)} {compiled : Fields} {written : Value}
    (declared : struct.fields = pairs.map Prod.fst)
    (renders : List.Forall₂ (RendersField drawn) struct.fields compiled)
    (distinct : (pairs.map (·.1.name)).Nodup)
    (nullable : ∀ pair ∈ pairs, Field.IsLacking pair.1 pair.2 → Field.IsNullable pair.1)
    (tagged : written.get? typeKey = some (.str struct.name))
    (isWritten : ∀ pair ∈ pairs, ∃ wire, Plain.plain pair.2 = .ok wire ∧
      (written.get? pair.1.name = some wire ∨
        pair.1.required = false ∧ written.get? pair.1.name = none))
    (admits : ∀ pair ∈ pairs, ¬Field.IsLacking pair.1 pair.2 → ∀ wire,
      Plain.plain pair.2 = .ok wire → ∀ node, Renders drawn pair.1.type node →
        Validates definitions node wire) :
    Validates definitions (structNode options struct compiled) written := by
  have names : struct.fields.map (·.name) = pairs.map (·.1.name) := by
    rw [declared, List.map_map]
    rfl
  have sameNames := map_fst_of_renders renders
  rw [validates_structNode options _ (sameNames ▸ names ▸ distinct)
    (typeKey_not_mem_of_renders renders)]
  refine ⟨tagged, ?_, ?_⟩
  · intro name isRequired
    obtain ⟨field, isField, required, rfl⟩ := mem_requiredNames.mp isRequired
    rw [declared] at isField
    obtain ⟨pair, isPair, rfl⟩ := List.mem_map.mp isField
    obtain ⟨wire, -, found | ⟨optional, -⟩⟩ := isWritten pair isPair
    · rw [found]
      rfl
    · cases optional.symm.trans required
  · apply validates_held_fields standing (declared ▸ renders) nullable _ admits
    intro pair isPair part found
    obtain ⟨wire, isPlain, isFound | ⟨-, absent⟩⟩ := isWritten pair isPair
    · cases isFound.symm.trans found
      exact isPlain
    · cases absent.symm.trans found

/-! ## Values -/

/-- The plain form of a value is admitted by every node of its descriptor, if nothing in it deviates from
what is asked for. -/
def Registry.Conveys (registry : Registry) (definitions : Definitions)
    (drawn : StructId → Value → Prop) (descriptor : Descriptor) (value : Value) : Prop :=
  ∃ wire, Plain.plain value = .ok wire ∧ (registry.Conforms descriptor value →
    ∀ node, Renders drawn descriptor node → Validates definitions node wire)

section Conveys

variable {registry : Registry} {drawn : StructId → Value → Prop}
variable (standing : ∀ id node, drawn id node → IsCompiled node ∧ IsSilent node)

theorem conveys_array {element : Descriptor} {items : List Value}
    (each : ∀ item ∈ items, registry.Conveys definitions drawn element item) :
    registry.Conveys definitions drawn (.array element) (.list items) := by
  obtain ⟨wires, aligned⟩ := exists_aligned each
  refine ⟨.list wires, ?_, fun conforms node renders => ?_⟩
  · rw [Plain.plain]
    exact bind_eq_ok_iff.mpr
      ⟨wires, Plain.plainItems_eq_ok_iff.mpr (aligned.imp fun _ _ conveyed => conveyed.1), rfl⟩
  · simp only [Renders] at renders
    obtain ⟨inner, renders, rfl⟩ := renders
    refine (validates_arrayNode inner).mpr ⟨wires, rfl, fun wire isWire => ?_⟩
    obtain ⟨item, isItem, -, admits⟩ := exists_left_of_mem aligned isWire
    exact admits (conforms.of_part (.item isItem)) inner renders

theorem conveys_map {key element : Descriptor} {fields : Fields}
    (distinct : (fields.map Prod.fst).Nodup)
    (each : ∀ field ∈ fields, registry.Conveys definitions drawn element field.2) :
    registry.Conveys definitions drawn (.map key element) (.ofFields fields) := by
  obtain ⟨wires, isPlain, -, -, ofWire⟩ := Plain.exists_plain_ofFields distinct fun field isField =>
    (each field isField).imp fun _ conveyed => conveyed.1
  refine ⟨.ofFields wires, isPlain, fun conforms node renders => ?_⟩
  simp only [Renders] at renders
  obtain ⟨keyNode, inner, -, renders, rfl⟩ := renders
  refine (validates_mapNode keyNode inner).mpr ⟨rfl, fun name part found => ?_⟩
  rw [Value.get?_ofFields] at found
  obtain ⟨field, isField, isWire⟩ := ofWire _ (Fields.mem_of_get? found)
  obtain ⟨own, isOwn, admits⟩ := each field isField
  cases isOwn.symm.trans isWire
  exact admits (conforms.of_part (.value (List.mem_map_of_mem isField))) inner renders

/-- What is written of the fields of an instance is admitted if nothing in the fields deviates. -/
theorem admits_slots {slots : List Slot}
    (each : ∀ slot ∈ slots, ¬Field.IsLacking slot.declared slot.value →
      registry.Conveys definitions drawn slot.declared.type slot.value)
    (conform : ∀ slot ∈ slots, registry.Conforms slot.declared.type slot.value)
    (pair : Field × Value) (isPair : pair ∈ slots.map (·.pair))
    (notLacking : ¬Field.IsLacking pair.1 pair.2) (wire : Value)
    (isPlain : Plain.plain pair.2 = .ok wire) (node : Value)
    (renders : Renders drawn pair.1.type node) : Validates definitions node wire := by
  obtain ⟨slot, isSlot, rfl⟩ := List.mem_map.mp isPair
  obtain ⟨own, isOwn, admits⟩ := each slot isSlot notLacking
  cases isOwn.symm.trans isPlain
  exact admits (conform slot isSlot) node renders

include standing

theorem conveys_optional {inner : Descriptor} {value : Value}
    (conveys : registry.Conveys definitions drawn inner value) :
    registry.Conveys definitions drawn (.optional inner) value := by
  obtain ⟨wire, isPlain, admits⟩ := conveys
  refine ⟨wire, isPlain, fun conforms node renders => ?_⟩
  simp only [Renders] at renders
  obtain ⟨innerNode, renders, rfl⟩ := renders
  rw [validates_nullable (renders.isCompiled fun id node stands => (standing id node stands).1)]
  exact .inl (admits (conforms.of_part (.present inner value)) innerNode renders)

theorem conveys_absent {inner : Descriptor} (plain : inner.enum? = none) :
    registry.Conveys definitions drawn (.optional inner) .null := by
  refine ⟨.null, rfl, fun _ node renders => ?_⟩
  simp only [Renders] at renders
  obtain ⟨innerNode, renders, rfl⟩ := renders
  have isCompiled := renders.isCompiled fun id node stands => (standing id node stands).1
  exact (renders.stance standing).admits_nullable isCompiled plain definitions

theorem conveys_variant {members : List Descriptor} {member : Descriptor} {value : Value}
    (isMember : member ∈ Descriptor.nonNull members)
    (conveys : registry.Conveys definitions drawn member value) :
    registry.Conveys definitions drawn (.union members) value := by
  obtain ⟨wire, isPlain, admits⟩ := conveys
  refine ⟨wire, isPlain, fun conforms node renders => ?_⟩
  simp only [Renders, rendersMembers_iff] at renders
  obtain ⟨nodes, renders, rfl⟩ := renders
  have compiled (node) (isNode : node ∈ nodes) : IsCompiled node := by
    obtain ⟨_, -, renders⟩ := exists_left_of_mem renders isNode
    exact renders.isCompiled fun id node stands => (standing id node stands).1
  rw [validates_unionNode compiled]
  obtain ⟨node, isNode, renders⟩ := exists_right_of_mem renders isMember
  have isListed := List.mem_of_mem_filter isMember
  exact .inl ⟨node, isNode, admits (conforms.of_part (.variant isListed value)) node renders⟩

theorem conveys_nil {members : List Descriptor} (nilable : Descriptor.nilable members = true)
    (plain : (Descriptor.union members).widenedEnum? = none) :
    registry.Conveys definitions drawn (.union members) .null := by
  refine ⟨.null, rfl, fun _ node renders => ?_⟩
  have isNullable : (Descriptor.union members).isNullable = true := nilable
  have said := renders.acceptsNull_of_isNullable
    (fun id node stands => (standing id node stands).1) isNullable
  rw [(renders.stance standing).validates_null_iff said]
  simp [plain]

/-- What is written of an instance of the class of a fixed record, whole and with the tag if the record
has a name, is admitted by the node of the record. -/
theorem validates_slots {record : FixedRecord} {slots : List Slot} {entries : Fields}
    (declared : record.fields = slots.map (·.declared))
    (distinct : (slots.map (·.field.wireName)).Nodup) (agree : ∀ slot ∈ slots, slot.Agrees)
    (tagged : entries.get? typeKey = record.name.map .str)
    (others : ∀ name, name ≠ typeKey → name ∉ slots.map (·.field.wireName) →
      entries.get? name = none)
    (isHeld : ∀ slot ∈ slots, ∃ wire, Plain.plain slot.value = .ok wire ∧
      entries.get? slot.field.wireName =
        if Plain.isOmitted slot.field.tag slot.value then none else some wire)
    (each : ∀ slot ∈ slots, ¬Field.IsLacking slot.declared slot.value →
      registry.Conveys definitions drawn slot.declared.type slot.value)
    (kept : ∀ slot ∈ slots, Plain.isOmitted slot.field.tag slot.value = false)
    (conform : ∀ slot ∈ slots, registry.Conforms slot.declared.type slot.value)
    {node : Value} (renders : Renders drawn (.fixed record) node) :
    Validates definitions node (.ofFields entries) := by
  simp only [Renders, rendersFields_iff] at renders
  obtain ⟨compiled, renders, rfl⟩ := renders
  have names := Slot.names_of_agree agree
  refine validates_held_record standing (declared.trans (Slot.map_declared slots)) renders
    (names ▸ distinct) (Slot.nullable_of_agree agree) rfl ?_ ?_ ?_ (admits_slots each conform)
  · rw [Value.get?_ofFields, tagged]
  · intro name notTag notField
    rw [Value.get?_ofFields]
    exact others name notTag (names ▸ notField)
  · intro pair isPair
    obtain ⟨slot, isSlot, rfl⟩ := List.mem_map.mp isPair
    obtain ⟨wire, isPlain, found⟩ := isHeld slot isSlot
    refine ⟨wire, isPlain, ?_⟩
    rw [Slot.pair, Value.get?_ofFields, (agree slot isSlot).name, found, kept slot isSlot]
    rfl

/-- The plain form of an instance of the class of a struct is admitted by the body of the struct. -/
theorem validates_struct_slots (options : Options) {struct : Struct} {slots : List Slot}
    {entries compiled : Fields} (declared : struct.fields = slots.map (·.declared))
    (distinct : (slots.map (·.field.wireName)).Nodup) (agree : ∀ slot ∈ slots, slot.Agrees)
    (tagged : entries.get? typeKey = some (.str struct.name))
    (isHeld : ∀ slot ∈ slots, ∃ wire, Plain.plain slot.value = .ok wire ∧
      entries.get? slot.field.wireName =
        if Plain.isOmitted slot.field.tag slot.value then none else some wire)
    (each : ∀ slot ∈ slots, ¬Field.IsLacking slot.declared slot.value →
      registry.Conveys definitions drawn slot.declared.type slot.value)
    (conform : ∀ slot ∈ slots, registry.Conforms slot.declared.type slot.value)
    (renders : List.Forall₂ (RendersField drawn) struct.fields compiled) :
    Validates definitions (structNode options struct compiled) (.ofFields entries) := by
  have names := Slot.names_of_agree agree
  refine validates_held_struct options standing (declared.trans (Slot.map_declared slots)) renders
    (names ▸ distinct) (Slot.nullable_of_agree agree) ((Value.get?_ofFields _ _).trans tagged) ?_
    (admits_slots each conform)
  intro pair isPair
  obtain ⟨slot, isSlot, rfl⟩ := List.mem_map.mp isPair
  obtain ⟨wire, isPlain, found⟩ := isHeld slot isSlot
  refine ⟨wire, isPlain, ?_⟩
  rw [Slot.pair, Value.get?_ofFields, (agree slot isSlot).name, found]
  cases omitted : Plain.isOmitted slot.field.tag slot.value with
  | false => exact .inl rfl
  | true => exact .inr ⟨(agree slot isSlot).optional_of_isOmitted omitted, rfl⟩

/-- The plain form of an object of the fields of a fixed record is admitted by the node of the
record. -/
theorem conveys_object {record : FixedRecord} {slots : List (Field × Value)}
    (classless : record.cls = none) (declared : record.fields = slots.map Prod.fst)
    (distinct : (slots.map (·.1.name)).Nodup)
    (nullable : ∀ slot ∈ slots, Field.IsLacking slot.1 slot.2 → Field.IsNullable slot.1)
    (each : ∀ slot ∈ slots, ¬Field.IsLacking slot.1 slot.2 →
      registry.Conveys definitions drawn slot.1.type slot.2) :
    registry.Conveys definitions drawn (.fixed record)
      (.ofFields (slots.map fun slot => (slot.1.name, slot.2))) := by
  obtain ⟨wires, isPlain, names, isWritten⟩ := exists_plain_pairs distinct fun slot isSlot notLacking =>
    (each slot isSlot notLacking).imp fun _ conveyed => conveyed.1
  refine ⟨.ofFields wires, isPlain, fun conforms node renders => ?_⟩
  simp only [Renders, rendersFields_iff] at renders
  obtain ⟨compiled, renders, rfl⟩ := renders
  have unnamed : record.name = none := by
    by_contra named
    exact (conforms _ .refl).2 (.object classless named)
  have isFree : typeKey ∉ wires.map Prod.fst := by
    have free := typeKey_not_mem_of_renders renders
    rw [map_fst_of_renders renders, declared, List.map_map] at free
    exact names ▸ free
  refine validates_held_record standing declared renders distinct nullable rfl ?_ ?_ ?_ ?_
  · rw [Value.get?_ofFields, unnamed, Fields.get?_eq_none_of_not_mem isFree]
    rfl
  · intro name _ notField
    rw [Value.get?_ofFields]
    exact Fields.get?_eq_none_of_not_mem (names ▸ notField)
  · intro slot isSlot
    rw [Value.get?_ofFields]
    exact isWritten slot isSlot
  · intro slot isSlot notLacking wire isPlain
    obtain ⟨own, isOwn, admits⟩ := each slot isSlot notLacking
    cases isOwn.symm.trans isPlain
    exact admits (conforms.of_part (.of_pair declared isSlot))

end Conveys

namespace Compile

variable {options : Options} {registry : Registry} {pass : Pass}

/-- In a consistent table the plain form of what is held as a descriptor declares is admitted by the
nodes of the descriptor, if nothing in it deviates from what they ask for. -/
theorem conveys_of_holds (consistent : Consistent options registry.structs [] pass)
    {descriptor : Descriptor} {value : Value} (holds : registry.Holds descriptor value) :
    registry.Conveys (pass.targets options) (StandsFor options registry.structs pass) descriptor
      value := by
  have standing := StandsFor.standing consistent
  induction holds with
  | scalar typed =>
      obtain ⟨wire, isPlain, isTyped, -⟩ := exists_plain_scalar typed
      refine ⟨wire, isPlain, fun _ node renders => ?_⟩
      simp only [Renders] at renders
      exact renders ▸ (validates_scalarNode _).mpr isTyped
  | choice primitive isChoice =>
      refine ⟨_, plain_of_isPrimitive (primitive _ isChoice), fun _ node renders => ?_⟩
      simp only [Renders] at renders
      exact renders ▸ validates_choice primitive isChoice
  | @member cls name text isMember =>
      refine ⟨.str text, rfl, fun _ node renders => ?_⟩
      simp only [Renders] at renders
      rw [renders, validates_enumNode rfl]
      exact ⟨text, rfl, .str text, List.mem_map.mpr ⟨_, isMember, rfl⟩, by simp⟩
  | array _ ih => exact conveys_array ih
  | map distinct _ ih => exact conveys_map distinct ih
  | absent plain => exact conveys_absent standing plain
  | present _ ih => exact conveys_optional standing ih
  | variant isMember _ ih => exact conveys_variant standing isMember ih
  | nil nilable plain => exact conveys_nil standing nilable plain
  | null =>
      refine ⟨.null, rfl, fun _ node renders => ?_⟩
      simp only [Renders] at renders
      exact renders ▸ validates_nullNode.mpr rfl
  | @record descriptor record cls slots isRecord isClass found declared _ distinct agree _ ih =>
      have isFields : descriptor.fields registry.structs = slots.map (·.declared) := by
        rw [← Descriptor.fields_of_record? isRecord, declared]
      obtain ⟨entries, isPlain, isTagged, others, isHeld⟩ :=
        exists_plain_slots cls.tag distinct fun slot isSlot notLacking =>
          (ih slot isSlot notLacking).imp fun _ conveyed => conveyed.1
      refine ⟨.ofFields entries, isPlain, fun conforms node renders => ?_⟩
      -- Of the instance itself: nothing is left out if the record is fixed, and the tag is the name.
      obtain ⟨whole, isNamed⟩ := conforms _ .refl
      have named : record.name = some (Plain.tagName cls.tag) := by
        by_contra different
        exact isNamed (.record isRecord isClass found rfl different)
      have conform (slot) (isSlot : slot ∈ slots) :
          registry.Conforms slot.declared.type slot.value :=
        conforms.of_part (.of_slot isFields isSlot cls.tag)
      cases descriptor with
      | fixed fixed =>
          cases isRecord
          have kept (slot) (isSlot : slot ∈ slots) :
              Plain.isOmitted slot.field.tag slot.value = false := by
            by_contra omitted
            rw [Bool.not_eq_false] at omitted
            exact whole (.intro (List.mem_map_of_mem isSlot) omitted)
          refine validates_slots standing declared (List.nodup_cons.mp distinct).2 agree ?_ others
            isHeld ih kept conform renders
          rw [isTagged]
          exact (congrArg (Option.map Value.str) named).symm
      | struct id =>
          cases isRecord
          simp only [Renders] at renders
          obtain ⟨compiled, renders, sameBody⟩ := exists_body consistent renders
          rw [sameBody]
          rw [← Option.some.inj named] at isTagged
          exact validates_struct_slots standing options declared (List.nodup_cons.mp distinct).2 agree
            isTagged isHeld ih conform ((rendersFields_iff _ _).mp renders)
      | _ => cases isRecord
  | object classless declared distinct nullable _ ih =>
      exact conveys_object standing classless declared distinct nullable ih

end Compile

end TypedReply
