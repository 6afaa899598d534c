import TypedReply.Contract
import TypedReply.Proofs.Reference.Library
import TypedReply.Proofs.Registry.Provided
import TypedReply.Proofs.Reply.Inputs
import TypedReply.Proofs.Schema.Deviation

/-!
# Input values in prompts

A prompt shows the schema of the input and, at its end, the input values. The values are read, made
plain and, if the input record has no name, rid of the tag of the record. They obey the schema exactly
if nothing in them deviates from what it asks for: no field of a fixed record is left out, and what
stands in the record is tagged by the names of records.
-/

namespace TypedReply

variable {registry : Registry} {record : FixedRecord} {values value payload : Value}

/-! ## The text of a prompt -/

namespace Prompt

/-- A prompt shows the text of a schema of the input and that of input values. -/
def Shows (prompt schema values : String) : Prop :=
  ∃ between : List String, prompt = "\n".intercalate
    (["Your input schema fields are:"] ++ fenced schema ++ between ++ ["## Input Values"] ++
      fenced values)

theorem exists_shown_of_build {instruction prompt : String}
    {inputSchema outputSchema inputValues : Value} {examples : List (Value × Value)}
    (built : build instruction inputSchema outputSchema inputValues examples = .ok prompt) :
    ∃ schema values, pretty inputSchema = .ok schema ∧ prettyPlain inputValues = .ok values ∧
      Shows prompt schema values := by
  obtain ⟨schema, isSchema, built⟩ := bind_eq_ok_iff.mp built
  obtain ⟨outputText, -, built⟩ := bind_eq_ok_iff.mp built
  obtain ⟨examplesText, -, built⟩ := bind_eq_ok_iff.mp built
  obtain ⟨values, areValues, built⟩ := bind_eq_ok_iff.mp built
  refine ⟨schema, values, isSchema, areValues,
    ["", "Your output schema fields are:"] ++ fenced outputText ++ [""] ++ rules ++ examplesText ++
      ["", "Your objective is: " ++ instruction, ""], ?_⟩
  rw [← Except.ok.inj built]
  simp only [List.append_assoc, List.cons_append, List.nil_append]

end Prompt

/-! ## Payloads -/

namespace FixedRecord

/-- What is shown of the plain form of an input record: all of it, but for the tag if the record has no
name. -/
def shown (record : FixedRecord) (entries : Fields) : Fields :=
  if record.name.isSome then entries else entries.filter fun entry => entry.1 != typeKey

theorem get?_shown {name : String} (notTag : name ≠ typeKey) (entries : Fields) :
    (record.shown entries).get? name = entries.get? name := by
  unfold shown
  split
  · rfl
  · rw [Fields.get?_filter_ne, if_neg notTag]

theorem get?_typeKey_shown {entries : Fields}
    (named : ∀ name, record.name = some name → entries.get? typeKey = some (.str name)) :
    (record.shown entries).get? typeKey = record.name.map .str := by
  unfold shown
  split
  next isNamed =>
    obtain ⟨name, isName⟩ := Option.isSome_iff_exists.mp isNamed
    rw [named name isName, isName]
    rfl
  next unnamed =>
    rw [Option.not_isSome_iff_eq_none] at unnamed
    rw [Fields.get?_filter_ne, if_pos rfl, unnamed]
    rfl

theorem shown_eq_self {entries : Fields} (untagged : typeKey ∉ entries.map Prod.fst) :
    record.shown entries = entries := by
  unfold shown
  split
  · rfl
  · apply List.filter_eq_self.mpr
    intro entry isEntry
    rw [bne_iff_ne]
    exact fun isTag => untagged (isTag ▸ List.mem_map_of_mem isEntry)

theorem plain_shown {entries : Fields} (distinct : (entries.map Prod.fst).Nodup)
    (settled : ∀ entry ∈ entries, Plain.plain entry.2 = .ok entry.2) :
    Plain.plain (.ofFields (record.shown entries)) = .ok (.ofFields (record.shown entries)) := by
  unfold shown
  split
  · exact Plain.plain_ofFields_self distinct settled
  · exact Plain.plain_ofFields_self (distinct.sublist (List.filter_sublist.map _))
      fun entry isEntry => settled entry (List.mem_of_mem_filter isEntry)

end FixedRecord

namespace Contract

variable {contract : Contract}

/-- A prompt is rendered of a schema that is compiled and of a payload. -/
theorem exists_shown_of_renderPrompt {examples : List (Value × Value)} {prompt : String}
    (rendered : contract.renderPrompt registry values examples = .ok prompt) :
    ∃ compiled payload schema json,
      compile contract.options registry.structs contract.inputs = .ok compiled ∧
        contract.inputPayload registry values = .ok payload ∧
          Prompt.pretty (compiled.document none) = .ok schema ∧
            Prompt.prettyPlain payload = .ok json ∧ Prompt.Shows prompt schema json := by
  obtain ⟨_, isSchema, rendered⟩ := bind_eq_ok_iff.mp rendered
  obtain ⟨compiled, compiles, made⟩ := bind_eq_ok_iff.mp isSchema
  cases made
  obtain ⟨_, -, rendered⟩ := bind_eq_ok_iff.mp rendered
  obtain ⟨payload, isPayload, built⟩ := bind_eq_ok_iff.mp rendered
  obtain ⟨schema, json, isSchema, isJson, shows⟩ := Prompt.exists_shown_of_build built
  exact ⟨compiled, payload, schema, json, compiles, isPayload, isSchema, isJson, shows⟩

theorem exists_read_of_inputPayload (isInputs : contract.inputs = .fixed record)
    (isPayload : contract.inputPayload registry values = .ok payload) :
    ∃ value, read registry values contract.inputs = .ok value := by
  rw [inputPayload, isInputs] at isPayload
  obtain ⟨_, isPlain, -⟩ := bind_eq_ok_iff.mp isPayload
  exact ⟨_, isInputs ▸ isPlain⟩

theorem inputPayload_eq (isInputs : contract.inputs = .fixed record)
    (isRead : read registry values contract.inputs = .ok value) {entries : Fields}
    (isPlain : Plain.plain value = .ok (.ofFields entries)) :
    contract.inputPayload registry values = .ok (.ofFields (record.shown entries)) := by
  rw [inputPayload, isRead, isInputs]
  refine bind_eq_ok_iff.mpr ⟨value, rfl, bind_eq_ok_iff.mpr ⟨_, isPlain, ?_⟩⟩
  show Except.ok (Value.object (if record.name.isSome then Value.entriesOf entries
    else (Value.entriesOf entries).erase typeKey)) = _
  rw [erase_entriesOf, ← apply_ite Value.entriesOf]
  rfl

end Contract

/-! ## Payloads and schemas -/

namespace Registry

/-- Nothing in the input values deviates from what the schema of their record asks for. The record
itself may go without a tag if it has no name; one with a name must have a class. -/
structure Accords (registry : Registry) (record : FixedRecord) (value : Value) : Prop where
  classed : record.name ≠ none → record.cls ≠ none
  whole : ¬LeavesOut (.fixed record, value)
  parts : ∀ part, registry.Encloses (.fixed record, value) part →
    registry.Conforms part.1 part.2

theorem Fitted.regular {descriptor : Descriptor} (fitted : registry.Fitted descriptor) :
    descriptor.Regular registry.structs := by
  constructor
  · cases isRecord : descriptor.record? registry.structs with
    | none =>
        cases fitted with
        | object => cases isRecord
        | record isSome => cases isRecord.symm.trans isSome
        | _ => exact List.nodup_nil
    | some view =>
        rw [← Descriptor.fields_of_record? isRecord]
        exact (List.nodup_cons.mp (fitted.names isRecord)).2
  · rintro type rfl
    cases fitted with
    | record isRecord => cases isRecord

theorem regular_of_fitted {descriptor : Descriptor}
    (fitted : descriptor.Throughout registry.structs registry.Fitted) :
    descriptor.Throughout registry.structs (Descriptor.Regular registry.structs) :=
  fun found reaches => (fitted found reaches).regular

/-- The values that an instance of the class of a record holds accord with the record if all are written
and nothing in them deviates. -/
theorem accords_slots_iff {cls : RecordClass} {slots : List Slot}
    (isClass : record.cls = some cls.key) (declared : record.fields = slots.map (·.declared)) :
    registry.Accords record (.record cls.tag (slots.map (·.held))) ↔
      (∀ slot ∈ slots, Plain.isOmitted slot.field.tag slot.value = false) ∧
        ∀ slot ∈ slots, registry.Conforms slot.declared.type slot.value := by
  have isFields : (Descriptor.fixed record).fields registry.structs = slots.map (·.declared) := declared
  constructor
  · intro accords
    refine ⟨fun slot isSlot => ?_, fun slot isSlot => accords.parts _ (.of_slot isFields isSlot _)⟩
    by_contra omitted
    rw [Bool.not_eq_false] at omitted
    exact accords.whole (.intro (List.mem_map_of_mem isSlot) omitted)
  · rintro ⟨kept, conform⟩
    constructor
    · simp [isClass]
    · rintro ⟨isField, omitted⟩
      obtain ⟨slot, isSlot, rfl⟩ := List.mem_map.mp isField
      exact Bool.false_ne_true ((kept slot isSlot).symm.trans omitted)
    · intro part encloses
      obtain ⟨slot, isSlot, rfl⟩ := encloses.exists_slot rfl isFields
      exact conform slot isSlot

variable {options : Options} {compiled : Compiled}

/-- What is shown of the plain form of an instance of the class of a record is admitted by the schema of
the record exactly if the instance accords with the record. -/
theorem admits_shown_slots_iff {cls : RecordClass} {slots : List Slot} {entries : Fields}
    (objects : registry.library.ObjectsToUnderscores)
    (compiles : compile options registry.structs (.fixed record) = .ok compiled)
    (provided : registry.Provided (.fixed record)) (isClass : record.cls = some cls.key)
    (found : registry.catalog.get? cls.key = some cls)
    (declared : record.fields = slots.map (·.declared))
    (distinct : (typeKey :: slots.map (·.field.wireName)).Nodup)
    (agree : ∀ slot ∈ slots, slot.Agrees)
    (each : ∀ slot ∈ slots, ¬Field.IsLacking slot.declared slot.value →
      registry.Holds slot.declared.type slot.value)
    (isTagged : entries.get? typeKey = some (.str (Plain.tagName cls.tag)))
    (others : ∀ name, name ≠ typeKey → name ∉ slots.map (·.field.wireName) →
      entries.get? name = none)
    (isHeld : ∀ slot ∈ slots, ∃ wire, Plain.plain slot.value = .ok wire ∧
      entries.get? slot.field.wireName =
        if Plain.isOmitted slot.field.tag slot.value then none else some wire) :
    compiled.Admits (.ofFields (record.shown entries)) ↔
      registry.Accords record (.record cls.tag (slots.map (·.held))) := by
  have fitted := provided.fitted objects
  have isField (slot) (isSlot : slot ∈ slots) : slot.declared ∈ record.fields :=
    declared ▸ List.mem_map_of_mem isSlot
  have tagged : (record.shown entries).get? typeKey = record.name.map .str := by
    refine FixedRecord.get?_typeKey_shown fun name isName => ?_
    have named : record.name = record.cls.bind fun key =>
        (registry.catalog.get? key).map fun cls => Plain.tagName cls.tag :=
      provided.isTagged objects (by simp [isName]) (by simp [isClass]) _ rfl
    rw [isName, isClass, Option.bind_some, found, Option.map_some] at named
    rw [isTagged, Option.some.inj named]
  have isShown (slot) (isSlot : slot ∈ slots) : ∃ wire, Plain.plain slot.value = .ok wire ∧
      (record.shown entries).get? slot.field.wireName =
        if Plain.isOmitted slot.field.tag slot.value then none else some wire := by
    rw [FixedRecord.get?_shown]
    · exact isHeld slot isSlot
    · intro isTag
      exact (List.nodup_cons.mp distinct).1 (isTag ▸ List.mem_map_of_mem isSlot)
  rw [accords_slots_iff isClass declared]
  constructor
  · intro admits
    -- The record is not gone into as a part would be: its tag may have been taken away.
    have regular := regular_of_fitted fitted
    cases (Compile.means_of_compile compiles regular _).sound admits with
    | fixed _ _ complete _ admitted =>
        simp only [Value.get?_ofFields] at complete admitted
        refine ⟨kept_of_complete agree isShown fun slot isSlot =>
          complete slot.declared (isField slot isSlot), ?_⟩
        exact conforms_of_slots agree isShown
          (fun slot isSlot => admitted slot.declared (isField slot isSlot))
          fun slot isSlot notLacking => attests_of_holds (each slot isSlot notLacking)
            (fitted.of_part (.field (isField slot isSlot)))
  · rintro ⟨kept, conform⟩
    obtain ⟨pass, consistent, renders, targets⟩ := Compile.compile_cases compiles
    rw [Compiled.Admits, targets]
    refine validates_slots (Compile.StandsFor.standing consistent) declared
      (List.nodup_cons.mp distinct).2 agree tagged ?_ isShown (fun slot isSlot notLacking =>
        Compile.conveys_of_holds consistent (each slot isSlot notLacking)) kept conform renders
    intro name notTag notField
    rw [FixedRecord.get?_shown notTag]
    exact others name notTag notField

theorem accords_object_iff (classless : record.cls = none) (entries : Value.Entries) :
    registry.Accords record (.object entries) ↔
      registry.Conforms (.fixed record) (.object entries) := by
  constructor
  · intro accords
    refine .of_parts accords.whole ?_ accords.parts
    rintro ⟨⟩
    next named => exact accords.classed named classless
  · intro conforms
    obtain ⟨whole, tagged⟩ := conforms _ .refl
    exact ⟨fun named => (tagged (.object classless named)).elim, whole,
      fun _ encloses => conforms.of_part encloses⟩

/-- The plain form of an object of the fields of a record without a class is admitted by the schema of
the record exactly if the object accords with the record. -/
theorem admits_object_iff {entries : Value.Entries} {wires : Fields}
    (compiles : compile options registry.structs (.fixed record) = .ok compiled)
    (fitted : (Descriptor.fixed record).Throughout registry.structs registry.Fitted)
    (classless : record.cls = none) (holds : registry.Holds (.fixed record) (.object entries))
    (isPlain : Plain.plain (.object entries) = .ok (.ofFields wires)) :
    compiled.Admits (.ofFields wires) ↔ registry.Accords record (.object entries) := by
  rw [accords_object_iff classless]
  constructor
  · intro admits
    have regular := regular_of_fitted fitted
    exact attests_of_holds holds fitted _ isPlain
      ((Compile.means_of_compile compiles regular _).sound admits)
  · intro conforms
    obtain ⟨pass, consistent, renders, targets⟩ := Compile.compile_cases compiles
    obtain ⟨wire, isWire, admits⟩ := Compile.conveys_of_holds consistent holds
    cases isWire.symm.trans isPlain
    rw [Compiled.Admits, targets]
    exact admits conforms _ renders

/-- What an input record is held as is shown as a plain object, which the schema of the record admits
exactly if what is held accords with the record. -/
theorem exists_shown_of_holds (objects : registry.library.ObjectsToUnderscores)
    (compiles : compile options registry.structs (.fixed record) = .ok compiled)
    (provided : registry.Provided (.fixed record)) (holds : registry.Holds (.fixed record) value) :
    ∃ entries : Fields, Plain.plain value = .ok (.ofFields entries) ∧
      Plain.plain (.ofFields (record.shown entries)) = .ok (.ofFields (record.shown entries)) ∧
      (compiled.Admits (.ofFields (record.shown entries)) ↔ registry.Accords record value) := by
  cases holds with
  | @record _ _ cls slots isRecord isClass found declared fields distinct agree each =>
      cases isRecord
      have settled (slot) (isSlot : slot ∈ slots)
          (notLacking : ¬Field.IsLacking slot.declared slot.value) :=
        (each slot isSlot notLacking).exists_plain
      obtain ⟨entries, isPlain, names, areSettled⟩ := exists_settled_slots cls.tag distinct settled
      obtain ⟨others, areOthers, isTagged, rest, isHeld⟩ := exists_plain_slots cls.tag distinct
        fun slot isSlot notLacking => (settled slot isSlot notLacking).imp fun _ both => both.1
      obtain rfl : entries = others :=
        Value.ofFields_inj.mp (Except.ok.inj (isPlain.symm.trans areOthers))
      exact ⟨entries, isPlain, FixedRecord.plain_shown names areSettled,
        admits_shown_slots_iff objects compiles provided isClass found declared distinct agree each
          isTagged rest isHeld⟩
  | @object _ slots classless declared distinct nullable each =>
      have holds := Holds.object classless declared distinct nullable each
      obtain ⟨wires, isPlain, names, -⟩ := exists_plain_pairs distinct fun slot isSlot notLacking =>
        (each slot isSlot notLacking).exists_plain.imp fun _ settled => settled.1
      obtain ⟨_, isWire, settled⟩ := holds.exists_plain
      cases isWire.symm.trans isPlain
      have untagged : typeKey ∉ wires.map Prod.fst := by
        have free := (List.nodup_cons.mp ((provided.fitted objects).here.names rfl)).1
        rw [FixedRecord.view, declared, List.map_map] at free
        exact names ▸ free
      refine ⟨wires, isPlain, ?_⟩
      rw [FixedRecord.shown_eq_self untagged]
      exact ⟨settled, admits_object_iff compiles (provided.fitted objects) classless holds isPlain⟩

end Registry

namespace Contract

/-- A prompt presents the document of the input's schema and, at its end, a payload: that of the input
values, which are read as a value. -/
structure Presents (contract : Contract) (registry : Registry) (values : Value) (prompt : String)
    (value payload : Value) (compiled : Compiled) : Prop where
  compiles : compile contract.options registry.structs contract.inputs = .ok compiled
  isSchema : contract.inputSchema registry = .ok (compiled.document none)
  isRead : read registry values contract.inputs = .ok value
  isPayload : contract.inputPayload registry values = .ok payload
  shows : ∃ schema json, Prompt.pretty (compiled.document none) = .ok schema ∧
    Prompt.pretty payload = .ok json ∧ Prompt.Shows prompt schema json

/-- The payload that a prompt presents is admitted by the schema that it presents exactly if nothing in
the input values deviates from what the schema asks for. -/
theorem presented_payload_admitted_iff {contract : Contract} {examples : List (Value × Value)}
    {prompt : String} (takesValues : registry.library.TakesValues)
    (objects : registry.library.ObjectsToUnderscores) (isInputs : contract.inputs = .fixed record)
    (provided : registry.Provided (.fixed record))
    (defaults : (Descriptor.fixed record).Throughout registry.structs registry.HoldsDefaults)
    (genuine : registry.Genuine (.fixed record) values)
    (rendered : contract.renderPrompt registry values examples = .ok prompt) :
    ∃ value payload compiled, contract.Presents registry values prompt value payload compiled ∧
      (compiled.Admits payload ↔ registry.Accords record value) ∧
      (contract.options.defsKey ∉ keywordNames →
        (Validates compiled.targets (compiled.document none) payload ↔
          registry.Accords record value)) := by
  obtain ⟨compiled, payload, schema, json, compiles, isPayload, isSchema, isJson, shows⟩ :=
    exists_shown_of_renderPrompt rendered
  obtain ⟨value, isRead⟩ := exists_read_of_inputPayload isInputs isPayload
  have compilesRecord := isInputs ▸ compiles
  have ready : (Descriptor.fixed record).Throughout registry.structs registry.Ready :=
    fun found reaches => ⟨provided.fitted objects found reaches, defaults found reaches⟩
  have holds : registry.Holds (.fixed record) value :=
    isReadHeld takesValues values (.fixed record) [] value ready genuine (isInputs ▸ isRead)
  obtain ⟨entries, isPlain, settled, admits⟩ :=
    Registry.exists_shown_of_holds objects compilesRecord provided holds
  cases isPayload.symm.trans (inputPayload_eq isInputs isRead isPlain)
  -- The payload is plain, so the prompt shows it as it is, though it is made plain once more.
  refine ⟨value, _, compiled, ⟨compiles, ?_, isRead, isPayload, schema, json, isSchema, ?_, shows⟩,
    admits, fun free => ?_⟩
  · rw [inputSchema, compiles]
    rfl
  · rwa [Prompt.prettyPlain, settled] at isJson
  · obtain ⟨pass, -, renders, -⟩ := Compile.compile_cases compilesRecord
    obtain ⟨_, -, isCompiled⟩ := Compile.exists_pass_of_compile compilesRecord
    have sameKey : compiled.defsKey = contract.options.defsKey := by rw [isCompiled]
    simp only [Compile.Renders] at renders
    obtain ⟨fields, -, isNode⟩ := renders
    rw [Compiled.validates_document_iff isNode (sameKey ▸ free)]
    exact admits

/-- A contract that asks for an answer to an input record. -/
def asking (record : FixedRecord) : Contract where
  name := "ask"
  instruction := "Answer the question."
  inputs := .fixed record
  outputs := .fixed ⟨[⟨"answer", .scalar .string, true, none, none⟩], none, none, none⟩
  options := .defaults

end Contract

/-! ## A record whose values are presented -/

def placeFields : List Field := [⟨"name", .scalar .string, true, none, none⟩]

/-- The fields of a form, whose places are those of a struct. -/
def formFields (place : StructId) : List Field :=
  [⟨"question", .scalar .string, true, none, none⟩,
    ⟨"places", .array (.struct place), false, none, none⟩,
    ⟨"score", .scalar .int, false, none, none⟩]

def placesRegistry : Registry :=
  ((Registry.defineStruct "Place" "Place" placeFields none).run .empty).2

/-- The registry after forms are declared besides. -/
def formsRegistry : Registry :=
  ((Registry.defineRecord "Form" none (formFields 0) none).run placesRegistry).2

def formRecord : FixedRecord := ⟨formFields 0, none, some (.declared 1), none⟩

/-- A form as an object. -/
def filledForm : Value :=
  .ofFields [("question", .str "Where is it warm?"),
    ("places", .list [.ofFields [("name", .str "Rome")]]), ("score", .str "5")]

def placeInstance : Value :=
  .record ⟨.declared 0, "Place", [.base]⟩ [(⟨"name", "name", false⟩, .str "Rome")]

/-- What a form as an instance holds. -/
def filledFields : List (FieldTag × Value) :=
  [(⟨"question", "question", false⟩, .str "Where is it warm?"),
    (⟨"places", "places", true⟩, .list [placeInstance]), (⟨"score", "score", true⟩, .int 5)]

def filledInstance : Value :=
  .record ⟨.declared 1, "AnonymousRecord", [.anonymous, .base]⟩ filledFields

theorem provided_formRecord : formsRegistry.Provided (.fixed formRecord) := by
  have place : placesRegistry.Provided (.struct 0) :=
    @Registry.Provided.struct .empty placesRegistry "Place" "Place" placeFields none 0
      (List.forall_mem_singleton.mpr (.scalar _ .string)) (by decide) rfl
  refine @Registry.Provided.record placesRegistry formsRegistry "Form" none (formFields 0) none
    formRecord ?_ (by decide) rfl
  exact List.forall_mem_cons.mpr ⟨.scalar _ .string, List.forall_mem_cons.mpr
    ⟨.array place, List.forall_mem_singleton.mpr (.scalar _ .int)⟩⟩

theorem holdsDefaults_formRecord : (Descriptor.fixed formRecord).Throughout formsRegistry.structs
    formsRegistry.HoldsDefaults := by
  refine @Descriptor.Throughout.of_list _ _ _ [.fixed formRecord, .scalar .string,
    .array (.struct 0), .scalar .int, .struct 0] ?_ ?_ List.mem_cons_self
  · have structs : formsRegistry.structs =
        [⟨"Place", some (.declared 0), placeFields, none⟩] := rfl
    simp [structs, formRecord, formFields, placeFields, Descriptor.parts, Descriptor.fields, Store.at]
  · have undefaulted (fields : List Field) (each : ∀ field ∈ fields, field.default = none)
        (field) (isField : field ∈ fields) (value) (isDefault : field.default = some value)
        (_ : ¬field.IsLacking value) : formsRegistry.Holds field.type value := by
      cases (each field isField).symm.trans isDefault
    simp only [List.forall_mem_cons]
    exact ⟨undefaulted _ (by decide), undefaulted _ (List.forall_mem_nil _),
      undefaulted _ (List.forall_mem_nil _), undefaulted _ (List.forall_mem_nil _),
      undefaulted _ (by decide), List.forall_mem_nil _⟩

theorem isRaw_filledForm : filledForm.IsRaw := by
  have place : (Value.ofFields [("name", .str "Rome")]).IsRaw :=
    Value.isRaw_ofFields (List.forall_mem_singleton.mpr (Value.isRaw_str _))
  have places := Value.isRaw_list (List.forall_mem_singleton.mpr place)
  exact Value.isRaw_ofFields (List.forall_mem_cons.mpr ⟨Value.isRaw_str _,
    List.forall_mem_cons.mpr ⟨places, List.forall_mem_singleton.mpr (Value.isRaw_str _)⟩⟩)

theorem conforms_placeInstance : formsRegistry.Conforms (.struct 0) placeInstance := by
  refine .of_parts ?_ ?_ fun part encloses => ?_
  · rintro ⟨⟩
  · intro mistags
    cases mistags with
    | record isRecord _ _ _ different =>
        cases isRecord
        exact different rfl
  · cases encloses with
    | field isField =>
        cases List.mem_singleton.mp isField
        exact Registry.conforms_of_isLeaf rfl

theorem accords_filledInstance : formsRegistry.Accords formRecord filledInstance := by
  constructor
  · exact fun named => (named rfl).elim
  · rintro ⟨isField, omitted⟩
    have kept : ∀ field ∈ filledFields, Plain.isOmitted field.1 field.2 = false := by decide
    exact Bool.false_ne_true ((kept _ isField).symm.trans omitted)
  · intro part encloses
    cases encloses with
    | field isField =>
        have places : formsRegistry.Conforms (.array (.struct 0)) (.list [placeInstance]) := by
          refine .of_plain_parts rfl fun part encloses => ?_
          cases encloses with
          | item isItem =>
              cases List.mem_singleton.mp isItem
              exact conforms_placeInstance
        have each : ∀ entry ∈ (formFields 0).zip filledFields,
            formsRegistry.Conforms entry.1.type entry.2.2 :=
          List.forall_mem_cons.mpr ⟨Registry.conforms_of_isLeaf rfl,
            List.forall_mem_cons.mpr ⟨places,
              List.forall_mem_singleton.mpr (Registry.conforms_of_isLeaf rfl)⟩⟩
        exact each _ isField

theorem read_filledForm :
    read formsRegistry filledForm (.fixed formRecord) = .ok filledInstance := rfl

set_option maxRecDepth 10000 in
theorem rendered_filledForm : ∃ prompt,
    (Contract.asking formRecord).renderPrompt formsRegistry filledForm [] = .ok prompt := ⟨_, rfl⟩

namespace Contract

/-- The schema of forms admits a form that is filled in. -/
theorem filledForm_presented :
    formsRegistry.library.TakesValues ∧ formsRegistry.library.ObjectsToUnderscores ∧
      formsRegistry.Provided (.fixed formRecord) ∧
      (Descriptor.fixed formRecord).Throughout formsRegistry.structs formsRegistry.HoldsDefaults ∧
      formsRegistry.Genuine (.fixed formRecord) filledForm ∧
      ∃ prompt payload compiled,
        (asking formRecord).renderPrompt formsRegistry filledForm [] = .ok prompt ∧
        (asking formRecord).Presents formsRegistry filledForm prompt filledInstance payload
          compiled ∧ compiled.Admits payload := by
  have takesValues : formsRegistry.library.TakesValues := ClassLibrary.reference_takesValues
  have objects : formsRegistry.library.ObjectsToUnderscores :=
    ClassLibrary.reference_objectsToUnderscores
  have genuine : formsRegistry.Genuine (.fixed formRecord) filledForm := .of_isRaw isRaw_filledForm
  obtain ⟨prompt, rendered⟩ := rendered_filledForm
  obtain ⟨value, payload, compiled, presents, admits, -⟩ :=
    presented_payload_admitted_iff takesValues objects rfl provided_formRecord
      holdsDefaults_formRecord genuine rendered
  cases presents.isRead.symm.trans read_filledForm
  exact ⟨takesValues, objects, provided_formRecord, holdsDefaults_formRecord, genuine, prompt, payload,
    compiled, rendered, presents, admits.mpr accords_filledInstance⟩

end Contract

/-! ## Input records whose values are refused -/

/-- A prompt is rendered for an input record with a payload that the schema of the record refuses. -/
def Misleads (declare : Registry.Action FixedRecord) (values : Value) : Prop :=
  ∃ record registry prompt compiled payload, Yields declare .empty record registry ∧
    (Contract.asking record).renderPrompt registry values [] = .ok prompt ∧
    compile Options.defaults registry.structs (.fixed record) = .ok compiled ∧
    (Contract.asking record).inputPayload registry values = .ok payload ∧ ¬compiled.Admits payload

def textField (name : String) : Field := ⟨name, .scalar .string, true, none, none⟩

def declareForm (field : Field) : Registry.Action FixedRecord :=
  Registry.defineRecord "Form" none [field] none

def classlessRecord (name : Option String) (field : Field) : FixedRecord := ⟨[field], name, none, none⟩

/-- A record that holds a record without a name. -/
def declareNestedForm : Registry.Action FixedRecord := do
  let address ← declareForm (textField "city")
  declareForm ⟨"address", .fixed address, true, none, none⟩

/-- A record that holds a struct without a class. -/
def declareFormOfBareStruct : Registry.Action FixedRecord := do
  let (id, added) := (← getThe Registry).add ⟨"Place", none, [textField "name"], none⟩
  set added
  declareForm ⟨"place", .struct id, true, none, none⟩

/-- A record whose class is extended by another field. -/
def declareDraftedForm : Registry.Action FixedRecord := do
  let record ← declareForm (textField "question")
  let question := ⟨"question", none, .scalar .string, .required, none, .none⟩
  let note := ⟨"note", none, .scalar .string, .required, none, .none⟩
  let _ ← Registry.addClass "Draft" "Draft" none [.declared 0, .anonymous, .base] [question, note]
  return record

theorem misleads_of_refused {declare : Registry.Action FixedRecord} {prompt : String} (payload : Value)
    (declares : Yields declare .empty record registry)
    (regular : (Descriptor.fixed record).Throughout registry.structs
      (Descriptor.Regular registry.structs))
    (rendered : (Contract.asking record).renderPrompt registry values [] = .ok prompt)
    (isPayload : (Contract.asking record).inputPayload registry values = .ok payload)
    (refused : ¬(Descriptor.fixed record).Admits registry.structs payload) :
    Misleads declare values := by
  obtain ⟨compiled, shown, -, -, compiles, isShown, -⟩ :=
    Contract.exists_shown_of_renderPrompt rendered
  cases isShown.symm.trans isPayload
  exact ⟨record, registry, prompt, compiled, _, declares, rendered, compiles, isPayload,
    fun admits => refused ((Compile.means_of_compile compiles regular _).sound admits)⟩

theorem regular_scalar (store : Store) (kind : ScalarKind) :
    (Descriptor.scalar kind).Throughout store (Descriptor.Regular store) := by
  refine .of_parts ⟨List.nodup_nil, by simp⟩ fun part isPart => ?_
  cases isPart with
  | field isField => cases isField

theorem regular_of_single {store : Store} {descriptor : Descriptor} {view : RecordView} {field : Field}
    (isRecord : descriptor.record? store = some view) (single : view.fields = [field])
    (regular : field.type.Throughout store (Descriptor.Regular store)) :
    descriptor.Throughout store (Descriptor.Regular store) := by
  have isSingle : descriptor.fields store = [field] :=
    (Descriptor.fields_of_record? isRecord).symm.trans single
  refine .of_parts ⟨by simp [isSingle], ?_⟩ fun part isPart => ?_
  · rintro type rfl
    cases isRecord
  · cases isPart with
    | field isField =>
        rw [isSingle, List.mem_singleton] at isField
        exact isField ▸ regular
    | _ => cases isRecord

set_option maxRecDepth 10000 in
/-- Payloads are refused in which a field is left out, a record without a name is tagged inside another,
a record with a name is not tagged for want of a class, nor a struct, a default is not of the type of
its field, or an instance is of a class with more fields. -/
theorem payloads_refused :
    Misleads (declareForm ⟨"score", .scalar .int, false, none, none⟩) (.ofFields []) ∧
      Misleads declareNestedForm (.ofFields [("address", .ofFields [("city", .str "Rome")])]) ∧
      Misleads (pure (classlessRecord (some "Form") (textField "question")))
        (.ofFields [("question", .str "Why?")]) ∧
      Misleads declareFormOfBareStruct (.ofFields [("place", .ofFields [("name", .str "Rome")])]) ∧
      Misleads (pure (classlessRecord none ⟨"score", .scalar .int, false, none, some (.str "high")⟩))
        (.ofFields []) ∧
      Misleads declareDraftedForm (.record ⟨.declared 1, "Draft", [.declared 0, .anonymous, .base]⟩
        [(⟨"question", "question", false⟩, .str "Why?"), (⟨"note", "note", false⟩, .str "draft")]) := by
  refine ⟨?_, ?_, ?_, ?_, ?_, ?_⟩
  · refine misleads_of_refused (.ofFields []) rfl
      (regular_of_single rfl rfl (regular_scalar _ _)) rfl rfl ?_
    intro admits
    cases admits with
    | fixed _ _ complete => cases complete _ List.mem_cons_self
  · refine misleads_of_refused (.ofFields [("address", .ofFields
      [(typeKey, .str "AnonymousRecord"), ("city", .str "Rome")])]) rfl
      (regular_of_single rfl rfl (regular_of_single rfl rfl (regular_scalar _ _))) rfl rfl ?_
    intro admits
    cases admits with
    | fixed _ _ _ _ each =>
        cases each _ List.mem_cons_self _ rfl (by simp) with
        | fixed _ _ _ closed =>
            rcases closed typeKey rfl with isField | ⟨-, named⟩
            · exact absurd isField (by decide)
            · cases named
  · refine misleads_of_refused (.ofFields [("question", .str "Why?")]) rfl
      (regular_of_single rfl rfl (regular_scalar _ _)) rfl rfl ?_
    intro admits
    cases admits with
    | fixed _ tagged => cases tagged _ rfl
  · refine misleads_of_refused (.ofFields [("place", .ofFields [("name", .str "Rome")])]) rfl
      (regular_of_single rfl rfl (regular_of_single rfl rfl (regular_scalar _ _))) rfl rfl ?_
    intro admits
    cases admits with
    | fixed _ _ _ _ each =>
        cases each _ List.mem_cons_self _ rfl (by simp) with
        | struct tagged => cases tagged
  · refine misleads_of_refused (.ofFields [("score", .str "high")]) rfl
      (regular_of_single rfl rfl (regular_scalar _ _)) rfl rfl ?_
    intro admits
    cases admits with
    | fixed _ _ _ _ each =>
        cases each _ List.mem_cons_self _ rfl (by simp) with
        | scalar typed => cases typed
  · refine misleads_of_refused (.ofFields [("question", .str "Why?"), ("note", .str "draft")]) rfl
      (regular_of_single rfl rfl (regular_scalar _ _)) rfl rfl ?_
    intro admits
    cases admits with
    | fixed _ _ _ closed =>
        rcases closed "note" rfl with isField | ⟨isTag, -⟩
        · exact absurd isField (by decide)
        · exact absurd isTag (by decide)

end TypedReply
