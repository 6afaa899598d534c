import TypedReply.Proofs.Reference.Library
import TypedReply.Proofs.Registry.Declared
import TypedReply.Proofs.Reply.Instances

/-!
# The round trip of declared structs

The class that is built for a declaration admits null wherever a field need not be given, while the
declared field keeps its type. Null that is the default is left out of plain data and comes back as
the default; null that the type admits is written and read; other null would come back as the
default, so an instance is read back unless it holds such.
-/

namespace TypedReply

open Read

/-! ## Instances -/

/-- Whether a field is left out of plain data: null is what its absence means. -/
def FieldOf.leavesOut {δ : Type} (field : FieldOf δ) (value : Value) : Bool :=
  !field.required && (field.default.getD .null).isNull && value.isNull

/-- A value is one of a composed descriptor: scalars are of their kinds, instances exactly of the
classes of their records, and fields hold values of their types, or null that is left out. -/
inductive Holds (registry : Registry) : Descriptor → Value → Prop where
  | scalar {kind : ScalarKind} {value : Value} (admits : kind.Admits value) :
      Holds registry (.scalar kind) value
  | array {element : Descriptor} {items : List Value}
      (each : ∀ item ∈ items, Holds registry element item) :
      Holds registry (.array element) (.list items)
  | map {element : Descriptor} {fields : Fields} (distinct : (fields.map Prod.fst).Nodup)
      (each : ∀ field ∈ fields, Holds registry element field.2) :
      Holds registry (.map (.scalar .string) element) (.ofFields fields)
  | null (inner : Descriptor) : Holds registry (.optional inner) .null
  | present {inner : Descriptor} {value : Value} (holds : Holds registry inner value) :
      Holds registry (.optional inner) value
  | record {descriptor : Descriptor} {record : RecordView} {key : ClassKey} {cls : RecordClass}
      {values : List Value} (isRecord : descriptor.record? registry.structs = some record)
      (isClass : record.cls = some key) (found : registry.catalog.get? key = some cls)
      (complete : values.length = record.fields.length)
      (each : ∀ entry ∈ record.fields.zip values, entry.1.leavesOut entry.2 = false →
        Holds registry entry.1.type entry.2) :
      Holds registry descriptor (.record cls.tag ((cls.fields.map (·.tag)).zip values))

variable {registry : Registry} {descriptor : Descriptor} {value : Value}

open Registry

/-- What holds of the declared fields and their values holds of the class fields and the values. -/
theorem aligned_classFields (property : ClassField → Value → Prop) {fields : List Field}
    {held : List ClassField} (each : ∀ field ∈ fields, registry.Composed field.type)
    (aligned : List.Forall₂ (fun field classField =>
      RecordClass.fieldOf registry.structs field = .ok classField) fields held) {values : List Value}
    (complete : values.length = fields.length)
    (holds : ∀ field value, (field, value) ∈ fields.zip values → ∀ expr nullable,
      registry.Annotates field.type expr nullable →
        property (classField field expr nullable) value) :
    List.Forall₂ property held values := by
  apply (aligned_through aligned (aligned_zip complete.symm)).imp
  rintro classField value ⟨field, isField, isHeld, isEntry⟩
  obtain ⟨expr, nullable, annotates, rfl⟩ := exists_classField_of_fieldOf (each field isField) isHeld
  exact holds field value isEntry expr nullable annotates

/-- What a field holds has the type of the class field: it has the type of the field, or is null that
is left out. -/
theorem hasType_classField {field : Field} {expr : TypeExpr} {nullable : Bool}
    (typed : field.leavesOut value = false → HasType registry.library registry.catalog
      (expr.orNull nullable) value) :
    HasType registry.library registry.catalog (classField field expr nullable).type value := by
  cases isLeftOut : field.leavesOut value with
  | false => exact (typed isLeftOut).orNull _
  | true =>
      obtain ⟨⟨optional, -⟩, isNull⟩ := by simpa [FieldOf.leavesOut] using isLeftOut
      obtain rfl := Value.isNull_iff.mp isNull
      simp only [classField, optional, Bool.not_false, Bool.or_true]
      exact .null (by simp [TypeExpr.isNone])

/-- Values of a descriptor have the type of its values. -/
theorem Holds.hasType (holds : Holds registry descriptor value)
    (composed : registry.Composed descriptor) {expr : TypeExpr}
    (isExpr : TypeExpr.ofDescriptor registry.structs descriptor = .ok expr) :
    HasType registry.library registry.catalog expr value := by
  induction holds generalizing expr with
  | scalar admits =>
      cases isExpr
      exact .scalar admits
  | array _ ih =>
      cases composed with
      | array composed =>
          obtain ⟨element, nullable, annotates⟩ := composed.exists_annotates
          rw [TypeExpr.ofDescriptor, annotates.isAnnotated] at isExpr
          cases isExpr
          exact .list fun item isItem => ih item isItem composed annotates.isAnnotated
      | record isRecord => cases isRecord
  | map distinct _ ih =>
      cases composed with
      | map composed =>
          obtain ⟨element, nullable, annotates⟩ := composed.exists_annotates
          rw [TypeExpr.ofDescriptor, TypeExpr.ofDescriptor, annotates.isAnnotated] at isExpr
          cases isExpr
          exact .dict distinct fun field isField => ih field isField composed annotates.isAnnotated
      | record isRecord => cases isRecord
  | null inner =>
      cases composed with
      | optional composed =>
          obtain ⟨inner, nullable, annotates⟩ := composed.exists_annotates
          rw [TypeExpr.ofDescriptor, annotates.isAnnotated] at isExpr
          cases (TypeExpr.optionalOf_orNull annotates.single nullable).symm.trans isExpr
          exact .null (by simp [TypeExpr.isNone])
      | record isRecord => cases isRecord
  | present _ ih =>
      cases composed with
      | optional composed =>
          obtain ⟨inner, nullable, annotates⟩ := composed.exists_annotates
          rw [TypeExpr.ofDescriptor, annotates.isAnnotated] at isExpr
          cases (TypeExpr.optionalOf_orNull annotates.single nullable).symm.trans isExpr
          have typed := (ih composed annotates.isAnnotated).orNull true
          rwa [Bool.or_true] at typed
      | record isRecord => cases isRecord
  | @record descriptor record key cls values isRecord isClass found complete each ih =>
      cases (ofDescriptor_record isRecord isClass).symm.trans isExpr
      cases composed with
      | record isSame _ isSameClass _ proper isFound _ _ fields _ composed =>
          cases isRecord.symm.trans isSame
          cases isClass.symm.trans isSameClass
          cases found.symm.trans isFound
          have typed := aligned_classFields
            (fun held value => HasType registry.library registry.catalog held.type value)
            composed fields complete fun field value isEntry expr nullable annotates =>
              hasType_classField fun present => ih (field, value) isEntry present
                (composed field (List.of_mem_zip isEntry).1) annotates.isAnnotated
          have allowed := aligned_classFields registry.library.Permits composed fields complete
            fun field value _ expr nullable _ => ClassLibrary.permits_of_unlimited rfl value
          exact .record found (complete.trans fields.length_eq)
            (fun entry isEntry => (List.forall₂_iff_zip.mp typed).2 isEntry)
            (fun entry isEntry => (List.forall₂_iff_zip.mp allowed).2 isEntry) proper
      | _ => cases isRecord

/-! ## Reading -/

theorem FieldOf.leavesOut_iff {field : Field} :
    field.leavesOut value = true ↔ field.required = false ∧ fallback field = .null ∧ value = .null := by
  simp [leavesOut, fallback, Value.isNull_iff, and_assoc]

theorem isOmitted_classField (field : Field) (expr : TypeExpr) (nullable : Bool) (value : Value) :
    Plain.isOmitted (classField field expr nullable).tag value = field.leavesOut value := by
  cases required : field.required <;>
    simp [Plain.isOmitted, ClassField.tag, classField, FieldOf.leavesOut, required,
      Presence.isNullDefault]

theorem Holds.acceptsNull (holds : Holds registry descriptor .null) : acceptsNull descriptor = true := by
  cases holds with
  | scalar admits => cases admits
  | _ => rfl

theorem unwrapped_ne_union (composed : registry.Composed descriptor) (members : List Descriptor) :
    descriptor.unwrapped ≠ .union members := by
  have ne {other : Descriptor} (composed : registry.Composed other) : other ≠ .union members := by
    rintro rfl
    cases composed with
    | record isRecord => cases isRecord
  cases descriptor with
  | optional inner =>
      cases composed with
      | optional composed => exact ne composed
      | record isRecord => cases isRecord
  | _ => exact ne composed

/-- A field that is left out is read as null; a field that is not is read as its value, and not as its
default. -/
theorem readField_of_holds {fields : List Field} (distinct : (fields.map (·.name)).Nodup)
    {field : Field} (isField : field ∈ fields) (composed : registry.Composed field.type)
    {wire : Value} (holds : field.leavesOut value = false → Holds registry field.type value)
    (back : field.leavesOut value = false → ReadsBack registry field.type value wire)
    {entries : Value.Entries}
    (found : entries.get? field.name = if field.leavesOut value then none else some wire)
    (path : Path) : readField registry.structs fields entries
      ((Value.object entries).parts (Read.read registry)) field path = .ok value := by
  unfold readField
  rw [Value.get?_parts, found]
  cases isLeftOut : field.leavesOut value with
  | true =>
      obtain ⟨optional, falls, rfl⟩ := FieldOf.leavesOut_iff.mp isLeftOut
      simp [absentField, optional, falls]
  | false =>
      have undiscriminated : discriminated? (Discrimination.detect registry.structs fields) entries
          field wire = none :=
        discriminated?_eq_none distinct isField entries fun members isUnion =>
          (unwrapped_ne_union composed members isUnion).elim
      have kept : (wire.isNull && !field.required && !acceptsNull field.type) = false := by
        cases isNull : wire.isNull with
        | false => rfl
        | true =>
            obtain rfl := Value.isNull_iff.mp ((back isLeftOut).null.symm.trans isNull)
            simp [(holds isLeftOut).acceptsNull]
      simp only [Bool.false_eq_true, if_false, Option.map_some]
      rw [presentField_eq undiscriminated kept]
      exact (back isLeftOut).reads path

/-- The plain form of an instance carries the name that its record is selected by. -/
theorem Holds.tagged (holds : Holds registry descriptor value)
    (composed : registry.Composed descriptor) {wire : Value}
    (back : ReadsBack registry descriptor value wire) {name : String}
    (isName : descriptor.tag? registry.structs = some name) :
    wire.get? typeKey = some (.str name) := by
  cases holds with
  | record isRecord isClass found =>
      cases composed with
      | record isSame _ isSameClass _ _ isFound tagged named =>
          cases isRecord.symm.trans isSame
          cases isClass.symm.trans isSameClass
          cases found.symm.trans isFound
          rw [Descriptor.tag?, isRecord, Option.bind_some, RecordView.tag?, named,
            Option.filter_eq_some_iff] at isName
          rw [back.tagged _ _ rfl, tagged]
          exact congrArg (some ∘ Value.str) (Option.some.inj isName.1)
      | _ => cases isRecord
  | _ => cases isName

section Instance

variable {record : RecordView} {key : ClassKey} {cls : RecordClass} {values : List Value}
variable (keepsValues : registry.library.KeepsValues)
variable (isRecord : descriptor.record? registry.structs = some record) (proper : key ≠ .base)
variable (isClass : record.cls = some key) (found : registry.catalog.get? key = some cls)
variable (settled : registry.catalog.undeclared? key = none)
variable (aligned : List.Forall₂ (fun field classField =>
  RecordClass.fieldOf registry.structs field = .ok classField) record.fields cls.fields)
variable (distinct : (typeKey :: record.fields.map (·.name)).Nodup)
variable (composed : ∀ field ∈ record.fields, registry.Composed field.type)
variable (complete : values.length = record.fields.length)
variable (each : ∀ entry ∈ record.fields.zip values, entry.1.leavesOut entry.2 = false →
  Holds registry entry.1.type entry.2)

include keepsValues proper found settled aligned distinct composed complete each in
theorem validate_offering_of_holds : registry.library.validate registry.catalog key
    (cls.offering values) = .ok (cls.holding values) := by
  have names := names_of_aligned aligned
  have typed := aligned_classFields
    (fun held value => HasType registry.library registry.catalog held.type value) composed aligned
    complete fun field value isEntry expr nullable annotates => hasType_classField fun present =>
      (each (field, value) isEntry present).hasType (composed field (List.of_mem_zip isEntry).1)
        annotates.isAnnotated
  have permitted := aligned_classFields registry.library.Permits composed aligned complete
    fun field value _ expr nullable _ => ClassLibrary.permits_of_unlimited rfl value
  have portable (held) (isHeld : held ∈ cls.fields) : held.type.Portable registry.catalog := by
    obtain ⟨field, isField, holds⟩ := exists_left_of_mem aligned isHeld
    obtain ⟨expr, nullable, annotates, rfl⟩ :=
      exists_classField_of_fieldOf (composed field isField) holds
    exact annotates.portable_classField
  exact keepsValues proper found settled (names ▸ (List.nodup_cons.mp distinct).2) portable
    (complete.trans aligned.length_eq) (fun entry isEntry => (List.forall₂_iff_zip.mp typed).2 isEntry)
    fun entry isEntry => (List.forall₂_iff_zip.mp permitted).2 isEntry

include keepsValues isRecord isClass proper found settled aligned distinct composed complete each in
/-- An instance is read back if what its fields hold is. -/
theorem exists_readsBack_instance
    (back : ∀ entry ∈ record.fields.zip values, entry.1.leavesOut entry.2 = false →
      registry.Composed entry.1.type → ∃ wire, ReadsBack registry entry.1.type entry.2 wire) :
    ∃ wire, ReadsBack registry descriptor
      (.record cls.tag ((cls.fields.map (·.tag)).zip values)) wire := by
  have completeClass := complete.trans aligned.length_eq
  have names := names_of_aligned aligned
  have part (field) (value) (isEntry : (field, value) ∈ record.fields.zip values) :
      ∃ wire, Plain.plain value = .ok wire ∧
        (field.leavesOut value = false → ReadsBack registry field.type value wire) := by
    cases isLeftOut : field.leavesOut value with
    | true =>
        obtain ⟨-, -, rfl⟩ := FieldOf.leavesOut_iff.mp isLeftOut
        exact ⟨.null, rfl, nofun⟩
    | false =>
        obtain ⟨wire, isBack⟩ := back _ isEntry isLeftOut (composed field (List.of_mem_zip isEntry).1)
        exact ⟨wire, isBack.plain, fun _ => isBack⟩
  have plains := aligned_classFields (fun _ value => ∃ wire, Plain.plain value = .ok wire) composed
    aligned complete fun field value isEntry _ _ _ =>
      (part field value isEntry).imp fun _ isPart => isPart.1
  obtain ⟨entries, isPlain, isTag, held⟩ := exists_plain_instance completeClass (names ▸ distinct)
    fun entry isEntry => (List.forall₂_iff_zip.mp plains).2 isEntry
  refine ⟨.ofFields entries, isPlain, rfl, ?_, fun path => ?_⟩
  · rintro tag fields ⟨⟩
    rw [Value.get?_ofFields, isTag]
  · have through := List.forall₂_iff_zip.mp
      (aligned_through aligned.flip (aligned_zip completeClass.symm))
    have distinctNames := (List.nodup_cons.mp distinct).2
    rw [readAt_eq, read_eq_readRecord isRecord]
    refine readRecord_instance completeClass isClass names (names ▸ distinctNames) ?_
      (validate_offering_of_holds keepsValues proper found settled aligned distinct composed complete
        each)
    rw [List.forall₂_iff_zip]
    refine ⟨complete.symm, fun {field value} isEntry => ?_⟩
    obtain ⟨classField, -, isHeld, isClassEntry⟩ := through.2 isEntry
    obtain ⟨wire, isWire, isBack⟩ := part field value isEntry
    have isField := (List.of_mem_zip isEntry).1
    apply readField_of_holds distinctNames isField (composed field isField) (each _ isEntry) isBack
    obtain ⟨expr, nullable, -, rfl⟩ := exists_classField_of_fieldOf (composed field isField) isHeld
    rw [← isOmitted_classField field expr nullable value]
    exact (Value.get?_entriesOf _ _).trans (held _ isClassEntry wire isWire)

end Instance

/-- A value of a composed descriptor is read back. The induction is on what makes it one, which goes
through all that is inside the value. -/
theorem exists_readsBack_of_holds (keepsValues : registry.library.KeepsValues)
    (holds : Holds registry descriptor value) (composed : registry.Composed descriptor) :
    ∃ wire, ReadsBack registry descriptor value wire := by
  induction holds with
  | scalar admits => exact ReadsBack.exists_of_admits admits
  | array _ ih =>
      cases composed with
      | array composed =>
          obtain ⟨wires, aligned⟩ := exists_aligned fun item isItem => ih item isItem composed
          exact ⟨.list wires, .array aligned⟩
      | record isRecord => cases isRecord
  | @map element fields distinct _ ih =>
      cases composed with
      | map composed =>
          have named (field) (isField : field ∈ fields) : ∃ wire : String × Value,
              field.1 = wire.1 ∧ ReadsBack registry element field.2 wire.2 := by
            obtain ⟨wire, back⟩ := ih field isField composed
            exact ⟨(field.1, wire), rfl, back⟩
          obtain ⟨wires, aligned⟩ := exists_aligned named
          exact ⟨.ofFields wires, .map distinct aligned⟩
      | record isRecord => cases isRecord
  | null inner => exact ⟨.null, .null_optional⟩
  | present holds ih =>
      cases composed with
      | optional composed =>
          obtain ⟨wire, back⟩ := ih composed
          exact ⟨wire, back.optional_of_tagged fun _ name => holds.tagged composed back⟩
      | record isRecord => cases isRecord
  | @record descriptor record key cls values isRecord isClass found complete each ih =>
      have isComposed : registry.IsComposed key := ⟨descriptor, record, composed, isRecord, isClass⟩
      cases composed with
      | record isSame _ isSameClass _ proper isFound _ _ aligned distinct composed =>
          cases isRecord.symm.trans isSame
          cases isClass.symm.trans isSameClass
          cases found.symm.trans isFound
          exact exists_readsBack_instance keepsValues isRecord proper isClass found
            isComposed.undeclared? aligned distinct composed complete each ih
      | _ => cases isRecord

/-! ## Round trips -/

/-- Values of declared structs and named records, and what is composed of them, are read back from
their plain forms, however the registry was used since. -/
theorem exists_read_of_described (keepsValues : registry.library.KeepsValues)
    (described : registry.Described descriptor)
    (holds : Holds registry descriptor value) :
    ∃ wire, Plain.plain value = .ok wire ∧ read registry wire descriptor = .ok value := by
  obtain ⟨wire, back⟩ := exists_readsBack_of_holds keepsValues holds described.composed
  exact ⟨wire, back.plain, back.reads []⟩

/-! ### Boxes of parts -/

/-- The fields of a part, which need not have a weight. -/
def partFields : List Field :=
  [⟨"label", .scalar .string, true, none, none⟩, ⟨"weight", .scalar .float, false, none, none⟩]

/-- The class that is built for parts. -/
def partClass : RecordClass :=
  ⟨.declared 0, "Part", none, [.base], [⟨"label", none, .scalar .string, .required, none, .none⟩,
    ⟨"weight", none, .union [.scalar .float, .none], .default .null, none, .none⟩]⟩

/-- The fields of a box of parts, which holds five if nothing else is said. -/
def boxFields : List Field :=
  [⟨"parts", .map (.scalar .string) (.array (.struct 0)), true, none, none⟩,
    ⟨"limit", .optional (.scalar .int), false, none, some (.int 5)⟩]

/-- The class that is built for boxes. -/
def boxClass : RecordClass :=
  ⟨.declared 1, "Box", none, [.base],
    [⟨"parts", none, .dict (.scalar .string) (.collection .list (.record (.declared 0))), .required,
        none, .none⟩,
      ⟨"limit", none, .union [.scalar .int, .none], .default (.int 5), none, .none⟩]⟩

def declareParts : Action StructId := defineStruct "Part" "Part" partFields none

def declareBoxes : Action StructId := defineStruct "Box" "Box" boxFields none

def partRegistry : Registry := (declareParts.run Registry.empty).2

/-- A registry in which parts and boxes are declared. -/
def boxRegistry : Registry := (declareBoxes.run partRegistry).2

theorem boxes_described : boxRegistry.Described (.struct 1) := by
  have parts : partRegistry.Described (.struct 0) := by
    refine @Described.struct Registry.empty _ "Part" "Part" partFields none 0 ?_ (by decide) rfl
    simp only [partFields, List.forall_mem_cons]
    exact ⟨.scalar _ _, .scalar _ _, List.forall_mem_nil _⟩
  refine @Described.struct partRegistry _ "Box" "Box" boxFields none 1 ?_ (by decide) rfl
  simp only [boxFields, List.forall_mem_cons]
  exact ⟨.map (.array parts), .optional (.scalar _ _), List.forall_mem_nil _⟩

def lightPart : Value :=
  .record partClass.tag ((partClass.fields.map (·.tag)).zip [.str "bolt", .null])

/-- A box without a limit, in which there is a part. -/
def openBox : Value :=
  .record boxClass.tag ((boxClass.fields.map (·.tag)).zip
    [.ofFields [("left", .list [lightPart])], .null])

theorem openBox_holds : Holds boxRegistry (.struct 1) openBox := by
  have part : Holds boxRegistry (.struct 0) lightPart := by
    refine @Holds.record _ _ ⟨"Part", some "Part", some (.declared 0), partFields⟩ (.declared 0)
      partClass _ rfl rfl rfl rfl ?_
    simp only [partFields, List.zip_cons_cons, List.zip_nil_left, List.forall_mem_cons]
    exact ⟨fun _ => .scalar (.string _), fun present => absurd present (by decide),
      List.forall_mem_nil _⟩
  have parts : Holds boxRegistry (.map (.scalar .string) (.array (.struct 0)))
      (.ofFields [("left", .list [lightPart])]) :=
    .map (by decide) (List.forall_mem_singleton.mpr (.array (List.forall_mem_singleton.mpr part)))
  refine @Holds.record _ _ ⟨"Box", some "Box", some (.declared 1), boxFields⟩ (.declared 1)
    boxClass _ rfl rfl rfl rfl ?_
  simp only [boxFields, List.zip_cons_cons, List.zip_nil_left, List.forall_mem_cons]
  exact ⟨fun _ => parts, fun _ => .null _, List.forall_mem_nil _⟩

/-- A box without a limit keeps that it has none, though the default is a limit of five. -/
theorem openBox_read :
    boxRegistry.library.KeepsValues ∧ boxRegistry.Described (.struct 1) ∧
      Holds boxRegistry (.struct 1) openBox ∧
      ∃ wire, Plain.plain openBox = .ok wire ∧ read boxRegistry wire (.struct 1) = .ok openBox := by
  have keepsValues : boxRegistry.library.KeepsValues :=
    ClassLibrary.reference_takesValues.keepsValues
  exact ⟨keepsValues, boxes_described, openBox_holds,
    exists_read_of_described keepsValues boxes_described openBox_holds⟩

/-! ### Instances that are lost -/

/-- The class of a declared struct makes an instance of what is given that is not read back. -/
def Registry.Loses (declare : Action StructId) (given : Value) : Prop :=
  ∃ id after key made, Yields declare Registry.empty id after ∧
    (after.structs.at id).cls = some key ∧ after.library.validate after.catalog key given = .ok made ∧
    ¬∃ wire, Plain.plain made = .ok wire ∧ read after wire (.struct id) = .ok made

def declareKnob (fields : List Field) : Action StructId := defineStruct "Knob" "Knob" fields none

/-- A struct is declared, and a class that extends its class. -/
def declareExtended : Action StructId := do
  let id ← declareKnob []
  let _ ← addClass "Dial" "Dial" none [.declared 0, .base] []
  return id

theorem Registry.loses_of_illegible {t : DateTime} (illegible : ¬t.IsLegible) :
    Registry.Loses (declareKnob [⟨"start", .scalar .datetime, true, none, none⟩])
      (.ofFields [("start", .datetime t)]) := by
  refine ⟨0, _, .declared 0, _, rfl, rfl, rfl, ?_⟩
  rintro ⟨wire, isPlain, reads⟩
  cases isPlain
  have coerced := coerceScalar_dateTimeText t
  -- The text is made opaque, so that nothing below evaluates it.
  revert coerced reads
  generalize String.ofList (Iso.dateTimeText 'T' t) = text
  intro reads coerced
  rw [read, readAt_record rfl, bind_eq_ok_iff] at reads
  obtain ⟨values, areValues, isInstance⟩ := reads
  rw [fieldValues_eq_ok_iff] at areValues
  obtain ⟨_, _, ⟨value, isValue, rfl⟩, rest, rfl⟩ := List.forall₂_cons_left_iff.mp areValues
  obtain rfl := List.forall₂_nil_left_iff.mp rest
  obtain rfl : .datetime t.asRead = value := Except.ok.inj ((coerced _).symm.trans isValue)
  injection isInstance with same
  injection same with _ same
  injection same with same
  injection same with _ same
  injection same with same
  exact illegible (t.asRead_eq_self_iff.mp same)

/-- Lost are null in a field whose type excludes it and whose default is something else, fields of one
name with different types, what is an instance of a class that extends the class of the struct, and
moments at illegible offsets. -/
theorem declared_instances_lost :
    Registry.Loses (declareKnob [⟨"level", .scalar .int, false, none, some (.int 5)⟩])
      (.ofFields [("level", .null)]) ∧
    Registry.Loses (declareKnob [⟨"level", .scalar .int, true, none, none⟩,
        ⟨"level", .scalar .string, true, none, none⟩]) (.ofFields [("level", .str "high")]) ∧
    Registry.Loses declareExtended (.record ⟨.declared 1, "Dial", [.declared 0, .base]⟩ []) ∧
    Registry.Loses (declareKnob [⟨"start", .scalar .datetime, true, none, none⟩])
      (.ofFields [("start",
        .datetime ⟨⟨2024, 1, 1, by decide⟩, .midnight, some ⟨1, by decide⟩⟩)]) := by
  refine ⟨⟨0, _, .declared 0, _, rfl, rfl, rfl, ?_⟩, ⟨0, _, .declared 0, _, rfl, rfl, rfl, ?_⟩,
    ⟨0, _, .declared 0, _, rfl, rfl, rfl, ?_⟩, Registry.loses_of_illegible ?_⟩
  · rintro ⟨wire, isPlain, reads⟩
    cases isPlain
    cases reads
  · rintro ⟨wire, isPlain, reads⟩
    cases isPlain
    cases reads
  · rintro ⟨wire, isPlain, reads⟩
    cases isPlain
    cases reads
  · intro legible
    have whole := legible _ rfl
    simp [Offset.IsLegible] at whole

end TypedReply
