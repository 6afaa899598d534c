import TypedReply.Proofs.Registry.Retention

/-!
# Declared structs

Structs and named records are declared with a list of fields, whose types are scalars, lists, objects
with text keys, optionals and what was declared before. The class that is built for a declaration
has a field for each of the list; a field that need not be given admits null besides. What was
declared stays so however the registry is used later.
-/

namespace TypedReply

/-! ## Types of fields -/

namespace TypeExpr

/-- The types of declared fields apart from null. -/
inductive IsSingle : TypeExpr → Prop where
  | scalar (kind : ScalarKind) : IsSingle (.scalar kind)
  | list (element : TypeExpr) : IsSingle (.collection .list element)
  | dict (element : TypeExpr) : IsSingle (.dict (.scalar .string) element)
  | record (key : ClassKey) : IsSingle (.record key)
  | bareDict : IsSingle .bareDict

def orNull (expr : TypeExpr) (nullable : Bool) : TypeExpr :=
  if nullable then .union [expr, .none] else expr

theorem optionalOf_orNull {expr : TypeExpr} (single : expr.IsSingle) (nullable : Bool) :
    optionalOf (expr.orNull nullable) = .ok (expr.orNull true) := by
  cases nullable <;> cases single <;> rfl

@[simp]
theorem unresolvedNames_orNull (expr : TypeExpr) (nullable : Bool) :
    (expr.orNull nullable).unresolvedNames = expr.unresolvedNames := by
  cases nullable <;> simp [orNull, unresolvedNames, unresolvedNamesOf]

@[simp]
theorem classKeys_orNull (expr : TypeExpr) (nullable : Bool) :
    (expr.orNull nullable).classKeys = expr.classKeys := by
  cases nullable <;> simp [orNull, classKeys, classKeysOf]

theorem Portable.orNull {catalog : Catalog} {expr : TypeExpr} (portable : expr.Portable catalog)
    (single : expr.IsSingle)
    (tagged : ∀ key cls, expr = .record key → catalog.get? key = some cls →
      Plain.tagName cls.tag = cls.name) (nullable : Bool) :
    (expr.orNull nullable).Portable catalog := by
  cases nullable with
  | false => exact portable
  | true =>
      have others : [expr, .none].filter (!·.isNone) = [expr] := by
        cases single <;> rfl
      have flat (nested) : expr ≠ .union nested := by
        rintro rfl
        cases single
      exact .optional others (by simp [isNone]) portable flat
        fun key cls isRecord found _ => tagged key cls isRecord found

end TypeExpr

/-- A value of a type is one of the type or null. -/
theorem HasType.orNull {library : ClassLibrary} {catalog : Catalog} {expr : TypeExpr} {nullable : Bool}
    {value : Value} (typed : HasType library catalog (expr.orNull nullable) value) (more : Bool) :
    HasType library catalog (expr.orNull (nullable || more)) value := by
  cases nullable with
  | true => exact typed
  | false =>
      cases more with
      | true => exact .member List.mem_cons_self typed
      | false => exact typed

/-! ## Composed descriptors -/

namespace Registry

/-- A descriptor is composed of scalars, lists, objects with text keys, optionals and records, each
with the class that is built for its fields. -/
inductive Composed (registry : Registry) : Descriptor → Prop where
  | scalar (kind : ScalarKind) : Composed registry (.scalar kind)
  | array {element : Descriptor} (composed : Composed registry element) :
      Composed registry (.array element)
  | map {element : Descriptor} (composed : Composed registry element) :
      Composed registry (.map (.scalar .string) element)
  | optional {inner : Descriptor} (composed : Composed registry inner) :
      Composed registry (.optional inner)
  | record {descriptor : Descriptor} {record : RecordView} {key : ClassKey} {cls : RecordClass}
      (isRecord : descriptor.record? registry.structs = some record)
      (placed : ∀ id, descriptor = .struct id → id < registry.structs.length)
      (isClass : record.cls = some key) (known : registry.Knows key)
      (proper : key ≠ .base) (found : registry.catalog.get? key = some cls)
      (tagged : Plain.tagName cls.tag = cls.name)
      (named : record.name = some cls.name)
      (fields : List.Forall₂ (fun field classField =>
        RecordClass.fieldOf registry.structs field = .ok classField) record.fields cls.fields)
      (distinct : (typeKey :: record.fields.map (·.name)).Nodup)
      (each : ∀ field ∈ record.fields, Composed registry field.type) : Composed registry descriptor

variable {registry after : Registry} {descriptor : Descriptor}

/-- The type of the values that a descriptor describes, and whether null is among them besides. -/
structure Annotates (registry : Registry) (descriptor : Descriptor) (expr : TypeExpr)
    (nullable : Bool) : Prop where
  isAnnotated : TypeExpr.ofDescriptor registry.structs descriptor = .ok (expr.orNull nullable)
  single : expr.IsSingle
  portable : expr.Portable registry.catalog
  tagged : ∀ key cls, expr = .record key → registry.catalog.get? key = some cls →
    Plain.tagName cls.tag = cls.name

theorem ofDescriptor_record {record : RecordView} {key : ClassKey}
    (isRecord : descriptor.record? registry.structs = some record) (isClass : record.cls = some key) :
    TypeExpr.ofDescriptor registry.structs descriptor = .ok (.record key) := by
  cases descriptor with
  | fixed fixed =>
      cases isRecord
      simp only [TypeExpr.ofDescriptor]
      rw [show fixed.cls = some key from isClass]
      rfl
  | struct id =>
      cases isRecord
      simp only [TypeExpr.ofDescriptor]
      rw [show (registry.structs.at id).cls = some key from isClass]
      rfl
  | _ => cases isRecord

theorem Composed.exists_annotates (composed : registry.Composed descriptor) :
    ∃ expr nullable, registry.Annotates descriptor expr nullable := by
  induction composed with
  | scalar kind => exact ⟨.scalar kind, false, rfl, .scalar kind, .scalar kind, nofun⟩
  | array _ ih =>
      obtain ⟨expr, nullable, annotates⟩ := ih
      refine ⟨.collection .list (expr.orNull nullable), false, ?_, .list _, .list ?_, nofun⟩
      · rw [TypeExpr.ofDescriptor, annotates.isAnnotated]
        rfl
      · exact annotates.portable.orNull annotates.single annotates.tagged nullable
  | map _ ih =>
      obtain ⟨expr, nullable, annotates⟩ := ih
      refine ⟨.dict (.scalar .string) (expr.orNull nullable), false, ?_, .dict _, .dict ?_, nofun⟩
      · rw [TypeExpr.ofDescriptor, TypeExpr.ofDescriptor, annotates.isAnnotated]
        rfl
      · exact annotates.portable.orNull annotates.single annotates.tagged nullable
  | optional _ ih =>
      obtain ⟨expr, nullable, annotates⟩ := ih
      refine ⟨expr, true, ?_, annotates.single, annotates.portable, annotates.tagged⟩
      rw [TypeExpr.ofDescriptor, annotates.isAnnotated]
      exact TypeExpr.optionalOf_orNull annotates.single nullable
  | @record descriptor record key cls isRecord placed isClass known proper found tagged =>
      refine ⟨.record key, false, ofDescriptor_record isRecord isClass, .record key, .record found, ?_⟩
      intro other otherClass same isFound
      cases same
      cases found.symm.trans isFound
      exact tagged

/-! ## Class fields -/

/-- The field of the class that holds the values of a declared field. -/
def classField (field : Field) (expr : TypeExpr) (nullable : Bool) : ClassField :=
  ⟨field.name, none, expr.orNull (nullable || !field.required),
    if field.required then .required else .default (field.default.getD .null), field.description,
    .none⟩

/-- A declared field is held by the class field of its type; if it need not be given, null is
admitted besides. -/
theorem fieldOf_eq {store : Store} {field : Field} {expr : TypeExpr} {nullable : Bool}
    (isAnnotated : TypeExpr.ofDescriptor store field.type = .ok (expr.orNull nullable))
    (single : expr.IsSingle) :
    RecordClass.fieldOf store field = .ok (classField field expr nullable) := by
  rw [RecordClass.fieldOf, isAnnotated]
  cases required : field.required with
  | true => simp [bind, Except.bind, classField, required]
  | false =>
      simp [bind, Except.bind, classField, required,
        TypeExpr.optionalOf_orNull single nullable]

/-- A class field has the name of the field that it is for. -/
theorem names_of_fieldOf {store : Store} {field : Field} {held : ClassField}
    (isHeld : RecordClass.fieldOf store field = .ok held) :
    held.name = field.name ∧ held.wireName = field.name := by
  obtain ⟨expr, -, isHeld⟩ := bind_eq_ok_iff.mp isHeld
  split at isHeld
  · cases isHeld
    exact ⟨rfl, rfl⟩
  · obtain ⟨_, -, made⟩ := bind_eq_ok_iff.mp isHeld
    cases made
    exact ⟨rfl, rfl⟩

theorem exists_classField_of_fieldOf {field : Field} (composed : registry.Composed field.type)
    {found : ClassField} (isField : RecordClass.fieldOf registry.structs field = .ok found) :
    ∃ expr nullable, registry.Annotates field.type expr nullable ∧
      found = classField field expr nullable := by
  obtain ⟨expr, nullable, annotates⟩ := composed.exists_annotates
  have same := (fieldOf_eq annotates.isAnnotated annotates.single).symm.trans isField
  exact ⟨expr, nullable, annotates, (Except.ok.inj same).symm⟩

theorem Annotates.portable_classField {field : Field} {expr : TypeExpr} {nullable : Bool}
    (annotates : registry.Annotates field.type expr nullable) :
    (classField field expr nullable).type.Portable registry.catalog :=
  annotates.portable.orNull annotates.single annotates.tagged _

/-- The fields of a class are written under the names of the fields that they are for. -/
theorem names_of_aligned {store : Store} {fields : List Field} {held : List ClassField}
    (aligned : List.Forall₂ (fun field classField =>
      RecordClass.fieldOf store field = .ok classField) fields held) :
    fields.map (·.name) = held.map (·.wireName) :=
  map_eq_of_aligned aligned fun _ _ _ isHeld => (names_of_fieldOf isHeld).2.symm

theorem settled_of_composed {fields : List Field}
    (each : ∀ field ∈ fields, registry.Composed field.type) : ∀ field ∈ fields, ∀ held,
      RecordClass.fieldOf registry.structs field = .ok held → held.type.unresolvedNames = [] := by
  intro field isField held isHeld
  obtain ⟨expr, nullable, annotates, rfl⟩ := exists_classField_of_fieldOf (each field isField) isHeld
  exact annotates.portable_classField.unresolvedNames

/-- The classes of composed records are settled. -/
theorem unresolvedNames_of_aligned {fields : List Field} {cls : RecordClass}
    (each : ∀ field ∈ fields, registry.Composed field.type)
    (aligned : List.Forall₂ (fun field classField =>
      RecordClass.fieldOf registry.structs field = .ok classField) fields cls.fields) :
    cls.unresolvedNames = [] := by
  apply TypeExpr.unresolvedNamesOf_eq_nil
  intro expr isType
  obtain ⟨held, isHeld, rfl⟩ := List.mem_map.mp isType
  obtain ⟨field, isField, holds⟩ := exists_left_of_mem aligned isHeld
  exact settled_of_composed each field isField held holds

theorem Composed.retained (composed : registry.Composed descriptor)
    (retains : registry.Retains after) :
    after.Composed descriptor ∧ TypeExpr.ofDescriptor after.structs descriptor =
      TypeExpr.ofDescriptor registry.structs descriptor := by
  induction composed with
  | scalar kind => exact ⟨.scalar kind, rfl⟩
  | array _ ih => exact ⟨.array ih.1, by rw [TypeExpr.ofDescriptor, ih.2, TypeExpr.ofDescriptor]⟩
  | map _ ih =>
      refine ⟨.map ih.1, ?_⟩
      simp only [TypeExpr.ofDescriptor, ih.2]
  | optional _ ih =>
      exact ⟨.optional ih.1, by rw [TypeExpr.ofDescriptor, ih.2, TypeExpr.ofDescriptor]⟩
  | @record descriptor record key cls isRecord placed isClass known proper found tagged named fields
      distinct each ih =>
      have isSame := (retains.record? placed).trans isRecord
      have isFound := retains.settled key cls known found (unresolvedNames_of_aligned each fields)
      have aligned := aligned_of_mem fields fun field isField held isHeld => by
        show RecordClass.fieldOf after.structs field = .ok held
        rw [← isHeld, RecordClass.fieldOf, RecordClass.fieldOf, (ih field isField).2]
      refine ⟨.record isSame ?_ isClass (retains.knows known) proper isFound tagged named
        aligned distinct
        fun field isField => (ih field isField).1, ?_⟩
      · exact fun id isStruct => Nat.lt_of_lt_of_le (placed id isStruct) retains.places
      · rw [ofDescriptor_record isRecord isClass, ofDescriptor_record isSame isClass]

/-! ## Reachable classes -/

theorem Composed.exists_of_mem_classKeys (composed : registry.Composed descriptor) {expr : TypeExpr}
    (isExpr : TypeExpr.ofDescriptor registry.structs descriptor = .ok expr) {key : ClassKey}
    (mentioned : key ∈ expr.classKeys) : ∃ found record, registry.Composed found ∧
      found.record? registry.structs = some record ∧ record.cls = some key := by
  induction composed generalizing expr with
  | scalar kind =>
      cases isExpr
      cases mentioned
  | array composed ih =>
      obtain ⟨element, nullable, annotates⟩ := composed.exists_annotates
      rw [TypeExpr.ofDescriptor, annotates.isAnnotated] at isExpr
      cases isExpr
      exact ih annotates.isAnnotated mentioned
  | map composed ih =>
      obtain ⟨element, nullable, annotates⟩ := composed.exists_annotates
      rw [TypeExpr.ofDescriptor, TypeExpr.ofDescriptor, annotates.isAnnotated] at isExpr
      cases isExpr
      exact ih annotates.isAnnotated mentioned
  | optional composed ih =>
      obtain ⟨inner, nullable, annotates⟩ := composed.exists_annotates
      rw [TypeExpr.ofDescriptor, annotates.isAnnotated] at isExpr
      cases (TypeExpr.optionalOf_orNull annotates.single nullable).symm.trans isExpr
      rw [TypeExpr.classKeys_orNull] at mentioned
      apply ih annotates.isAnnotated
      rwa [TypeExpr.classKeys_orNull]
  | @record descriptor record other cls isRecord placed isClass known proper found tagged named fields
      distinct each =>
      cases (ofDescriptor_record isRecord isClass).symm.trans isExpr
      cases List.mem_singleton.mp mentioned
      exact ⟨descriptor, record, .record isRecord placed isClass known proper found tagged named
        fields distinct each, isRecord, isClass⟩

/-- The class of a composed record. -/
def IsComposed (registry : Registry) (key : ClassKey) : Prop :=
  ∃ descriptor record, registry.Composed descriptor ∧
    descriptor.record? registry.structs = some record ∧ record.cls = some key

/-- The class of a composed record has a field for each of the record, and mentions classes of
composed records only. -/
theorem IsComposed.settled {key : ClassKey} (isComposed : registry.IsComposed key) {cls : RecordClass}
    (found : registry.catalog.get? key = some cls) :
    cls.unresolvedNames = [] ∧ ∀ other ∈ cls.classKeys, registry.IsComposed other := by
  obtain ⟨descriptor, record, composed, isRecord, isClass⟩ := isComposed
  cases composed with
  | record isSame _ isSameClass _ _ isFound _ _ fields _ each =>
      cases isRecord.symm.trans isSame
      cases isClass.symm.trans isSameClass
      cases found.symm.trans isFound
      refine ⟨unresolvedNames_of_aligned each fields, fun other mentioned => ?_⟩
      obtain ⟨expr, isType, mentions⟩ := TypeExpr.mem_classKeysOf mentioned
      obtain ⟨held, isHeld, rfl⟩ := List.mem_map.mp isType
      obtain ⟨field, isField, holds⟩ := exists_left_of_mem fields isHeld
      obtain ⟨expr, nullable, annotates, rfl⟩ :=
        exists_classField_of_fieldOf (each field isField) holds
      apply (each field isField).exists_of_mem_classKeys annotates.isAnnotated
      rw [TypeExpr.classKeys_orNull]
      rwa [classField, TypeExpr.classKeys_orNull] at mentions
  | _ => cases isRecord

theorem IsComposed.undeclared? {key : ClassKey} (isComposed : registry.IsComposed key) :
    registry.catalog.undeclared? key = none := by
  rw [Catalog.undeclared?, List.findSome?_eq_none_iff]
  intro cls isReached
  obtain ⟨found, isKnown, isFound⟩ := @Catalog.exists_get?_of_mem_reach registry.catalog
    registry.IsComposed (fun _ _ known found => (known.settled found).2) _ [key]
    (List.forall_mem_singleton.mpr isComposed) [] (List.forall_mem_nil _) cls isReached
  rw [(isKnown.settled isFound).1]
  rfl

/-! ## Declarations -/

/-- The structs and records that were declared so far, and what is composed of them. -/
inductive Described : Registry → Descriptor → Prop where
  | scalar (registry : Registry) (kind : ScalarKind) : Described registry (.scalar kind)
  | array {registry : Registry} {element : Descriptor} (described : Described registry element) :
      Described registry (.array element)
  | map {registry : Registry} {element : Descriptor} (described : Described registry element) :
      Described registry (.map (.scalar .string) element)
  | optional {registry : Registry} {inner : Descriptor} (described : Described registry inner) :
      Described registry (.optional inner)
  /-- A struct with fields that are described by what was declared before. -/
  | struct {registry after : Registry} {reference name : String} {fields : List Field}
      {description : Option String} {id : StructId}
      (each : ∀ field ∈ fields, Described registry field.type)
      (distinct : (fields.map (·.name)).Nodup)
      (yields : Yields (defineStruct reference name fields description) registry id after) :
      Described after (.struct id)
  /-- A named record with fields that are described by what was declared before. -/
  | record {registry after : Registry} {reference name : String} {fields : List Field}
      {description : Option String} {record : FixedRecord}
      (each : ∀ field ∈ fields, Described registry field.type)
      (distinct : (fields.map (·.name)).Nodup)
      (yields : Yields (defineRecord reference (some name) fields description) registry record
        after) :
      Described after (.fixed record)
  /-- What was declared before the registry was used in any way. -/
  | later {registry after : Registry} {descriptor : Descriptor}
      (described : Described registry descriptor) (used : registry.Use after) :
      Described after descriptor

/-- A class is added if the library does not object to its fields. -/
theorem eq_of_addClass {reference name : String} {doc : Option String} {ancestors : List ClassKey}
    {fields : List ClassField} {key : ClassKey}
    (yields : Yields (addClass reference name doc ancestors fields) registry key after) :
    registry.library.objection? fields = none ∧ key = registry.catalog.nextKey ∧
      after =
        { registry with catalog := ⟨key, name, doc, ancestors, fields⟩ :: registry.catalog }.declare
        reference (.record key) := by
  simp only [addClass, yields_bind, yields_get] at yields
  obtain ⟨_, _, ⟨rfl, rfl⟩, yields⟩ := yields
  split at yields
  · exact (not_yields_throw _ _ yields).elim
  next objection =>
    simp only [yields_bind, yields_set, yields_pure] at yields
    obtain ⟨_, _, rfl, rfl, rfl⟩ := yields
    exact ⟨objection, rfl, rfl⟩

theorem unreserved_of_checkNames {name : String} {fields : List Field} {result : Unit}
    (yields : Yields (checkNames name fields) registry result after) :
    typeKey ∉ fields.map (·.name) ∧ after = registry := by
  rw [checkNames, yields_ite] at yields
  split at yields
  next => cases yields
  next unreserved =>
    refine ⟨fun isName => unreserved ?_, ((yields_pure _ _).mp yields).2⟩
    obtain ⟨field, isField, named⟩ := List.mem_map.mp isName
    exact List.any_eq_true.mpr ⟨field, isField, beq_iff_eq.mpr named⟩

/-- The class of a struct is built, and the struct is entered as the one of its class, and under its
name. -/
theorem exists_built_of_defineStruct {reference name : String} {fields : List Field}
    {description : Option String} {id : StructId}
    (yields : Yields (defineStruct reference name fields description) registry id after) :
    typeKey ∉ fields.map (·.name) ∧ ∃ key between,
      Yields (buildClass reference name fields description [.base]) registry key between ∧
      id = between.structs.length ∧
      after = ((between.add ⟨name, some key, fields, description⟩).2.enterClass key id).enterName name
        id := by
  simp only [defineStruct, yields_bind, yields_get, yields_set, yields_pure] at yields
  obtain ⟨_, _, checked, key, between, built, _, _, ⟨rfl, rfl⟩, _, _, rfl, rfl, rfl⟩ := yields
  obtain ⟨unreserved, rfl⟩ := unreserved_of_checkNames checked
  exact ⟨unreserved, key, _, built, rfl, rfl⟩

/-- The class of a record is built under its name, or, without one, as one that extends the class of
unnamed records. -/
theorem exists_built_of_defineRecord {reference : String} {name : Option String} {fields : List Field}
    {description : Option String} {record : FixedRecord}
    (yields : Yields (defineRecord reference name fields description) registry record after) :
    (name ≠ none → typeKey ∉ fields.map (·.name)) ∧
      ∃ key, record = ⟨fields, name, some key, description⟩ ∧
        Yields (buildClass reference (name.getD anonymousClass.name) fields description
          (name.elim [.anonymous, .base] fun _ => [.base])) registry key after := by
  cases name with
  | none =>
      simp only [defineRecord, yields_bind, yields_pure] at yields
      obtain ⟨key, _, built, rfl, rfl⟩ := yields
      exact ⟨fun named => (named rfl).elim, key, rfl, built⟩
  | some name =>
      simp only [defineRecord, yields_bind, yields_pure] at yields
      obtain ⟨_, _, checked, key, _, built, rfl, rfl⟩ := yields
      obtain ⟨unreserved, rfl⟩ := unreserved_of_checkNames checked
      exact ⟨fun _ => unreserved, key, rfl, built⟩

/-- The class that is built for a declaration has its name and a field for each of its fields, where the
types of the fields are settled. The library does not object to them. -/
theorem exists_class_of_buildClass {reference name : String} {fields : List Field}
    {description : Option String} {ancestors : List ClassKey} {key : ClassKey}
    (distinct : (fields.map (·.name)).Nodup)
    (settled : ∀ field ∈ fields, ∀ held, RecordClass.fieldOf registry.structs field = .ok held →
      held.type.unresolvedNames = [])
    (yields : Yields (buildClass reference name fields description ancestors) registry key after) :
    after.Knows key ∧ ∃ cls, after.catalog.get? key = some cls ∧ cls.tag = ⟨key, name, ancestors⟩ ∧
      (∃ number, key = .declared number) ∧ cls.unresolvedNames = [] ∧
      registry.library.objection? cls.fields = none ∧ List.Forall₂ (fun field classField =>
        RecordClass.fieldOf registry.structs field = .ok classField) fields cls.fields := by
  simp only [buildClass, yields_bind, yields_get, yields_liftOutcome] at yields
  obtain ⟨_, _, ⟨rfl, rfl⟩, held, _, ⟨areHeld, rfl⟩, added⟩ := yields
  have aligned := mapM_eq_ok_iff.mp areHeld
  have areSettled : ∀ classField ∈ held, classField.type.unresolvedNames = [] := by
    intro classField isHeld
    obtain ⟨field, isField, holds⟩ := exists_left_of_mem aligned isHeld
    exact settled field isField classField holds
  have names : fields.map (·.name) = held.map (·.name) :=
    map_eq_of_aligned aligned fun _ _ _ holds => (names_of_fieldOf holds).1.symm
  rw [RecordClass.latest_eq_self (names ▸ distinct)] at added
  obtain ⟨objection, rfl, rfl⟩ := eq_of_addClass added
  have settledClass : TypeExpr.unresolvedNamesOf (held.map (·.type)) = [] :=
    TypeExpr.unresolvedNamesOf_eq_nil (List.forall_mem_map.mpr areSettled)
  refine ⟨?_, _, Catalog.get?_settle (Catalog.get?_cons_self rfl) ?_ _, rfl, ⟨_, rfl⟩, settledClass,
    objection, aligned⟩
  rotate_left
  · exact settledClass
  intro number isNumber
  cases isNumber
  simp [declare]

/-- The class that is built for fields of composed types is tagged by its name. -/
theorem exists_composed_class {reference name : String} {fields : List Field}
    {description : Option String} {key : ClassKey} (distinct : (fields.map (·.name)).Nodup)
    (each : ∀ field ∈ fields, registry.Composed field.type)
    (yields : Yields (buildClass reference name fields description [.base]) registry key after) :
    after.Knows key ∧ key ≠ .base ∧ ∃ cls, after.catalog.get? key = some cls ∧
      Plain.tagName cls.tag = cls.name ∧ cls.name = name ∧ List.Forall₂ (fun field classField =>
        RecordClass.fieldOf registry.structs field = .ok classField) fields cls.fields := by
  obtain ⟨known, cls, found, isTag, ⟨number, rfl⟩, -, -, aligned⟩ :=
    exists_class_of_buildClass distinct (settled_of_composed each) yields
  obtain rfl : cls.name = name := congrArg RecordTag.name isTag
  refine ⟨known, nofun, cls, found, ?_, rfl, aligned⟩
  rw [isTag]
  rfl

/-- A record is composed if the class that was built for its fields is found. -/
theorem Composed.of_class {record : RecordView} (retains : registry.Retains after)
    (isRecord : descriptor.record? after.structs = some record)
    (placed : ∀ id, descriptor = .struct id → id < after.structs.length) {key : ClassKey}
    (isClass : record.cls = some key) (known : after.Knows key) (proper : key ≠ .base)
    {cls : RecordClass}
    (found : after.catalog.get? key = some cls) (tagged : Plain.tagName cls.tag = cls.name)
    (named : record.name = some cls.name)
    (aligned : List.Forall₂ (fun field classField =>
      RecordClass.fieldOf registry.structs field = .ok classField) record.fields cls.fields)
    (distinct : (typeKey :: record.fields.map (·.name)).Nodup)
    (each : ∀ field ∈ record.fields, registry.Composed field.type) : after.Composed descriptor := by
  have retained (field) (isField : field ∈ record.fields) := (each field isField).retained retains
  refine .record isRecord placed isClass known proper found tagged named ?_ distinct
    fun field isField => (retained field isField).1
  exact aligned_of_mem aligned fun field isField held isHeld => by
    rw [← isHeld, RecordClass.fieldOf, RecordClass.fieldOf, (retained field isField).2]

theorem Described.composed (described : Described registry descriptor) :
    registry.Composed descriptor := by
  induction described with
  | scalar registry kind => exact .scalar kind
  | array _ ih => exact .array ih
  | map _ ih => exact .map ih
  | optional _ ih => exact .optional ih
  | @struct registry after reference name fields description id _ distinct yields ih =>
      have retains := (upholds_defineStruct registry reference name fields description registry
        (.refl registry)).of_yields yields
      obtain ⟨unreserved, key, between, built, rfl, rfl⟩ := exists_built_of_defineStruct yields
      obtain ⟨known, proper, cls, isFound, tagged, rfl, aligned⟩ :=
        exists_composed_class distinct ih built
      have isRecord := congrArg (fun struct : Struct => some struct.view)
        (between.at_add ⟨cls.name, some key, fields, description⟩)
      refine .of_class retains isRecord ?_ rfl known proper isFound tagged rfl aligned
        (List.nodup_cons.mpr ⟨unreserved, distinct⟩) ih
      rintro _ ⟨⟩
      simp [add, enterClass, enterName]
  | @record registry after reference name fields description record _ distinct yields ih =>
      have retains := (upholds_defineRecord registry reference (some name) fields description registry
        (.refl registry)).of_yields yields
      obtain ⟨unreserved, key, rfl, built⟩ := exists_built_of_defineRecord yields
      obtain ⟨known, proper, cls, found, tagged, rfl, aligned⟩ :=
        exists_composed_class distinct ih built
      exact .of_class retains rfl (by simp) rfl known proper found tagged rfl aligned
        (List.nodup_cons.mpr ⟨unreserved (Option.some_ne_none _), distinct⟩) ih
  | later _ used ih => exact (ih.retained used.retains).1

end Registry

end TypedReply
