import TypedReply.Proofs.Record.Taking
import TypedReply.Proofs.Registry.Fitted
import TypedReply.Proofs.Registry.History

/-!
# Provided descriptors

Inputs are described by scalars, lists, objects with text keys, optionals and records: structs and
records that are declared, with a name or without, structs that are derived of classes, which may lead
to one another in cycles, and records without a class. All of them are fitted to the registry in which
they came about, and to whatever becomes of it.
-/

namespace TypedReply

variable {registry after : Registry} {declared keys : List ClassKey} {descriptor : Descriptor}

/-! ## Ordinary classes -/

namespace TypeExpr

/-- The types of scalars, lists, objects with text keys and classes, and of one of these and null. -/
inductive IsOrdinary : TypeExpr → Prop where
  | scalar (kind : ScalarKind) : IsOrdinary (.scalar kind)
  | list {element : TypeExpr} (ordinary : IsOrdinary element) : IsOrdinary (.collection .list element)
  | dict {element : TypeExpr} (ordinary : IsOrdinary element) :
      IsOrdinary (.dict (.scalar .string) element)
  | record (key : ClassKey) : IsOrdinary (.record key)
  | optional {members : List TypeExpr} {inner : TypeExpr}
      (others : members.filter (!·.isNone) = [inner]) (nullable : members.any isNone = true)
      (ordinary : IsOrdinary inner) : IsOrdinary (.union members)

namespace IsOrdinary

variable {expr : TypeExpr}

theorem unresolvedNames (ordinary : expr.IsOrdinary) : expr.unresolvedNames = [] := by
  induction ordinary with
  | list _ ih => exact ih
  | dict _ ih => exact ih
  | optional others _ _ ih =>
      refine unresolvedNamesOf_eq_nil fun member isMember => ?_
      rcases eq_none_or_mem_others isMember with rfl | isOther
      · rfl
      · rw [others, List.mem_singleton] at isOther
        rwa [isOther]
  | _ => rfl

theorem exists_mirrored_of_optional {members : List TypeExpr} {inner : TypeExpr}
    (others : members.filter (!·.isNone) = [inner]) (nullable : members.any isNone = true)
    (mirrored : (TypeExpr.union members).MirroredBy registry descriptor) :
    ∃ described, inner.MirroredBy registry described ∧ descriptor = .optional described := by
  simp only [MirroredBy, mirroredByEach_iff, others, nullable] at mirrored
  obtain ⟨described, aligned, rfl⟩ := mirrored
  cases aligned with
  | cons isMirrored rest =>
      cases rest
      exact ⟨_, isMirrored, rfl⟩

/-- An ordinary type suits what mirrors it. -/
theorem suits (ordinary : expr.IsOrdinary) (mirrored : expr.MirroredBy registry descriptor)
    (own : ∀ key id, registry.structOf? key = some id → (registry.structs.at id).cls = some key) :
    expr.Suits registry.structs descriptor := by
  induction ordinary generalizing descriptor with
  | scalar kind =>
      simp only [MirroredBy] at mirrored
      exact mirrored ▸ .scalar kind
  | list _ ih =>
      simp only [MirroredBy] at mirrored
      obtain ⟨inner, isMirrored, rfl⟩ := mirrored
      exact .list (ih isMirrored)
  | dict _ ih =>
      simp only [MirroredBy] at mirrored
      obtain ⟨_, inner, rfl, isMirrored, rfl⟩ := mirrored
      exact .dict (ih isMirrored)
  | record key =>
      simp only [MirroredBy] at mirrored
      obtain ⟨id, entered, rfl⟩ := mirrored
      exact .record rfl (own key id entered)
  | optional others nullable _ ih =>
      obtain ⟨inner, isMirrored, rfl⟩ := exists_mirrored_of_optional others nullable mirrored
      exact .optional others nullable (ih isMirrored)

end IsOrdinary

end TypeExpr

/-- A class of fields of ordinary types, which go by different names other than that of the tag, and
whose defaults can be made. -/
structure RecordClass.IsOrdinary (cls : RecordClass) : Prop where
  types : ∀ field ∈ cls.fields, field.type.IsOrdinary
  names : (typeKey :: cls.fields.map (·.wireName)).Nodup
  defaults : ∀ field ∈ cls.fields, field.presence ≠ .made .failing

theorem RecordClass.IsOrdinary.unresolvedNames {cls : RecordClass} (ordinary : cls.IsOrdinary) :
    cls.unresolvedNames = [] :=
  TypeExpr.unresolvedNamesOf_eq_nil (List.forall_mem_map.mpr fun field isField =>
    (ordinary.types field isField).unresolvedNames)

/-- Ordinary classes that mention one another and no others. -/
def Catalog.IsOrdinary (catalog : Catalog) (keys : List ClassKey) : Prop :=
  ∀ key ∈ keys, ∃ cls, catalog.get? key = some cls ∧ cls.IsOrdinary ∧
    ∀ other ∈ cls.classKeys, other ∈ keys

theorem Catalog.IsOrdinary.isFamily {catalog : Catalog} (ordinary : catalog.IsOrdinary keys) :
    catalog.IsFamily keys := by
  constructor
  intro key isKey
  obtain ⟨cls, found, isOrdinary, mentions⟩ := ordinary key isKey
  exact ⟨cls, found, isOrdinary.unresolvedNames, mentions, isOrdinary.defaults⟩

namespace Registry

/-- What a descriptor describes is of an ordinary type, which mentions some classes only. -/
def Outlines (registry : Registry) (keys : List ClassKey) (descriptor : Descriptor) : Prop :=
  ∃ expr : TypeExpr, expr.IsOrdinary ∧ (∀ key ∈ expr.classKeys, key ∈ keys) ∧
    expr.MirroredBy registry descriptor

section Mirrored

variable (mirrors : registry.MirrorsExcept declared) (ordinary : registry.catalog.IsOrdinary keys)
variable (derived : ∀ key ∈ keys, key ∉ declared)
include mirrors ordinary derived

theorem Outlines.of_part {part : Descriptor} (outlines : registry.Outlines keys descriptor)
    (isPart : Descriptor.Part registry.structs descriptor part) : registry.Outlines keys part := by
  obtain ⟨expr, isOrdinary, mentions, mirrored⟩ := outlines
  cases isOrdinary with
  | scalar =>
      simp only [TypeExpr.MirroredBy] at mirrored
      subst mirrored
      cases isPart with
      | field isField => cases isField
  | list isElement =>
      simp only [TypeExpr.MirroredBy] at mirrored
      obtain ⟨inner, mirrored, rfl⟩ := mirrored
      cases isPart with
      | element => exact ⟨_, isElement, mentions, mirrored⟩
      | field isField => cases isField
  | dict isElement =>
      simp only [TypeExpr.MirroredBy] at mirrored
      obtain ⟨_, inner, rfl, mirrored, rfl⟩ := mirrored
      cases isPart with
      | key =>
          refine ⟨.scalar .string, .scalar _, List.forall_mem_nil _, ?_⟩
          simp only [TypeExpr.MirroredBy]
      | value => exact ⟨_, isElement, mentions, mirrored⟩
      | field isField => cases isField
  | record key =>
      simp only [TypeExpr.MirroredBy] at mirrored
      obtain ⟨id, entered, rfl⟩ := mirrored
      cases isPart with
      | field isField =>
          obtain ⟨cls, fields, -, -, isClass, others, isStruct, aligned⟩ :=
            mirrors.exists_mirrored ordinary derived (mentions key (List.mem_singleton_self key))
              entered
          rw [Descriptor.fields, isStruct] at isField
          obtain ⟨field, isClassField, mirrored⟩ := exists_left_of_mem aligned isField
          refine ⟨field.type, isClass.types field isClassField, fun other mentioned => ?_,
            mirrored.type⟩
          exact others other
            (TypeExpr.mem_classKeysOf_of_mem (List.mem_map_of_mem isClassField) mentioned)
  | @optional members inner others nullable isInner =>
      obtain ⟨described, isMirrored, rfl⟩ :=
        TypeExpr.IsOrdinary.exists_mirrored_of_optional others nullable mirrored
      have isMember : inner ∈ members :=
        List.mem_of_mem_filter (others ▸ List.mem_singleton_self inner)
      cases isPart with
      | inner =>
          exact ⟨inner, isInner,
            fun key mentioned => mentions key (TypeExpr.mem_classKeysOf_of_mem isMember mentioned),
            isMirrored⟩
      | field isField => cases isField

theorem Outlines.fitted (outlines : registry.Outlines keys descriptor) :
    registry.Fitted descriptor := by
  obtain ⟨expr, isOrdinary, mentions, mirrored⟩ := outlines
  have own (key : ClassKey) (id : StructId) (entered : registry.structOf? key = some id) :
      (registry.structs.at id).cls = some key := (mirrors.own key id).mp entered
  cases isOrdinary with
  | scalar kind =>
      simp only [TypeExpr.MirroredBy] at mirrored
      exact mirrored ▸ .scalar kind
  | list =>
      simp only [TypeExpr.MirroredBy] at mirrored
      obtain ⟨inner, -, rfl⟩ := mirrored
      exact .array inner
  | dict =>
      simp only [TypeExpr.MirroredBy] at mirrored
      obtain ⟨_, inner, rfl, -, rfl⟩ := mirrored
      exact .map inner
  | optional others nullable =>
      obtain ⟨inner, -, rfl⟩ :=
        TypeExpr.IsOrdinary.exists_mirrored_of_optional others nullable mirrored
      exact .optional inner
  | record key =>
      simp only [TypeExpr.MirroredBy] at mirrored
      obtain ⟨id, entered, rfl⟩ := mirrored
      obtain ⟨cls, fields, found, rfl, isClass, -, isStruct, aligned⟩ :=
        mirrors.exists_mirrored ordinary derived (mentions key (List.mem_singleton_self key)) entered
      refine .record rfl ?_ (own cls.key id entered) (mirrors.known cls.key id entered) found
        isClass.unresolvedNames isClass.names ?_
      · rintro _ ⟨⟩
        exact lt_of_cls (own cls.key id entered)
      · rw [isStruct]
        refine aligned_of_mem aligned fun field isField declaredField mirrored => ?_
        refine ⟨mirrored.isDeclared.name, fun required => ?_,
          .inl ((isClass.types field isField).suits mirrored.type own)⟩
        rw [mirrored.isDeclared.required] at required
        cases presence : field.presence with
        | required => rfl
        | _ => rw [presence] at required; cases required

end Mirrored

/-! ## Provided descriptors -/

/-- The descriptors that the inputs of a registry are made of. -/
inductive Provided : Registry → Descriptor → Prop where
  | scalar (registry : Registry) (kind : ScalarKind) : Provided registry (.scalar kind)
  | array {registry : Registry} {element : Descriptor} (provided : Provided registry element) :
      Provided registry (.array element)
  | map {registry : Registry} {element : Descriptor} (provided : Provided registry element) :
      Provided registry (.map (.scalar .string) element)
  | optional {registry : Registry} {inner : Descriptor} (provided : Provided registry inner) :
      Provided registry (.optional inner)
  /-- A record without a class. -/
  | object {registry : Registry} {record : FixedRecord} (classless : record.cls = none)
      (each : ∀ field ∈ record.fields, Provided registry field.type)
      (names : (typeKey :: record.fields.map (·.name)).Nodup) : Provided registry (.fixed record)
  /-- A record with fields that were provided before. -/
  | record {registry after : Registry} {reference : String} {name : Option String}
      {fields : List Field} {description : Option String} {record : FixedRecord}
      (each : ∀ field ∈ fields, Provided registry field.type)
      (distinct : (fields.map (·.name)).Nodup)
      (yields : Yields (defineRecord reference name fields description) registry record after) :
      Provided after (.fixed record)
  /-- A struct with fields that were provided before. -/
  | struct {registry after : Registry} {reference name : String} {fields : List Field}
      {description : Option String} {id : StructId}
      (each : ∀ field ∈ fields, Provided registry field.type)
      (distinct : (fields.map (·.name)).Nodup)
      (yields : Yields (defineStruct reference name fields description) registry id after) :
      Provided after (.struct id)
  /-- The struct that is derived of one of some ordinary classes. -/
  | derived {registry after : Registry} {declared keys : List ClassKey} {key : ClassKey}
      {id : StructId} (reached : Reached registry declared)
      (ordinary : registry.catalog.IsOrdinary keys) (derived : ∀ key ∈ keys, key ∉ declared)
      (isKey : key ∈ keys) (yields : Yields (fromClass key) registry id after) :
      Provided after (.struct id)
  /-- What was provided before the registry was used in any way. -/
  | later {registry after : Registry} {descriptor : Descriptor}
      (provided : Provided registry descriptor) (used : registry.Use after) :
      Provided after descriptor

/-- A record is fitted if the class that was built for its fields is found. -/
theorem fitted_of_class {record : RecordView} (retains : registry.Retains after)
    (isRecord : descriptor.record? after.structs = some record)
    (placed : ∀ id, descriptor = .struct id → id < after.structs.length) {cls : RecordClass}
    (isClass : record.cls = some cls.key) (known : after.Knows cls.key)
    (found : after.catalog.get? cls.key = some cls) (settled : cls.unresolvedNames = [])
    (names : (typeKey :: record.fields.map (·.name)).Nodup)
    (aligned : List.Forall₂ (fun field classField =>
      RecordClass.fieldOf registry.structs field = .ok classField) record.fields cls.fields)
    (each : ∀ field ∈ record.fields, field.type.Throughout registry.structs registry.Fitted) :
    descriptor.Throughout after.structs after.Fitted := by
  have isFields := Descriptor.fields_of_record? isRecord
  apply Descriptor.Throughout.of_parts
  · refine .record isRecord placed isClass known found settled (names_of_aligned aligned ▸ names) ?_
    refine (aligned_of_mem aligned fun field isField held isHeld => ?_).flip
    exact retains.fieldSuits (suits_of_fieldOf (each field isField) isHeld).1 (each field isField)
  · intro part isPart
    cases isPart with
    | field isField => exact retains.fitted (each _ (isFields ▸ isField))
    | _ => cases isRecord

theorem settled_of_fitted {fields : List Field}
    (each : ∀ field ∈ fields, field.type.Throughout registry.structs registry.Fitted) :
    ∀ field ∈ fields, ∀ held, RecordClass.fieldOf registry.structs field = .ok held →
      held.type.unresolvedNames = [] :=
  fun field isField _ isHeld => (suits_of_fieldOf (each field isField) isHeld).2

theorem fitted_of_defineStruct {reference name : String} {fields : List Field}
    {description : Option String} {id : StructId} (distinct : (fields.map (·.name)).Nodup)
    (each : ∀ field ∈ fields, field.type.Throughout registry.structs registry.Fitted)
    (yields : Yields (defineStruct reference name fields description) registry id after) :
    (Descriptor.struct id).Throughout after.structs after.Fitted := by
  have retains := (upholds_defineStruct registry reference name fields description registry
    (.refl registry)).of_yields yields
  obtain ⟨unreserved, key, between, built, rfl, rfl⟩ := exists_built_of_defineStruct yields
  obtain ⟨known, cls, found, isTag, -, settled, -, aligned⟩ :=
    exists_class_of_buildClass distinct (settled_of_fitted each) built
  obtain rfl : cls.key = key := congrArg RecordTag.key isTag
  have isRecord := congrArg (fun struct : Struct => some struct.view)
    (between.at_add ⟨name, some cls.key, fields, description⟩)
  refine fitted_of_class retains isRecord ?_ rfl known found settled
    (List.nodup_cons.mpr ⟨unreserved, distinct⟩) aligned each
  rintro _ ⟨⟩
  simp [add, enterClass, enterName]

/-- The class of a record has a field for each of the record, none of them named like the tag, and,
if the record has a name, is tagged by it. -/
theorem exists_class_of_defineRecord (objects : registry.library.ObjectsToUnderscores)
    {reference : String} {name : Option String} {fields : List Field} {description : Option String}
    {record : FixedRecord} (distinct : (fields.map (·.name)).Nodup)
    (settled : ∀ field ∈ fields, ∀ held, RecordClass.fieldOf registry.structs field = .ok held →
      held.type.unresolvedNames = [])
    (yields : Yields (defineRecord reference name fields description) registry record after) :
    ∃ cls, record = ⟨fields, name, some cls.key, description⟩ ∧ after.Knows cls.key ∧
      after.catalog.get? cls.key = some cls ∧ cls.unresolvedNames = [] ∧
      (typeKey :: fields.map (·.name)).Nodup ∧
      List.Forall₂ (fun field classField =>
        RecordClass.fieldOf registry.structs field = .ok classField) fields cls.fields ∧
      ∀ given, name = some given → Plain.tagName cls.tag = given := by
  obtain ⟨-, key, rfl, built⟩ := exists_built_of_defineRecord yields
  obtain ⟨known, cls, found, isTag, ⟨number, isKey⟩, isSettled, objection, aligned⟩ :=
    exists_class_of_buildClass distinct settled built
  obtain rfl : cls.key = key := congrArg RecordTag.key isTag
  have unreserved : typeKey ∉ fields.map (·.name) := by
    intro isName
    obtain ⟨field, isField, named⟩ := List.mem_map.mp isName
    obtain ⟨held, isHeld, holds⟩ := exists_right_of_mem aligned isField
    refine objects isHeld ?_ objection
    rw [(names_of_fieldOf holds).1, named]
    rfl
  refine ⟨cls, rfl, known, found, isSettled, List.nodup_cons.mpr ⟨unreserved, distinct⟩, aligned, ?_⟩
  rintro given rfl
  rw [isTag, isKey]
  rfl

theorem fitted_of_defineRecord (objects : registry.library.ObjectsToUnderscores) {reference : String}
    {name : Option String} {fields : List Field} {description : Option String} {record : FixedRecord}
    (distinct : (fields.map (·.name)).Nodup)
    (each : ∀ field ∈ fields, field.type.Throughout registry.structs registry.Fitted)
    (yields : Yields (defineRecord reference name fields description) registry record after) :
    (Descriptor.fixed record).Throughout after.structs after.Fitted := by
  have retains := (upholds_defineRecord registry reference name fields description registry
    (.refl registry)).of_yields yields
  obtain ⟨cls, rfl, known, found, settled, names, aligned, -⟩ :=
    exists_class_of_defineRecord objects distinct (settled_of_fitted each) yields
  exact fitted_of_class retains rfl (by simp) rfl known found settled names aligned each

theorem fitted_scalar (registry : Registry) (kind : ScalarKind) :
    (Descriptor.scalar kind).Throughout registry.structs registry.Fitted := by
  refine .of_parts (.scalar kind) fun part isPart => ?_
  cases isPart with
  | field isField => cases isField

theorem fitted_of_fromClass {key : ClassKey} {id : StructId} (reached : Reached registry declared)
    (ordinary : registry.catalog.IsOrdinary keys) (derived : ∀ key ∈ keys, key ∉ declared)
    (isKey : key ∈ keys) (yields : Yields (fromClass key) registry id after) :
    (Descriptor.struct id).Throughout after.structs after.Fitted := by
  have family := ordinary.isFamily
  obtain ⟨⟨sameCatalog, mirrors⟩, -, entered⟩ :=
    (proceeds_fromClass (family.isSettled isKey) (family.not_fails isKey) registry
      ⟨rfl, reached.mirrors⟩).of_yields yields
  rw [← sameCatalog] at ordinary
  -- The structs may lead to one another in cycles: what holds of all that outlines an ordinary type
  -- holds of all that is reached.
  have outlines : after.Outlines keys (.struct id) := by
    refine ⟨.record key, .record key, List.forall_mem_singleton.mpr isKey, ?_⟩
    simpa only [TypeExpr.MirroredBy] using ⟨id, entered, rfl⟩
  exact .of_closed (fun _ _ outlines => outlines.of_part mirrors ordinary derived)
    (fun _ outlines => outlines.fitted mirrors ordinary derived) outlines

/-- What is provided is fitted. -/
theorem Provided.fitted (provided : Provided registry descriptor)
    (objects : registry.library.ObjectsToUnderscores) :
    descriptor.Throughout registry.structs registry.Fitted := by
  induction provided with
  | scalar registry kind => exact fitted_scalar registry kind
  | @array registry element _ ih =>
      refine .of_parts (.array element) fun part isPart => ?_
      cases isPart with
      | element => exact ih objects
      | field isField => cases isField
  | @map registry element _ ih =>
      refine .of_parts (.map element) fun part isPart => ?_
      cases isPart with
      | key => exact fitted_scalar registry .string
      | value => exact ih objects
      | field isField => cases isField
  | @optional registry inner _ ih =>
      refine .of_parts (.optional inner) fun part isPart => ?_
      cases isPart with
      | inner => exact ih objects
      | field isField => cases isField
  | object classless _ names ih =>
      refine .of_parts (.object classless names) fun part isPart => ?_
      cases isPart with
      | field isField => exact ih _ isField objects
  | @record registry _ reference name fields description _ _ distinct yields ih =>
      have retains := (upholds_defineRecord registry reference name fields description registry
        (.refl registry)).of_yields yields
      rw [retains.library] at objects
      exact fitted_of_defineRecord objects distinct (fun field isField => ih field isField objects)
        yields
  | @struct registry _ reference name fields description _ _ distinct yields ih =>
      have retains := (upholds_defineStruct registry reference name fields description registry
        (.refl registry)).of_yields yields
      rw [retains.library] at objects
      exact fitted_of_defineStruct distinct (fun field isField => ih field isField objects) yields
  | derived reached ordinary derived isKey yields =>
      exact fitted_of_fromClass reached ordinary derived isKey yields
  | later _ used ih =>
      rw [used.retains.library] at objects
      exact used.retains.fitted (ih objects)

/-- A fixed record that is provided with a name and a class goes by the tag of the class. -/
theorem Provided.isTagged {record : FixedRecord} (provided : Provided registry (.fixed record))
    (objects : registry.library.ObjectsToUnderscores) (named : record.name ≠ none)
    (classed : record.cls ≠ none) : (Descriptor.fixed record).IsTagged registry := by
  generalize isFixed : Descriptor.fixed record = descriptor at provided ⊢
  induction provided with
  | object classless =>
      cases isFixed
      exact (classed classless).elim
  | @record registry _ reference name fields description _ each distinct yields =>
      cases isFixed
      have retains := (upholds_defineRecord registry reference name fields description registry
        (.refl registry)).of_yields yields
      rw [retains.library] at objects
      obtain ⟨cls, rfl, -, found, -, -, -, tagged⟩ := exists_class_of_defineRecord objects distinct
        (settled_of_fitted fun field isField => (each field isField).fitted objects) yields
      obtain ⟨given, isName⟩ := Option.ne_none_iff_exists'.mp named
      rintro _ ⟨⟩
      show _ = Option.map _ (Catalog.get? _ cls.key)
      rw [found, Option.map_some, tagged given isName]
      exact isName
  | later provided used ih =>
      rw [used.retains.library] at objects
      exact used.retains.isTagged (provided.fitted objects).here (ih objects isFixed)
  | _ => cases isFixed

end Registry

end TypedReply
