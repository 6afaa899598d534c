import TypedReply.Proofs.Reference.Library
import TypedReply.Proofs.Registry.Derive
import TypedReply.Proofs.Reply.Instances

/-!
# The round trip of instances

The plain form of an instance, read against the struct derived from its class, is the instance
again. Fields that are left out come back as the null that their absence means, tags select the
classes of unions, and texts become the members and calendar values they were written for.
-/

namespace TypedReply

open Read

/-! ## Enumerations -/

theorem exists_coerceEnum_member {cls : EnumClass} (textual : cls.IsTextual)
    {entry : String × Value} (isMember : entry ∈ cls.members) :
    ∃ text, entry.2 = .str text ∧
      ∀ path, coerceEnum (.ofClass cls) (.str text) path = .ok (cls.toValue entry) := by
  obtain ⟨texts, carried, distinct, trimmed⟩ := textual
  have isCarried : entry.2 ∈ texts.map Value.str := carried ▸ List.mem_map_of_mem isMember
  obtain ⟨text, isText, isValue⟩ := List.mem_map.mp isCarried
  refine ⟨text, isValue.symm, fun path => ?_⟩
  have displayed : entry.2.display = text := by
    rw [← isValue]
    rfl
  have found : (EnumType.ofClass cls).named.find? (·.1 == text) =
      some (text, [text, entry.1], cls.toValue entry) := by
    apply find?_eq_some_of_unique
    · exact List.mem_map.mpr ⟨entry, isMember, by rw [displayed]⟩
    · simp
    · intro choice isChoice isLabel
      obtain ⟨other, isOther, rfl⟩ := List.mem_map.mp isChoice
      have isOtherText : other.2 ∈ texts.map Value.str := carried ▸ List.mem_map_of_mem isOther
      obtain ⟨otherText, -, isOtherValue⟩ := List.mem_map.mp isOtherText
      have sameText : otherText = text := by
        rw [← isOtherValue] at isLabel
        simpa [Value.display] using isLabel
      have sameValue : other.2 = entry.2 := by
        rw [← isOtherValue, ← isValue, sameText]
      have distinctValues : (cls.members.map Prod.snd).Nodup := by
        rw [carried]
        exact distinct.map fun first second same => Value.str.inj same
      rw [List.inj_on_of_nodup_map distinctValues isOther isMember sameValue, displayed]
  have notMember : (EnumType.ofClass cls).has (.str text) = false := rfl
  simp only [coerceEnum, notMember, Bool.false_eq_true, if_false, memberValue, EnumType.tagText?,
    trimmed text isText, String.ofList_toList, EnumType.choose?, found]
  rfl

/-! ## Reading back -/

variable {registry : Registry} {expr : TypeExpr} {descriptor : Descriptor} {value wire : Value}

theorem acceptsNull_of_hasType (portable : expr.Portable registry.catalog)
    (describes : expr.Describes registry descriptor)
    (typed : HasType registry.library registry.catalog expr .null) :
    acceptsNull descriptor = true := by
  cases describes with
  | scalar kind =>
      cases typed with
      | scalar admits => cases admits
  | literal values =>
      cases portable with
      | literal primitive =>
          cases typed with
          | literal isChoice => cases primitive _ isChoice
  | optional => rfl
  | union others =>
      cases typed with
      | null nullable => simp [acceptsNull, Descriptor.nilable, nullable, Descriptor.isNull]
      | member isMember typed =>
          rcases TypeExpr.eq_none_or_mem_others isMember with rfl | isOther
          · cases typed
          · rw [others, List.mem_map] at isOther
            obtain ⟨key, -, rfl⟩ := isOther
            cases typed
  | _ => cases typed

/-- What is described as a union of classes, or as an optional of one, is a union of classes. -/
theorem exists_keys_of_unwrapped (portable : expr.Portable registry.catalog)
    (describes : expr.Describes registry descriptor) {members : List Descriptor}
    (isUnion : descriptor.unwrapped = .union members) :
    ∃ exprs, expr = .union exprs ∧ ∃ keys : List ClassKey,
      exprs.filter (!·.isNone) = keys.map .record := by
  cases describes with
  | @optional exprs inner described others nullable describes =>
      obtain rfl : described = .union members := isUnion
      cases describes with
      | union => exact ((portable.of_single others).2.1 _ rfl).elim
  | union others => exact ⟨_, rfl, _, others⟩
  | _ => cases isUnion

/-- The plain form of a value of a union of classes carries a tag if it is an object. -/
theorem isTagged_of_readsBack (portable : expr.Portable registry.catalog)
    (describes : expr.Describes registry descriptor) {members : List Descriptor}
    (isUnion : descriptor.unwrapped = .union members)
    (typed : HasType registry.library registry.catalog expr value)
    (back : ReadsBack registry descriptor value wire)
    (isObject : wire.isObject = true) : isTagged wire = true := by
  obtain ⟨exprs, rfl, keys, others⟩ := exists_keys_of_unwrapped portable describes isUnion
  cases typed with
  | null =>
      have isNull : wire.isNull = true := back.null
      cases wire with
      | object => cases isNull
      | _ => cases isObject
  | member isMember typed =>
      rcases TypeExpr.eq_none_or_mem_others isMember with rfl | isOther
      · cases typed
      · rw [others, List.mem_map] at isOther
        obtain ⟨key, -, rfl⟩ := isOther
        cases typed with
        | record => simp [isTagged, back.tagged _ _ rfl]

theorem nonNull_structs (ids : List StructId) (nullable : Bool) :
    Descriptor.nonNull (ids.map .struct ++ if nullable then [.null] else []) =
      ids.map .struct := by
  have structs : (ids.map Descriptor.struct).filter (!·.isNull) = ids.map .struct := by
    rw [List.filter_eq_self]
    intro member isMember
    obtain ⟨id, -, rfl⟩ := List.mem_map.mp isMember
    rfl
  rw [Descriptor.nonNull, List.filter_append, structs]
  cases nullable <;> simp [Descriptor.isNull]

theorem tag?_struct (faithful : registry.Faithful) {key : ClassKey} {cls : RecordClass}
    (found : registry.catalog.get? key = some cls) {id : StructId}
    (entered : registry.structOf? key = some id) :
    (Descriptor.struct id).tag? registry.structs = (some cls.name).filter (· ≠ "") := by
  rw [← faithful.names key id entered cls found]
  rfl

/-- An instance is read back against an optional if it is read back against what is inside, and
its class is tagged by its own name. -/
theorem ReadsBack.optional (faithful : registry.Faithful) {inner : TypeExpr}
    (describes : inner.Describes registry descriptor)
    (typed : HasType registry.library registry.catalog inner value)
    (back : ReadsBack registry descriptor value wire)
    (tagged : ∀ key cls, inner = .record key → registry.catalog.get? key = some cls →
      cls.name ≠ "" → Plain.tagName cls.tag = cls.name) :
    ReadsBack registry (.optional descriptor) value wire := by
  refine back.optional_of_tagged fun _ name isName => ?_
  cases describes with
  | @record key id entered =>
      cases typed with
      | @record _ cls values found =>
          rw [tag?_struct faithful found entered, Option.filter_eq_some_iff] at isName
          obtain ⟨sameName, named⟩ := isName
          obtain rfl := Option.some.inj sameName
          rw [back.tagged _ _ rfl, tagged key cls rfl found (by simpa using named)]
  | _ => cases isName

/-- An instance of one of several classes is read back against their union if it is read back
against the struct of its class. -/
theorem ReadsBack.union (faithful : registry.Faithful) {classes : List RecordClass}
    {ids : List StructId}
    (entered : List.Forall₂ (fun cls id => registry.structOf? cls.key = some id) classes ids)
    (found : ∀ cls ∈ classes, registry.catalog.get? cls.key = some cls)
    (distinct : (classes.map (·.name)).Nodup) (named : ∀ cls ∈ classes, cls.name ≠ "")
    (tagged : ∀ cls ∈ classes, Plain.tagName cls.tag = cls.name) {members : List Descriptor}
    (others : Descriptor.nonNull members = ids.map .struct) {cls : RecordClass}
    (isClass : cls ∈ classes) {fields : List (FieldTag × Value)}
    (back : ∀ id, registry.structOf? cls.key = some id →
      ∃ wire, ReadsBack registry (.struct id) (.record cls.tag fields) wire) :
    ∃ wire, ReadsBack registry (.union members) (.record cls.tag fields) wire := by
  have tags (cls : RecordClass) (isClass : cls ∈ classes) (id : StructId)
      (isEntered : registry.structOf? cls.key = some id) :
      some cls.name = (Descriptor.struct id).tag? registry.structs := by
    rw [tag?_struct faithful (found cls isClass) isEntered]
    simp [Option.filter, named cls isClass]
  have names : (Descriptor.nonNull members).map (Descriptor.tag? registry.structs) =
      (classes.map (·.name)).map some := by
    rw [others, List.map_map, List.map_map]
    exact (map_eq_of_aligned entered tags).symm
  obtain ⟨id, isId, isEntered⟩ := exists_right_of_mem entered isClass
  obtain ⟨wire, isBack⟩ := back id isEntered
  refine ⟨wire, isBack.plain, isBack.null, isBack.tagged, fun path => ?_⟩
  have isMember : Descriptor.struct id ∈ Descriptor.nonNull members :=
    others ▸ List.mem_map_of_mem isId
  rw [readAt_union distinct names isMember (tags cls isClass id isEntered).symm, isBack.reads path]
  rw [isBack.tagged _ _ rfl, tagged cls isClass]

theorem ReadsBack.exists_of_member {cls : EnumClass} (textual : cls.IsTextual)
    {entry : String × Value} (isMember : entry ∈ cls.members) :
    ∃ wire, ReadsBack registry (.enum (.ofClass cls)) (cls.toValue entry) wire := by
  obtain ⟨text, isText, coerces⟩ := exists_coerceEnum_member textual isMember
  refine ⟨.str text, ?_, rfl, (fun _ _ same => by cases same), fun path => ?_⟩
  · rw [EnumClass.toValue, Plain.plain, isText]
  · rw [readAt_eq, Read.read]
    exact coerces path

theorem ReadsBack.of_choice {values : List Value} (isPrimitive : value.isPrimitive = true)
    (isChoice : value ∈ values) : ReadsBack registry (.enum (.choices values)) value value := by
  refine ⟨?_, rfl, ?_, fun path => ?_⟩
  · cases value <;> first | rfl | cases isPrimitive
  · rintro tag fields rfl
    cases isPrimitive
  · have has : (EnumType.choices values).has value = true := by
      obtain ⟨equal, sameType⟩ := Value.same_self isPrimitive
      rw [EnumType.has, List.any_eq_true]
      exact ⟨value, isChoice, by simp [equal, sameType]⟩
    rw [readAt_eq, Read.read, coerceEnum, if_pos has]

/-- A field that is left out is read as the null that its absence means; a field that is not is read
as its value. -/
theorem readField_back {fields : List Field} (distinct : (fields.map (·.name)).Nodup) {field : Field}
    (isField : field ∈ fields) {classField : ClassField}
    (describes : classField.Describes registry field)
    (portable : classField.type.Portable registry.catalog)
    (typed : HasType registry.library registry.catalog classField.type value)
    (back : ReadsBack registry field.type value wire) {entries : Value.Entries}
    (found : entries.get? field.name =
      if Plain.isOmitted classField.tag value then none else some wire) (path : Path) :
    readField registry.structs fields entries
      ((Value.object entries).parts (Read.read registry)) field path = .ok value := by
  unfold readField
  rw [Value.get?_parts, found]
  cases omitted : Plain.isOmitted classField.tag value with
  | true =>
      have falls := describes.default
      simp only [Plain.isOmitted, ClassField.tag, Bool.and_eq_true] at omitted
      obtain ⟨isDefault, isNull⟩ := omitted
      cases presence : classField.presence with
      | default given =>
          rw [presence] at isDefault falls
          have isGiven : field.default = some given := (Except.ok.inj falls).symm
          have same : given = value :=
            (Value.isNull_iff.mp isDefault).trans (Value.isNull_iff.mp isNull).symm
          simp [absentField, fallback, isGiven, same]
      | _ => simp [presence, Presence.isNullDefault] at isDefault
  | false =>
      have undiscriminated : discriminated? (Discrimination.detect registry.structs fields) entries
          field wire = none :=
        discriminated?_eq_none distinct isField entries fun members isUnion isObject =>
          isTagged_of_readsBack portable describes.type isUnion typed back isObject
      have kept : (wire.isNull && !field.required && !acceptsNull field.type) = false := by
        cases isNull : wire.isNull with
        | false => rfl
        | true =>
            obtain rfl := Value.isNull_iff.mp (back.null.symm.trans isNull)
            simp [acceptsNull_of_hasType portable describes.type typed]
      simp only [Bool.false_eq_true, if_false, Option.map_some]
      rw [presentField_eq undiscriminated kept]
      exact back.reads path

/-- An instance is read back against the struct of its class if the values of its fields are read
back against their types. -/
theorem exists_readsBack_record (keepsValues : registry.library.KeepsValues)
    (portable : registry.catalog.Portable) (faithful : registry.Faithful) {key : ClassKey}
    {cls : RecordClass} (found : registry.catalog.get? key = some cls)
    {id : StructId} (entered : registry.structOf? key = some id) {values : List Value}
    (complete : values.length = cls.fields.length)
    (each : ∀ entry ∈ cls.fields.zip values, HasType registry.library registry.catalog
      entry.1.type entry.2)
    (allowed : ∀ entry ∈ cls.fields.zip values, registry.library.Permits entry.1 entry.2)
    (proper : key ≠ .base) (back : ∀ entry ∈ cls.fields.zip values, ∀ descriptor,
      entry.1.type.Describes registry descriptor →
      ∃ wire, ReadsBack registry descriptor entry.2 wire) :
    ∃ wire, ReadsBack registry (.struct id)
      (.record cls.tag ((cls.fields.map (·.tag)).zip values)) wire := by
  have portableClass := portable key cls found
  have describes := faithful.fields key id entered (by simp) cls found
  have distinctNames := (List.nodup_cons.mp portableClass.names).2
  have plains (entry) (isEntry : entry ∈ cls.fields.zip values) :
      ∃ wire, Plain.plain entry.2 = .ok wire := by
    obtain ⟨declared, -, isDescribed⟩ :=
      exists_right_of_mem describes (List.of_mem_zip isEntry).1
    obtain ⟨wire, isBack⟩ := back entry isEntry _ isDescribed.type
    exact ⟨wire, isBack.plain⟩
  obtain ⟨entries, isPlain, isTag, held⟩ := exists_plain_instance complete portableClass.names plains
  have names : (registry.structs.at id).fields.map (·.name) = cls.fields.map (·.wireName) :=
    (map_eq_of_aligned describes fun field _ declared describes => describes.name.symm).symm
  refine ⟨.ofFields entries, isPlain, rfl, ?_, fun path => ?_⟩
  · intro tag fields same
    cases same
    rw [Value.get?_ofFields, isTag]
  · have distinct : ((registry.structs.at id).fields.map (·.name)).Nodup := names ▸ distinctNames
    have reads : List.Forall₂ (fun declared value => readField registry.structs
        (registry.structs.at id).fields (Value.entriesOf entries)
        ((Value.object (Value.entriesOf entries)).parts (Read.read registry)) declared
        (path ++ [Path.key declared.name]) = .ok value) (registry.structs.at id).fields values := by
      apply aligned_of_mem (aligned_through describes (aligned_zip complete.symm))
      rintro declared isDeclared value ⟨field, isField, isDescribed, isEntry⟩
      obtain ⟨wire, isBack⟩ := back _ isEntry _ isDescribed.type
      refine readField_back distinct isDeclared isDescribed (portableClass.types field isField)
        (each _ isEntry) isBack ?_ _
      rw [Value.get?_entriesOf, isDescribed.name]
      exact held _ isEntry wire isBack.plain
    have isRecord : (Descriptor.struct id).record? registry.structs =
        some (registry.structs.at id).view := rfl
    rw [readAt_eq, read_eq_readRecord isRecord]
    exact readRecord_instance complete (faithful.places key id entered).2 names distinctNames reads
      (keepsValues proper found (portable.undeclared? key) distinctNames
        portableClass.types complete each
        allowed)

/-- A value that has a portable type is read back against a descriptor of the type. The induction is
on what makes the value have the type, which goes through all that is inside the value. -/
theorem exists_readsBack (keepsValues : registry.library.KeepsValues)
    (portable : registry.catalog.Portable) (faithful : registry.Faithful)
    (typed : HasType registry.library registry.catalog expr value)
    (isPortable : expr.Portable registry.catalog)
    (describes : expr.Describes registry descriptor) :
    ∃ wire, ReadsBack registry descriptor value wire := by
  induction typed generalizing descriptor with
  | scalar admits =>
      cases describes with
      | scalar kind => exact ReadsBack.exists_of_admits admits
  | @enum cls entry isMember =>
      cases isPortable with
      | enum textual =>
          cases describes with
          | enum => exact ReadsBack.exists_of_member textual isMember
  | @literal values value isChoice =>
      cases isPortable with
      | literal primitive =>
          cases describes with
          | literal => exact ⟨value, .of_choice (primitive value isChoice) isChoice⟩
  | @list element items _ ih =>
      cases isPortable with
      | list elementPortable =>
          cases describes with
          | list describes =>
              obtain ⟨wires, aligned⟩ := exists_aligned fun item isItem =>
                ih item isItem elementPortable describes
              exact ⟨.list wires, .array aligned⟩
  | @dict element fields distinct _ ih =>
      cases isPortable with
      | dict elementPortable =>
          cases describes with
          | @dict _ described describes =>
              have named (field) (isField : field ∈ fields) : ∃ wire : String × Value,
                  field.1 = wire.1 ∧ ReadsBack registry described field.2 wire.2 := by
                obtain ⟨wire, back⟩ := ih field isField elementPortable describes
                exact ⟨(field.1, wire), rfl, back⟩
              obtain ⟨wires, aligned⟩ := exists_aligned named
              exact ⟨.ofFields wires, .map distinct aligned⟩
  | null nullable =>
      refine ⟨.null, rfl, rfl, (fun _ _ same => by cases same), fun path => ?_⟩
      rw [readAt_eq]
      cases describes with
      | optional =>
          rw [Read.read]
          exact if_pos rfl
      | union =>
          rw [Read.read, readUnion, if_pos]
          simp [Value.isNull, Descriptor.nilable, nullable, Descriptor.isNull]
  | @member members member value isMember typed ih =>
      rcases TypeExpr.eq_none_or_mem_others isMember with rfl | isOther
      · cases typed
      cases describes with
      | @optional _ inner described others nullable describes =>
          obtain ⟨innerPortable, -, tagged⟩ := isPortable.of_single others
          rw [others, List.mem_singleton] at isOther
          subst isOther
          obtain ⟨wire, back⟩ := ih innerPortable describes
          exact ⟨wire, back.optional faithful describes typed tagged⟩
      | @union _ keys ids others several entered =>
          obtain ⟨classes, rfl, found, distinct, named, tagged⟩ :=
            isPortable.of_several others several
          rw [others, List.mem_map] at isOther
          obtain ⟨key, isKey, rfl⟩ := isOther
          obtain ⟨cls, isClass, rfl⟩ := List.mem_map.mp isKey
          cases typed with
          | @record _ other values isFound =>
              obtain rfl : cls = other := Option.some.inj ((found cls isClass).symm.trans isFound)
              rw [List.forall₂_map_left_iff] at entered
              refine ReadsBack.union faithful entered found distinct named tagged ?_ isClass ?_
              · exact nonNull_structs ids _
              · exact fun id isEntered => ih (.record isFound) (.record isEntered)
  | @record key cls values found complete each allowed proper ih =>
      cases describes with
      | record entered =>
          refine exists_readsBack_record keepsValues portable faithful found entered complete each
            allowed proper ?_
          intro entry isEntry descriptor describes
          exact ih entry isEntry
            ((portable key cls found).types entry.1 (List.of_mem_zip isEntry).1) describes

/-! ## Instances -/

/-- An instance is what is read of its plain form against the struct derived from a class. -/
def RoundTrips (registry : Registry) (key : ClassKey) (value : Value) : Prop :=
  ∃ wire id after, Plain.plain value = .ok wire ∧
    Yields (Registry.fromClass key) registry id after ∧ read after wire (.struct id) = .ok value

/-- An instance does not round-trip if its plain form is refused. -/
theorem not_roundTrips_of_error {key : ClassKey} {id : StructId} {after : Registry} {failure : Failure}
    (isPlain : Plain.plain value = .ok wire) (yields : Yields (Registry.fromClass key) registry id after)
    (refused : read after wire (.struct id) = .error failure) : ¬RoundTrips registry key value := by
  rintro ⟨other, otherId, otherAfter, isOther, yieldsOther, reads⟩
  cases isPlain.symm.trans isOther
  cases yields.symm.trans yieldsOther
  cases refused.symm.trans reads

theorem roundTrips_of_faithful (keepsValues : registry.library.KeepsValues)
    (portable : registry.catalog.Portable) (faithful : registry.Faithful) {key : ClassKey}
    (typed : HasType registry.library registry.catalog (.record key) value) :
    RoundTrips registry key value := by
  obtain ⟨cls, found⟩ : ∃ cls, registry.catalog.get? key = some cls := by
    cases typed with
    | record found => exact ⟨_, found⟩
  obtain ⟨id, after, yields, isFaithful, extend, entered⟩ :=
    Registry.exists_fromClass portable faithful found
  have sameCatalog := extend.catalog
  have sameLibrary := extend.library
  rw [← sameCatalog, ← sameLibrary] at typed
  obtain ⟨wire, back⟩ := @exists_readsBack after _ (.struct id) _ (sameLibrary ▸ keepsValues)
    (sameCatalog ▸ portable) isFaithful typed (.record (sameCatalog ▸ found)) (.record entered)
  exact ⟨wire, id, after, back.plain, yields, back.reads []⟩

/-- Well-typed instances of portable classes, which may refer to one another in cycles, round-trip,
whatever structs of classes were derived before. -/
theorem roundTrips_of_hasType {registry : Registry} (keepsValues : registry.library.KeepsValues)
    (portable : registry.catalog.Portable)
    (underived : registry.byClass = []) {earlier : List ClassKey}
    (declared : ∀ key ∈ earlier, ∃ cls, registry.catalog.get? key = some cls) {key : ClassKey}
    {value : Value} (typed : HasType registry.library registry.catalog (.record key) value) :
    ∃ ids between, Yields (earlier.mapM Registry.fromClass) registry ids between ∧
      RoundTrips between key value := by
  obtain ⟨ids, between, yields, faithful, extend⟩ := Registry.exists_mapM_fromClass portable
    (Registry.faithful_of_no_classes underived) declared
  have sameCatalog := extend.catalog
  have sameLibrary := extend.library
  rw [← sameCatalog, ← sameLibrary] at typed
  exact ⟨ids, between, yields, roundTrips_of_faithful (sameLibrary ▸ keepsValues)
    (sameCatalog ▸ portable) faithful typed⟩

def Registry.ofClasses (classes : Catalog) : Registry := { Registry.empty with catalog := classes }

def stateEnum : EnumClass := ⟨⟨0, "State", none⟩, [("OPEN", .str "open"), ("DONE", .str "done")]⟩

/-- A class of tasks, each with a title, a state, a day when it is due and what comes next. -/
def taskClass : RecordClass :=
  ⟨.declared 0, "Task", none, [.base],
    [⟨"title", some "label", .scalar .string, .required, none, .none⟩,
      ⟨"state", none, .enum stateEnum, .required, none, .none⟩,
      ⟨"due", none, .union [.scalar .date, .none], .default .null, none, .none⟩,
      ⟨"next", none, .union [.record (.declared 0), .record (.declared 1), .none], .required, none,
        .none⟩]⟩

/-- A class of notes, which may be about a task. -/
def noteClass : RecordClass :=
  ⟨.declared 1, "Note", none, [.base],
    [⟨"about", none, .union [.record (.declared 0), .none], .default .null, none, .none⟩,
      ⟨"marks", none, .dict (.scalar .string) (.scalar .int), .made .dict, none, .none⟩]⟩

/-- Classes of tasks and of notes, which refer to one another. -/
def taskClasses : Catalog := [taskClass, noteClass]

theorem stateEnum_isTextual : stateEnum.IsTextual :=
  ⟨["open", "done"], rfl, by decide, by decide⟩

theorem taskClass_portable : taskClass.Portable taskClasses := by
  constructor
  · simp only [taskClass, List.forall_mem_cons, List.not_mem_nil, false_imp_iff, implies_true,
      and_true]
    refine ⟨.scalar _, .enum stateEnum_isTextual, ?_, ?_⟩
    · exact .optional rfl rfl (.scalar .date) (by simp) (by simp)
    · refine @TypeExpr.Portable.union _ _ [taskClass, noteClass] rfl (by decide) ?_ (by decide)
        (by decide) (by decide)
      simp only [List.forall_mem_cons, List.not_mem_nil, false_imp_iff, implies_true, and_true]
      exact ⟨rfl, rfl⟩
  · decide
  · simp [taskClass, Presence.fallback]

theorem noteClass_portable : noteClass.Portable taskClasses := by
  constructor
  · simp only [noteClass, List.forall_mem_cons, List.not_mem_nil, false_imp_iff, implies_true,
      and_true]
    refine ⟨?_, .dict (.scalar .int)⟩
    refine .optional rfl rfl (@TypeExpr.Portable.record _ _ taskClass rfl) (by simp) ?_
    rintro key cls ⟨⟩ ⟨⟩ -
    rfl
  · decide
  · simp [noteClass, Presence.fallback, Factory.make, Except.map]

theorem taskClasses_portable : taskClasses.Portable := by
  intro key cls found
  have builtIn {cls : RecordClass} (empty : cls.fields = []) : cls.Portable taskClasses :=
    ⟨empty ▸ List.forall_mem_nil _, by simp [empty], empty ▸ List.forall_mem_nil _⟩
  refine Catalog.forall_get? (builtIn rfl) (builtIn rfl) ?_ found
  simp only [taskClasses, List.forall_mem_cons]
  exact ⟨taskClass_portable, noteClass_portable, List.forall_mem_nil _⟩

/-- A task with a state and what comes next, which is not due on any day. -/
def task (title : String) (state : String × Value) (next : Value) : Value :=
  .record taskClass.tag ((taskClass.fields.map (·.tag)).zip
    [.str title, stateEnum.toValue state, .null, next])

def note (about : Value) : Value :=
  .record noteClass.tag ((noteClass.fields.map (·.tag)).zip [about, .ofFields [("read", .int 2)]])

theorem hasType_task {title : String} {state : String × Value} {next : Value}
    (isState : state ∈ stateEnum.members)
    (typed : HasType .reference taskClasses
      (.union [.record (.declared 0), .record (.declared 1), .none]) next) :
    HasType .reference taskClasses (.record (.declared 0)) (task title state next) := by
  refine @HasType.record _ _ _ taskClass _ rfl rfl ?_ ?_ nofun
  · simp only [taskClass, List.zip_cons_cons, List.zip_nil_left, List.forall_mem_cons,
      List.not_mem_nil, false_imp_iff, implies_true, and_true]
    exact ⟨.scalar (.string _), .enum isState, .null rfl, typed⟩
  · intro entry isEntry
    have unlimited : ∀ field ∈ taskClass.fields, field.limits = .none := by simp [taskClass]
    exact ClassLibrary.permits_of_unlimited (unlimited _ (List.of_mem_zip isEntry).1) _

theorem hasType_note {about : Value}
    (typed : HasType .reference taskClasses (.union [.record (.declared 0), .none]) about) :
    HasType .reference taskClasses (.record (.declared 1)) (note about) := by
  refine @HasType.record _ _ _ noteClass _ rfl rfl ?_ ?_ nofun
  · simp only [noteClass, List.zip_cons_cons, List.zip_nil_left, List.forall_mem_cons,
      List.not_mem_nil, false_imp_iff, implies_true, and_true]
    refine ⟨typed, .dict (by decide) ?_⟩
    simp only [List.forall_mem_singleton]
    exact .scalar (.int 2)
  · intro entry isEntry
    have unlimited : ∀ field ∈ noteClass.fields, field.limits = .none := by simp [noteClass]
    exact ClassLibrary.permits_of_unlimited (unlimited _ (List.of_mem_zip isEntry).1) _

/-- A task that is followed by a note about another task. -/
def notedTask : Value :=
  task "ship" ("DONE", .str "done") (note (task "plan" ("OPEN", .str "open") .null))

theorem hasType_notedTask : HasType .reference taskClasses (.record (.declared 0)) notedTask := by
  have plan : HasType .reference taskClasses (.record (.declared 0))
    (task "plan" ("OPEN", .str "open") .null) :=
    hasType_task (.head _) (.null rfl)
  have isNote := hasType_note (.member (.head _) plan)
  exact hasType_task (.tail _ (.head _)) (.member (.tail _ (.head _)) isNote)

/-- The task round-trips after the struct of notes was derived. -/
theorem notedTask_roundTrips :
    ClassLibrary.reference.KeepsValues ∧ taskClasses.Portable ∧
      (Registry.ofClasses taskClasses).byClass = [] ∧
      (∀ key ∈ [ClassKey.declared 1], ∃ cls, taskClasses.get? key = some cls) ∧
      HasType .reference taskClasses (.record (.declared 0)) notedTask ∧
      ∃ ids between, Yields ([ClassKey.declared 1].mapM Registry.fromClass)
        (.ofClasses taskClasses) ids between ∧ RoundTrips between (.declared 0) notedTask := by
  have declared : ∀ key ∈ [ClassKey.declared 1], ∃ cls, taskClasses.get? key = some cls := by
    simp only [List.forall_mem_singleton]
    exact ⟨noteClass, rfl⟩
  have keepsValues : ClassLibrary.reference.KeepsValues :=
    ClassLibrary.reference_takesValues.keepsValues
  exact ⟨keepsValues, taskClasses_portable, rfl, declared, hasType_notedTask,
    @roundTrips_of_hasType (.ofClasses taskClasses) keepsValues taskClasses_portable rfl _ declared _ _
      hasType_notedTask⟩

/-! ### Instances that are lost -/

/-- The classes of a catalog make an instance of what is given that does not round-trip. -/
def Catalog.Loses (catalog : Catalog) (key : ClassKey) (given : Value.Entries) : Prop :=
  ∃ made, ClassLibrary.reference.validate catalog key (.object given) = .ok made ∧
    ¬RoundTrips (.ofClasses catalog) key made

/-- A class with one field that holds a value of a type. -/
def holderClass (expr : TypeExpr) (presence : Presence) : RecordClass :=
  ⟨.declared 0, "Holder", none, [.base], [⟨"held", none, expr, presence, none, .none⟩]⟩

def emptyClass (number : Nat) (name : String) (ancestors : List ClassKey) : RecordClass :=
  ⟨.declared number, name, none, ancestors, []⟩

theorem holderClass_loses {t : DateTime} (illegible : ¬t.IsLegible) :
    Catalog.Loses [holderClass (.scalar .datetime) .required] (.declared 0)
      [(.str "held", .datetime t)] := by
  refine ⟨_, rfl, ?_⟩
  rintro ⟨wire, id, after, isPlain, yields, reads⟩
  cases isPlain
  cases yields
  have coerced := coerceScalar_dateTimeText t
  -- The text is made opaque, so that nothing below evaluates it.
  revert coerced reads
  generalize String.ofList (Iso.dateTimeText 'T' t) = text
  intro reads coerced
  rw [read, readAt_record rfl, bind_eq_ok_iff] at reads
  obtain ⟨values, areValues, isInstance⟩ := reads
  rw [fieldValues_eq_ok_iff] at areValues
  obtain ⟨_, _, ⟨value, isValue, rfl⟩, rest, rfl⟩ := List.forall₂_cons_left_iff.mp areValues
  obtain rfl := List.forall₂_nil_left_iff.mp rest
  obtain rfl : .datetime t.asRead = value := Except.ok.inj ((coerced _).symm.trans isValue)
  injection isInstance with same
  injection same with _ same
  injection same with same
  injection same with _ same
  injection same with same
  exact illegible (t.asRead_eq_self_iff.mp same)

/-- Lost are a default outside the annotated type, members of unions that have no name or that are
tagged by another name than theirs, and moments at illegible offsets. -/
theorem instances_lost :
    Catalog.Loses [holderClass (.scalar .int) (.default .null)] (.declared 0) [] ∧
    Catalog.Loses [holderClass (.union [.record (.declared 1), .record (.declared 2)]) .required,
        emptyClass 1 "" [.base], emptyClass 2 "Other" [.base]] (.declared 0)
      [(.str "held", .record (emptyClass 1 "" [.base]).tag [])] ∧
    Catalog.Loses [holderClass (.union [.record (.declared 1), .none]) .required,
        emptyClass 1 "Draft" [.anonymous, .base]] (.declared 0)
      [(.str "held", .record (emptyClass 1 "Draft" [.anonymous, .base]).tag [])] ∧
    Catalog.Loses [holderClass (.union [.record (.declared 1), .record (.declared 2)]) .required,
        emptyClass 1 "Draft" [.anonymous, .base], emptyClass 2 "Other" [.base]] (.declared 0)
      [(.str "held", .record (emptyClass 1 "Draft" [.anonymous, .base]).tag [])] ∧
    Catalog.Loses [holderClass (.scalar .datetime) .required] (.declared 0)
      [(.str "held", .datetime ⟨⟨2024, 1, 1, by decide⟩, .midnight, some ⟨1, by decide⟩⟩)] := by
  refine ⟨⟨_, rfl, ?_⟩, ⟨_, rfl, ?_⟩, ⟨_, rfl, ?_⟩, ⟨_, rfl, ?_⟩, holderClass_loses ?_⟩
  · exact not_roundTrips_of_error rfl rfl rfl
  · exact not_roundTrips_of_error rfl rfl rfl
  · exact not_roundTrips_of_error rfl rfl rfl
  · exact not_roundTrips_of_error rfl rfl rfl
  · intro legible
    have whole := legible _ rfl
    simp [Offset.IsLegible] at whole

end TypedReply
