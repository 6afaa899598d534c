import TypedReply.Proofs.Reference.Library
import TypedReply.Proofs.Registry.History
import TypedReply.Proofs.Reply.Packing
import TypedReply.Proofs.Reply.RoundTrip
import TypedReply.Proofs.Reply.Unions

/-!
# The round trip of containers

An instance of a class whose fields hold containers is written with every container as a list or an
object, and read again against the struct that is derived from the class. It comes back exactly if each
field holds what the outline of its type carries, as it always does where the types say of all that is
inside of which type it is.
-/

namespace TypedReply

open Read

/-! ## Instances -/

/-- A class whose fields hold containers: they are of packed types and go by different names, and their
defaults can be made. -/
structure RecordClass.IsPacked (cls : RecordClass) : Prop where
  types : ∀ field ∈ cls.fields, field.type.IsPacked
  names : (cls.fields.map (·.wireName)).Nodup
  defaults : ∀ field ∈ cls.fields, field.presence ≠ .made .failing

namespace RecordClass.IsPacked

variable {catalog : Catalog} {key : ClassKey} {cls : RecordClass}

theorem unresolvedNames (packed : cls.IsPacked) : cls.unresolvedNames = [] :=
  TypeExpr.unresolvedNamesOf_eq_nil (List.forall_mem_map.mpr fun field isField =>
    (packed.types field isField).unresolvedNames)

theorem not_mem_classKeys (packed : cls.IsPacked) (other : ClassKey) : other ∉ cls.classKeys := by
  intro mentioned
  obtain ⟨expr, isType, mentioned⟩ := TypeExpr.mem_classKeysOf mentioned
  obtain ⟨field, isField, rfl⟩ := List.mem_map.mp isType
  exact (packed.types field isField).not_mem_classKeys other mentioned

theorem isFamily (packed : cls.IsPacked) (found : catalog.get? key = some cls) :
    catalog.IsFamily [key] := by
  constructor
  simp only [List.forall_mem_singleton]
  exact ⟨cls, found, packed.unresolvedNames,
    fun other mentioned => (packed.not_mem_classKeys other mentioned).elim, packed.defaults⟩

theorem undeclared?_eq_none (packed : cls.IsPacked) (found : catalog.get? key = some cls) :
    catalog.undeclared? key = none := by
  rw [Catalog.undeclared?, List.findSome?_eq_none_iff]
  intro other isReached
  have closed : ∀ known other, known = key → catalog.get? known = some other →
      ∀ last ∈ other.classKeys, last = key := by
    rintro _ other rfl isFound last mentioned
    cases found.symm.trans isFound
    exact (packed.not_mem_classKeys last mentioned).elim
  obtain ⟨known, rfl, isFound⟩ := Catalog.exists_get?_of_mem_reach closed _
    (List.forall_mem_singleton.mpr rfl) (by simp) other isReached
  cases found.symm.trans isFound
  rw [packed.unresolvedNames]
  rfl

end RecordClass.IsPacked

/-- The values of an instance: one for each field, of the type of the field and permitted by it. -/
structure RecordClass.Packs (library : ClassLibrary) (cls : RecordClass) (values : List Value) :
    Prop where
  complete : values.length = cls.fields.length
  each : ∀ entry ∈ cls.fields.zip values, entry.1.type.Packs entry.2
  permitted : ∀ entry ∈ cls.fields.zip values, library.Permits entry.1 entry.2

/-! ## Reading instances -/

variable {registry : Registry} {descriptor : Descriptor} {record : RecordView} {key : ClassKey}
variable {cls : RecordClass} {values results : List Value}

theorem TypeExpr.Packs.isNull_plain {expr : TypeExpr} {value wire : Value} (packs : expr.Packs value)
    (isPlain : Plain.plain value = .ok wire) : wire.isNull = false := by
  cases packs with
  | bare =>
      obtain ⟨_, -, rfl⟩ := plain_of_eq_ok_iff.mp isPlain
      rfl
  | collection =>
      obtain ⟨_, -, rfl⟩ := plain_of_eq_ok_iff.mp isPlain
      rfl
  | @tuple _ items =>
      obtain ⟨_, -, rfl⟩ := (@plain_of_eq_ok_iff items .tuple _).mp isPlain
      rfl
  | bareDict =>
      obtain ⟨_, -, rfl⟩ := Plain.plain_object_eq_ok_iff.mp isPlain
      rfl
  | dict =>
      obtain ⟨_, -, rfl⟩ := Plain.plain_object_eq_ok_iff.mp isPlain
      rfl
  | _ =>
      cases isPlain
      rfl

theorem exists_plain_of_holding {wire : Value}
    (isPlain : Plain.plain (cls.holding values) = .ok wire) :
    ∀ entry ∈ cls.fields.zip values, ∃ wire, Plain.plain entry.2 = .ok wire := by
  intro entry isEntry
  apply Plain.exists_plain_of_plain_record isPlain (entry.1.tag, entry.2)
  rw [List.zip_map_left]
  exact List.mem_map.mpr ⟨entry, isEntry, rfl⟩

/-- An instance whose values have plain forms has one that holds those under the wire names. -/
theorem exists_plain_of_packs (packs : cls.Packs registry.library values)
    (names : (cls.fields.map (·.wireName)).Nodup)
    (plains : ∀ entry ∈ cls.fields.zip values, ∃ wire, Plain.plain entry.2 = .ok wire) :
    ∃ entries : Fields, Plain.plain (cls.holding values) = .ok (.ofFields entries) ∧
      ∀ entry ∈ cls.fields.zip values, ∀ wire, Plain.plain entry.2 = .ok wire →
        entries.get? entry.1.wireName = some wire := by
  have tagged (entry) (isEntry : entry ∈ cls.fields.zip values) :
      (entry.1.tag, entry.2) ∈ (cls.fields.map (·.tag)).zip values := by
    rw [List.zip_map_left]
    exact List.mem_map.mpr ⟨entry, isEntry, rfl⟩
  have exists_entry (field) (isField : field ∈ (cls.fields.map (·.tag)).zip values) :
      ∃ entry ∈ cls.fields.zip values, (entry.1.tag, entry.2) = field := by
    rw [List.zip_map_left] at isField
    exact List.mem_map.mp isField
  obtain ⟨entries, isPlain, held⟩ := @Plain.exists_plain_of_present cls.tag
    ((cls.fields.map (·.tag)).zip values) (wireNames_instance packs.complete ▸ names)
    (fun field isField => by
      obtain ⟨entry, isEntry, rfl⟩ := exists_entry field isField
      rw [Plain.isOmitted, (packs.each entry isEntry).isNull_eq_false, Bool.and_false])
    (fun field isField => by
      obtain ⟨entry, isEntry, rfl⟩ := exists_entry field isField
      exact plains entry isEntry)
  exact ⟨entries, isPlain, fun entry isEntry => held _ (tagged entry isEntry)⟩

/-- A field that is present and described by no union is read against what describes it. -/
theorem readField_of_basic {fields : List Field} (distinct : (fields.map (·.name)).Nodup)
    {declared : Field} (isField : declared ∈ fields) (basic : declared.type.IsBasic)
    {entries : Fields} {wire : Value} (held : entries.get? declared.name = some wire)
    (present : wire.isNull = false) (path : Path) :
    readField registry.structs fields (Value.entriesOf entries)
        ((Value.object (Value.entriesOf entries)).parts (Read.read registry)) declared path =
      readAt registry wire declared.type path := by
  have undiscriminated : discriminated? (Discrimination.detect registry.structs fields)
      (Value.entriesOf entries) declared wire = none := by
    refine discriminated?_eq_none distinct isField _ fun members isUnion => ?_
    generalize declared.type = described at basic isUnion
    cases basic <;> cases isUnion
  have kept : (wire.isNull && !declared.required && !acceptsNull declared.type) = false := by
    rw [present, Bool.false_and, Bool.false_and]
  rw [readField, Value.get?_parts, Value.get?_entriesOf, held, Option.map_some]
  exact presentField_eq undiscriminated kept path

/-- The values that are read for fields stand under the names of the fields. -/
theorem fieldValues_eq_ok_zip_iff {store : Store} {entries : Value.Entries} {parts : Parts Reader}
    {fields : List Field} {path : Path} {named : List (Value × Value)} :
    fieldValues store entries parts fields path = .ok named ↔ ∃ results,
      List.Forall₂ (fun field result => readField store fields entries parts field
        (path ++ [Path.key field.name]) = .ok result) fields results ∧
          named = Value.entriesOf ((fields.map (·.name)).zip results) := by
  constructor
  · intro areRead
    obtain ⟨given, -, aligned⟩ := exists_named_of_fieldValues areRead
    have each : List.Forall₂ (fun field result => readField store fields entries parts field
        (path ++ [Path.key field.name]) = .ok result) fields (given.map Prod.snd) :=
      List.forall₂_map_right_iff.mpr (aligned.imp fun _ _ isNamed => isNamed.2)
    exact ⟨_, each, Except.ok.inj (areRead.symm.trans (fieldValues_of_aligned each))⟩
  · rintro ⟨results, each, rfl⟩
    exact fieldValues_of_aligned each

theorem instantiate_eq_ok_iff (isClass : record.cls = some key) {object value : Value} {path : Path} :
    instantiate registry record object path = .ok value ↔
      registry.library.validate registry.catalog key object = .ok value := by
  simp only [instantiate, isClass]
  rcases registry.library.validate registry.catalog key object with (refusal | fault) | made
  · simp [constructionFailure, Read.fail]
  · simp [constructionFailure, Outcome.fault]
  · simp

section Holding

variable (outlined : List.Forall₂ (fun field declared => declared.name = field.wireName ∧
  declared.type = field.type.outline) cls.fields record.fields)
variable (packed : cls.IsPacked) (packs : cls.Packs registry.library values)
include outlined packed packs

/-- The fields of an instance are read one by one of its plain form. -/
theorem readFields_iff {entries : Fields}
    (plains : ∀ entry ∈ cls.fields.zip values, ∃ wire, Plain.plain entry.2 = .ok wire)
    (held : ∀ entry ∈ cls.fields.zip values, ∀ wire, Plain.plain entry.2 = .ok wire →
      entries.get? entry.1.wireName = some wire) (path : Path) (results : List Value) :
    List.Forall₂ (fun declared result => readField registry.structs record.fields
        (Value.entriesOf entries) ((Value.object (Value.entriesOf entries)).parts (Read.read registry))
        declared (path ++ [Path.key declared.name]) = .ok result) record.fields results ↔
      List.Forall₂ (fun entry result => ReadsPlain registry entry.1.type.outline entry.2 result)
        (cls.fields.zip values) results := by
  have places : List.Forall₂ (fun entry declared => declared.name = entry.1.wireName ∧
      declared.type = entry.1.type.outline) (cls.fields.zip values) record.fields :=
    (aligned_fst_iff packs.complete.symm).mpr outlined
  have names : record.fields.map (·.name) = cls.fields.map (·.wireName) :=
    (map_eq_of_aligned outlined fun _ _ _ same => same.1.symm).symm
  -- A field finds under its name what its value is written as, and no union describes it.
  have read_iff {entry : ClassField × Value} (isEntry : entry ∈ cls.fields.zip values)
      {declared : Field} (isField : declared ∈ record.fields)
      (same : declared.name = entry.1.wireName ∧ declared.type = entry.1.type.outline)
      (result : Value) : readField registry.structs record.fields (Value.entriesOf entries)
        ((Value.object (Value.entriesOf entries)).parts (Read.read registry)) declared
        (path ++ [Path.key declared.name]) = .ok result ↔
      ReadsPlain registry entry.1.type.outline entry.2 result := by
    obtain ⟨wire, isPlain⟩ := plains entry isEntry
    have basic := (packed.types entry.1 (List.of_mem_zip isEntry).1).isBasic_outline
    rw [readField_of_basic (names ▸ packed.names) isField (same.2 ▸ basic)
      (same.1 ▸ held entry isEntry wire isPlain) ((packs.each entry isEntry).isNull_plain isPlain),
      readAt_eq_ok_iff, same.2]
    constructor
    · exact fun isRead => ⟨wire, isPlain, isRead⟩
    · rintro ⟨_, isOther, isRead⟩
      cases isPlain.symm.trans isOther
      exact isRead
  constructor
  · intro areRead
    refine aligned_of_mem (aligned_through places.flip areRead) ?_
    rintro entry isEntry result ⟨declared, isField, same, isRead⟩
    exact (read_iff isEntry isField same result).mp isRead
  · intro areRead
    refine aligned_of_mem (aligned_through places areRead) ?_
    rintro declared isField result ⟨entry, isEntry, same, isRead⟩
    exact (read_iff isEntry isField same result).mpr isRead

/-- What is read of the plain form of an instance is what the class makes of what is read of its
fields. -/
theorem reads_holding_iff (isRecord : descriptor.record? registry.structs = some record)
    (isClass : record.cls = some key) {made : Value} :
    ReadsPlain registry descriptor (cls.holding values) made ↔ ∃ results,
      List.Forall₂ (fun entry result => ReadsPlain registry entry.1.type.outline entry.2 result)
        (cls.fields.zip values) results ∧
      registry.library.validate registry.catalog key (cls.offering results) = .ok made := by
  have names : record.fields.map (·.name) = cls.fields.map (·.wireName) :=
    (map_eq_of_aligned outlined fun _ _ _ same => same.1.symm).symm
  have made_iff {results : List Value}
      (areRead : List.Forall₂ (fun entry result =>
        ReadsPlain registry entry.1.type.outline entry.2 result) (cls.fields.zip values) results) :
      instantiate registry record (.object (Value.Entries.ofPairs (Value.entriesOf
          ((record.fields.map (·.name)).zip results)))) [] = .ok made ↔
        registry.library.validate registry.catalog key (cls.offering results) = .ok made := by
    have given : results.length = cls.fields.length := by
      rw [← areRead.length_eq, List.length_zip, packs.complete, min_self]
    have distinct : (((cls.fields.map (·.wireName)).zip results).map Prod.fst).Nodup := by
      rw [List.map_fst_zip (by simp [given])]
      exact packed.names
    rw [instantiate_eq_ok_iff isClass, names, ofPairs_entriesOf distinct, ← Value.ofFields_eq]
    rfl
  constructor
  · rintro ⟨wire, isPlain, isRead⟩
    have plains := exists_plain_of_holding isPlain
    obtain ⟨entries, isOwn, held⟩ := exists_plain_of_packs packs packed.names plains
    cases isOwn.symm.trans isPlain
    rw [read, Value.ofFields_eq, readAt_record isRecord, bind_eq_ok_iff] at isRead
    obtain ⟨named, areValues, isMade⟩ := isRead
    obtain ⟨results, areFields, rfl⟩ := fieldValues_eq_ok_zip_iff.mp areValues
    have areRead := (readFields_iff outlined packed packs plains held [] results).mp areFields
    exact ⟨results, areRead, (made_iff areRead).mp isMade⟩
  · rintro ⟨results, areRead, isMade⟩
    have plains (entry) (isEntry : entry ∈ cls.fields.zip values) :
        ∃ wire, Plain.plain entry.2 = .ok wire := by
      obtain ⟨_, -, wire, isPlain, -⟩ := exists_right_of_mem areRead isEntry
      exact ⟨wire, isPlain⟩
    obtain ⟨entries, isPlain, held⟩ := exists_plain_of_packs packs packed.names plains
    have areFields := (readFields_iff outlined packed packs plains held [] results).mpr areRead
    refine ⟨_, isPlain, ?_⟩
    rw [read, Value.ofFields_eq, readAt_record isRecord, bind_eq_ok_iff]
    exact ⟨_, fieldValues_of_aligned areFields, (made_iff areRead).mpr isMade⟩

/-- An instance comes back of its plain form if the values of its fields survive the outlines of their
types. -/
theorem reads_of_survives (takesValues : registry.library.TakesValues) (proper : key ≠ .base)
    (isRecord : descriptor.record? registry.structs = some record) (isClass : record.cls = some key)
    (found : registry.catalog.get? key = some cls) (settled : registry.catalog.undeclared? key = none)
    (survive : ∀ entry ∈ cls.fields.zip values,
      Survives registry entry.1.type.outline entry.1.type entry.2) :
    ReadsPlain registry descriptor (cls.holding values) (cls.holding values) := by
  rw [forall_survives_iff registry (cls.fields.zip values) (fun entry => entry.1.type.outline)
    (fun entry => entry.1.type) Prod.snd] at survive
  obtain ⟨results, areRead, areTaken⟩ := survive
  exact (reads_holding_iff outlined packed packs isRecord isClass).mpr ⟨results, areRead,
    takesValues.makes proper found settled packed.names packs.complete areTaken packs.permitted⟩

/-- The values of an instance that comes back of its plain form survive the outlines of their types. -/
theorem survives_of_reads (takesValues : registry.library.TakesValues)
    (refusesValues : registry.library.RefusesValues)
    (isRecord : descriptor.record? registry.structs = some record) (isClass : record.cls = some key)
    (found : registry.catalog.get? key = some cls)
    (reads : ReadsPlain registry descriptor (cls.holding values) (cls.holding values)) :
    ∀ entry ∈ cls.fields.zip values,
      Survives registry entry.1.type.outline entry.1.type entry.2 := by
  obtain ⟨results, areRead, isMade⟩ :=
    (reads_holding_iff outlined packed packs isRecord isClass).mp reads
  have given : results.length = cls.fields.length := by
    rw [← areRead.length_eq, List.length_zip, packs.complete, min_self]
  obtain ⟨held, same, complete, areHeld⟩ := takesValues.holds found packed.names given isMade
  obtain rfl : values = held := by
    injection same with _ same
    have sameHeld := congrArg (List.map Prod.snd) same
    rwa [List.map_snd_zip (by simp [packs.complete]), List.map_snd_zip (by simp [complete])] at sameHeld
  have decided : List.Forall₂ (fun field result =>
      (∃ taken, field.type.Takes result taken) ∨ field.type.Refuses result) cls.fields results := by
    refine (aligned_fst_iff packs.complete.symm).mp
      (aligned_of_mem areRead fun entry isEntry result reads => ?_)
    have isPacked := packed.types entry.1 (List.of_mem_zip isEntry).1
    exact takes_or_refuses_of_readsPlain isPacked.isBasic_outline isPacked (packs.each entry isEntry)
      reads
  -- An instance was made, so nothing that was read is refused.
  have areTaken : List.Forall₂ (fun field result => ∃ taken, field.type.Takes result taken)
      cls.fields results := by
    obtain ⟨sameLength, decided⟩ := List.forall₂_iff_zip.mp decided
    refine List.forall₂_iff_zip.mpr ⟨sameLength, fun isSlot => (decided isSlot).resolve_right ?_⟩
    exact fun refuses => refusesValues found packed.names given ⟨_, isSlot, refuses⟩ isMade
  intro entry isEntry
  have related := areRead.mp (fun _ _ => And.intro) (areHeld.flip.mp (fun _ _ => And.intro)
    ((aligned_fst_iff packs.complete.symm).mpr areTaken))
  obtain ⟨result, -, reads, ⟨holds, -⟩, taken, takes⟩ := exists_right_of_mem related isEntry
  exact ⟨result, reads, holds taken takes ▸ takes⟩

end Holding

/-! ## Round trips -/

/-- The struct that is derived of a class whose fields hold containers has a field for each, described
by the outline of its type. -/
theorem exists_outlined {declared : List ClassKey} (reached : Registry.Reached registry declared)
    (derived : key ∉ declared) (found : registry.catalog.get? key = some cls)
    (packed : cls.IsPacked) :
    ∃ id after, Yields (Registry.fromClass key) registry id after ∧
      after.catalog = registry.catalog ∧ after.library = registry.library ∧
        (after.structs.at id).cls = some key ∧
        List.Forall₂ (fun field declared => declared.name = field.wireName ∧
          declared.type = field.type.outline) cls.fields (after.structs.at id).fields := by
  have family := packed.isFamily found
  have isKey := List.mem_singleton_self key
  have proceeds := Registry.proceeds_fromClass (family.isSettled isKey) (family.not_fails isKey)
    registry ⟨rfl, reached.mirrors⟩
  obtain ⟨id, after, yields, ⟨sameCatalog, mirrored⟩, extended, entered⟩ := proceeds.exists_yields
  obtain ⟨other, fields, isFound, -, isStruct, aligned⟩ := mirrored.mirrors key id entered derived
  rw [sameCatalog, found] at isFound
  cases isFound
  refine ⟨id, after, yields, sameCatalog, extended.library, by rw [isStruct]; rfl, ?_⟩
  rw [isStruct]
  refine aligned_of_mem aligned fun field isField declared mirrored => ?_
  exact ⟨mirrored.isDeclared.name, (packed.types field isField).eq_outline mirrored.type⟩

/-- An instance of a class whose fields hold containers comes back if each field holds what the outline
of its type carries, as it does whatever it holds where all types are described in full. It comes back
only then, provided that no instance is made of what is refused. -/
theorem containers_round_trip {declared : List ClassKey}
    (takesValues : registry.library.TakesValues) (proper : key ≠ .base)
    (reached : Registry.Reached registry declared) (derived : key ∉ declared)
    (found : registry.catalog.get? key = some cls) (packed : cls.IsPacked)
    (packs : cls.Packs registry.library values) :
    ((∀ entry ∈ cls.fields.zip values, entry.1.type.outline.Carries entry.1.type entry.2) →
      RoundTrips registry key (cls.holding values)) ∧
    ((∀ field ∈ cls.fields, field.type.IsUniform) → RoundTrips registry key (cls.holding values)) ∧
    (registry.library.RefusesValues → RoundTrips registry key (cls.holding values) →
      ∀ entry ∈ cls.fields.zip values, entry.1.type.outline.Carries entry.1.type entry.2) := by
  obtain ⟨id, after, yields, sameCatalog, sameLibrary, isClass, outlined⟩ :=
    exists_outlined reached derived found packed
  rw [← sameLibrary] at takesValues packs
  have settled := packed.undeclared?_eq_none found
  rw [← sameCatalog] at found settled
  have isRecord : (Descriptor.struct id).record? after.structs = some (after.structs.at id).view := rfl
  have survives_iff : (∀ entry ∈ cls.fields.zip values,
      Survives after entry.1.type.outline entry.1.type entry.2) ↔
        ∀ entry ∈ cls.fields.zip values, entry.1.type.outline.Carries entry.1.type entry.2 :=
    forall₂_congr fun entry isEntry => by
      have isPacked := packed.types entry.1 (List.of_mem_zip isEntry).1
      exact survives_iff isPacked.isBasic_outline isPacked (packs.each entry isEntry)
  have roundTrips (carried : ∀ entry ∈ cls.fields.zip values,
      entry.1.type.outline.Carries entry.1.type entry.2) :
      RoundTrips registry key (cls.holding values) := by
    obtain ⟨wire, isPlain, reads⟩ := reads_of_survives outlined packed packs takesValues proper isRecord
      isClass found settled (survives_iff.mpr carried)
    exact ⟨wire, id, after, isPlain, yields, reads⟩
  refine ⟨roundTrips, fun uniform => roundTrips fun entry isEntry => ?_, ?_⟩
  · exact (uniform entry.1 (List.of_mem_zip isEntry).1).carries (packs.each entry isEntry)
  · rintro refusesValues ⟨wire, otherId, otherAfter, isPlain, yieldsOther, reads⟩
    cases yields.symm.trans yieldsOther
    exact survives_iff.mp (survives_of_reads outlined packed packs takesValues
      (sameLibrary ▸ refusesValues) isRecord isClass found ⟨wire, isPlain, reads⟩)

/-- A class of baskets, each with the numbers of its parts, its tags, a weight in some unit, and notes
of any kind. -/
def basketClass : RecordClass :=
  ⟨.declared 0, "Basket", none, [.base],
    [⟨"parts", none, .collection .list (.scalar .int), .required, none, .none⟩,
     ⟨"labels", some "tags", .collection .set (.scalar .string), .required, none, .none⟩,
     ⟨"weight", none, .tuple [.scalar .string, .scalar .int], .required, none, .none⟩,
     ⟨"notes", none, .bare .list, .made .list, none, .none⟩]⟩

def baskets : Registry := ⟨.reference, [basketClass], [("Basket", .record (.declared 0))], [], [], []⟩

theorem reached_baskets : Registry.Reached baskets [] := by
  have declares : Yields (Registry.addClass "Basket" "Basket" none [.base] basketClass.fields) .empty
      (.declared 0) baskets := rfl
  exact .cls (.fresh _) declares

theorem basketClass_isPacked : basketClass.IsPacked := by
  constructor
  · simp only [basketClass, List.forall_mem_cons, List.not_mem_nil, false_imp_iff, implies_true,
      and_true]
    refine ⟨.collection (.scalar rfl), .collection (.scalar rfl), .tuple ?_, .bare _⟩
    simp only [List.forall_mem_cons, List.not_mem_nil, false_imp_iff, implies_true, and_true]
    exact ⟨.scalar rfl, .scalar rfl⟩
  · decide
  · simp [basketClass]

/-- What a basket of three kilograms holds, with a note. -/
def basketValues : List Value :=
  [.list [.int 1, .int 2], .set [.str "red"], .tuple [.str "kg", .int 3], .list [.str "ripe"]]

theorem basketClass_packs : basketClass.Packs .reference basketValues := by
  refine ⟨rfl, ?_, fun entry isEntry => ?_⟩
  · simp only [basketClass, basketValues, List.zip_cons_cons, List.zip_nil_left, List.forall_mem_cons,
      List.not_mem_nil, false_imp_iff, implies_true, and_true]
    have unlimited (items : List Value) : Collection.list.Admits items := fun unique => by cases unique
    refine ⟨@TypeExpr.Packs.collection .list _ _ (unlimited _) ?_,
      @TypeExpr.Packs.collection .set _ _ ?_ ?_, .tuple rfl ?_,
      @TypeExpr.Packs.bare .list _ (unlimited _)⟩
    · simp only [List.forall_mem_cons, List.not_mem_nil, false_imp_iff, implies_true, and_true]
      exact ⟨.int 1, .int 2⟩
    · exact fun _ => ⟨List.pairwise_singleton _ _, List.forall_mem_singleton.mpr rfl⟩
    · exact List.forall_mem_singleton.mpr (.string "red")
    · simp only [List.zip_cons_cons, List.zip_nil_left, List.forall_mem_cons, List.not_mem_nil,
        false_imp_iff, implies_true, and_true]
      exact ⟨.string "kg", .int 3⟩
  · have unlimited : ∀ field ∈ basketClass.fields, field.limits = .none := by simp [basketClass]
    exact ClassLibrary.permits_of_unlimited (unlimited _ (List.of_mem_zip isEntry).1) _

theorem carries_basketValues : ∀ entry ∈ basketClass.fields.zip basketValues,
    entry.1.type.outline.Carries entry.1.type entry.2 := by
  simp only [basketClass, basketValues, List.zip_cons_cons, List.zip_nil_left, List.forall_mem_cons,
    List.not_mem_nil, false_imp_iff, implies_true, and_true]
  refine ⟨@Descriptor.Carries.collection _ .list _ _ ?_, @Descriptor.Carries.collection _ .set _ _ ?_,
    .tuple ?_, @Descriptor.Carries.bare _ .list _ ?_⟩
  · simp only [List.forall_mem_cons, List.not_mem_nil, false_imp_iff, implies_true, and_true]
    exact ⟨.own (.int 1), .own (.int 2)⟩
  · exact List.forall_mem_singleton.mpr (.own (.string "red"))
  · simp only [List.zip_cons_cons, List.zip_nil_left, List.forall_mem_cons, List.not_mem_nil,
      false_imp_iff, implies_true, and_true]
    exact ⟨.own (.string "kg"), .digits (by decide)⟩
  · exact List.forall_mem_singleton.mpr (.string "ripe")

/-- The basket comes back: the amount of the weight is read as a text, of which the number is made
again, and all its notes are texts. -/
theorem basket_comes_back : baskets.library.TakesValues ∧ baskets.library.RefusesValues ∧
    ClassKey.declared 0 ≠ .base ∧ Registry.Reached baskets [] ∧
      ClassKey.declared 0 ∉ ([] : List ClassKey) ∧
        baskets.catalog.get? (.declared 0) = some basketClass ∧ basketClass.IsPacked ∧
          basketClass.Packs baskets.library basketValues ∧
            RoundTrips baskets (.declared 0) (basketClass.holding basketValues) ∧
              ∀ entry ∈ basketClass.fields.zip basketValues,
                entry.1.type.outline.Carries entry.1.type entry.2 := by
  have takesValues : baskets.library.TakesValues := ClassLibrary.reference_takesValues
  have refusesValues : baskets.library.RefusesValues := ClassLibrary.reference_refusesValues
  have proper : ClassKey.declared 0 ≠ .base := nofun
  obtain ⟨comesBack, -, isCarried⟩ := containers_round_trip takesValues proper reached_baskets
    List.not_mem_nil rfl basketClass_isPacked basketClass_packs
  have roundTrips : RoundTrips baskets (.declared 0) (basketClass.holding basketValues) :=
    comesBack carries_basketValues
  exact ⟨takesValues, refusesValues, proper, reached_baskets, List.not_mem_nil, rfl,
    basketClass_isPacked, basketClass_packs, roundTrips, isCarried refusesValues roundTrips⟩

/-- An instance does not come back if something else is read of its plain form. -/
theorem not_roundTrips_of_ne {value wire other : Value} {id : StructId} {after : Registry}
    (isPlain : Plain.plain value = .ok wire)
    (yields : Yields (Registry.fromClass key) registry id after)
    (reads : read after wire (.struct id) = .ok other) (different : other ≠ value) :
    ¬RoundTrips registry key value := by
  rintro ⟨_, _, _, isOther, yieldsOther, readsValue⟩
  cases isPlain.symm.trans isOther
  cases yields.symm.trans yieldsOther
  exact different (Except.ok.inj (reads.symm.trans readsValue))

/-- Classes make instances that are lost: of a container without types that holds anything but texts, of
a fixed sequence of items of different types, with fields that are written under one name, whose struct
cannot be derived, with a default that is no container, and of a struct that was declared with another
description of a field than its class has. -/
theorem containers_lost :
    Catalog.Loses [holderClass (.bare .list) .required] (.declared 0)
      [(.str "held", .list [.int 1])] ∧
    Catalog.Loses [holderClass (.tuple [.scalar .int, .scalar .string]) .required] (.declared 0)
      [(.str "held", .tuple [.int 1, .str "x"])] ∧
    Catalog.Loses [⟨.declared 0, "Holder", none, [.base],
        [⟨"first", some "held", .collection .list (.scalar .int), .required, none, .none⟩,
         ⟨"second", some "held", .collection .set (.scalar .int), .required, none, .none⟩]⟩]
      (.declared 0) [(.str "held", .list [.int 1, .int 1])] ∧
    Catalog.Loses [holderClass (.collection .list (.scalar .int)) (.made .failing)] (.declared 0)
      [(.str "held", .list [])] ∧
    Catalog.Loses [holderClass (.collection .list (.scalar .int)) (.default .null)] (.declared 0) [] ∧
    ∃ id after, Yields (Registry.defineStruct "Holder" "Holder"
        [⟨"held", .fixed ⟨[⟨"n", .scalar .int, true, none, none⟩], none, none, none⟩, true, none, none⟩]
        none) .empty id after ∧
      ∃ made, after.library.validate after.catalog (.declared 0)
        (.object [(.str "held", .object [])]) = .ok made ∧ ¬RoundTrips after (.declared 0) made := by
  refine ⟨⟨_, rfl, ?_⟩, ⟨_, rfl, ?_⟩, ⟨_, rfl, ?_⟩, ⟨_, rfl, ?_⟩, ⟨_, rfl, ?_⟩, _, _, rfl, _, rfl, ?_⟩
  · exact not_roundTrips_of_ne rfl rfl rfl (by simp [holderClass, Collection.collect])
  · exact not_roundTrips_of_error rfl rfl rfl
  · exact not_roundTrips_of_ne rfl rfl rfl (by simp [Collection.collect])
  · rintro ⟨wire, id, after, -, yields, -⟩
    cases yields
  · exact not_roundTrips_of_error rfl rfl rfl
  · exact not_roundTrips_of_error rfl rfl rfl

end TypedReply
