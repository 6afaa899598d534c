import TypedReply.Proofs.Plain
import TypedReply.Proofs.Record.Taking
import TypedReply.Proofs.Reply.Reading

/-!
# Values that are read back

The plain form of a value is read back against a descriptor if the plain forms of its parts are. That
of an instance begins with the tag of its class and holds, under their wire names, the fields that
are not left out, so it is read back against a record of the class if every field is read back where
it stands and the class keeps the values.
-/

namespace TypedReply

open Read

/-! ## Scalars -/

/-- The text of a moment is coerced to what is read of it. -/
theorem coerceScalar_dateTimeText (t : DateTime) (path : Path) :
    coerceScalar .datetime (.str (String.ofList (Iso.dateTimeText 'T' t))) path =
      .ok (.datetime t.asRead) := by
  simp [coerceScalar, matchesScalar, Coerce.isScalar, Coerce.convert, Coerce.toDateTime,
    Value.text?, Coerce.dateTimeOfText?_dateTimeText, Except.map]

theorem exists_coerceScalar_plain {kind : ScalarKind} {value : Value} (admits : kind.Admits value) :
    ∃ wire, Plain.plain value = .ok wire ∧ wire.isNull = false ∧
      ∀ path, coerceScalar kind wire path = .ok value := by
  cases admits with
  | string text => exact ⟨.str text, rfl, rfl, fun _ => rfl⟩
  | int n => exact ⟨.int n, rfl, rfl, fun _ => rfl⟩
  | float x => exact ⟨.float x, rfl, rfl, fun _ => rfl⟩
  | bool b => exact ⟨.bool b, rfl, rfl, fun _ => rfl⟩
  | date d =>
      refine ⟨_, rfl, rfl, fun path => ?_⟩
      simp [coerceScalar, matchesScalar, Coerce.isScalar, Coerce.convert, Coerce.toDate,
        Value.text?, Coerce.dateOfText?_dateText, Except.map]
  | @datetime t legible =>
      refine ⟨_, rfl, rfl, fun path => ?_⟩
      rw [coerceScalar_dateTimeText, t.asRead_eq_self_iff.mpr legible]

/-! ## Parts -/

variable {registry : Registry} {descriptor : Descriptor} {value wire : Value}

/-- A plain form is read back as the value whose form it is; it is null only if the value is, and an
instance's carries the tag of its class. -/
structure ReadsBack (registry : Registry) (descriptor : Descriptor) (value wire : Value) : Prop where
  plain : Plain.plain value = .ok wire
  null : wire.isNull = value.isNull
  tagged : ∀ tag fields, value = .record tag fields →
    wire.get? typeKey = some (.str (Plain.tagName tag))
  reads : ReadsAs registry descriptor wire value

namespace ReadsBack

theorem exists_of_admits {kind : ScalarKind} (admits : kind.Admits value) :
    ∃ wire, ReadsBack registry (.scalar kind) value wire := by
  obtain ⟨wire, isPlain, present, coerces⟩ := exists_coerceScalar_plain admits
  refine ⟨wire, isPlain, ?_, ?_, fun path => ?_⟩
  · cases admits <;> exact present
  · rintro tag fields rfl
    cases admits
  · rw [readAt_eq, Read.read]
    exact coerces path

theorem array {element : Descriptor} {items wires : List Value}
    (each : List.Forall₂ (ReadsBack registry element) items wires) :
    ReadsBack registry (.array element) (.list items) (.list wires) where
  plain := by
    rw [Plain.plain]
    exact bind_eq_ok_iff.mpr ⟨wires, Plain.plainItems_eq_ok_iff.mpr
      (each.imp fun item wire back => back.plain), rfl⟩
  null := rfl
  tagged _ _ same := by cases same
  reads := .array (each.flip.imp fun wire item back => back.reads)

theorem map {element : Descriptor} {fields wires : Fields} (distinct : (fields.map Prod.fst).Nodup)
    (each : List.Forall₂ (fun field wire => field.1 = wire.1 ∧
      ReadsBack registry element field.2 wire.2) fields wires) :
    ReadsBack registry (.map (.scalar .string) element) (.ofFields fields) (.ofFields wires) where
  plain := Plain.plain_ofFields distinct (each.imp fun field wire back => ⟨back.1, back.2.plain⟩)
  null := rfl
  tagged _ _ same := by cases same
  reads := by
    rw [Value.ofFields_eq fields, ← ofPairs_entriesOf distinct]
    exact .map (each.flip.imp fun wire field back => ⟨back.1.symm, back.2.reads⟩)

theorem null_optional : ReadsBack registry (.optional descriptor) .null .null where
  plain := rfl
  null := rfl
  tagged _ _ same := by cases same
  reads path := by
    rw [readAt_eq, Read.read]
    exact if_pos rfl

/-- What is read back is so against an optional, if its plain form carries the tag that the optional
demands. -/
theorem optional_of_tagged (back : ReadsBack registry descriptor value wire)
    (tagged : wire.isNull = false → ∀ name, descriptor.tag? registry.structs = some name →
      wire.get? typeKey = some (.str name)) : ReadsBack registry (.optional descriptor) value wire := by
  cases isNull : wire.isNull with
  | true =>
      obtain rfl := Value.isNull_iff.mp (back.null.symm.trans isNull)
      obtain rfl := Value.isNull_iff.mp isNull
      exact null_optional
  | false =>
      refine ⟨back.plain, back.null, back.tagged, fun path => ?_⟩
      rw [readAt_optional isNull (tagged isNull), back.reads path]

end ReadsBack

/-! ## Instances -/

section Instances

variable {cls : RecordClass} {values : List Value} (complete : values.length = cls.fields.length)
include complete

theorem wireNames_instance :
    ((cls.fields.map (·.tag)).zip values).map (·.1.wireName) = cls.fields.map (·.wireName) := by
  rw [List.zip_map_left, List.map_map]
  calc _ = ((cls.fields.zip values).map Prod.fst).map (·.wireName) := by
        rw [List.map_map]
        rfl
    _ = _ := by rw [List.map_fst_zip (Nat.le_of_eq complete.symm)]

/-- The plain form of an instance holds the tag of its class and, under their wire names, the plain
forms of the fields that are not left out. -/
theorem exists_plain_instance (names : (typeKey :: cls.fields.map (·.wireName)).Nodup)
    (plains : ∀ entry ∈ cls.fields.zip values, ∃ wire, Plain.plain entry.2 = .ok wire) :
    ∃ entries : Fields,
      Plain.plain (.record cls.tag ((cls.fields.map (·.tag)).zip values)) = .ok (.ofFields entries) ∧
      entries.get? typeKey = some (.str (Plain.tagName cls.tag)) ∧
      ∀ entry ∈ cls.fields.zip values, ∀ wire, Plain.plain entry.2 = .ok wire →
        entries.get? entry.1.wireName =
          if Plain.isOmitted entry.1.tag entry.2 then none else some wire := by
  have each (field) (isField : field ∈ (cls.fields.map (·.tag)).zip values) :
      ∃ wire, Plain.plain field.2 = .ok wire := by
    rw [List.zip_map_left] at isField
    obtain ⟨entry, isEntry, rfl⟩ := List.mem_map.mp isField
    exact plains entry isEntry
  obtain ⟨entries, isPlain, tagged, -, held⟩ :=
    Plain.exists_plain_record cls.tag (wireNames_instance complete ▸ names) each
  refine ⟨entries, isPlain, tagged, ?_⟩
  intro entry isEntry wire isWire
  apply held (entry.1.tag, entry.2) _ wire isWire
  rw [List.zip_map_left]
  exact List.mem_map.mpr ⟨_, isEntry, rfl⟩

/-- An object is read as what the class makes of the values its fields are read as. -/
theorem readRecord_instance {record : RecordView} {key : ClassKey} (isClass : record.cls = some key)
    (names : record.fields.map (·.name) = cls.fields.map (·.wireName))
    (distinct : (cls.fields.map (·.wireName)).Nodup) {entries : Fields} {path : Path}
    (reads : List.Forall₂ (fun declared value => readField registry.structs record.fields
      (Value.entriesOf entries) ((Value.ofFields entries).parts (Read.read registry)) declared
      (path ++ [Path.key declared.name]) = .ok value) record.fields values)
    (makes : registry.library.validate registry.catalog key (cls.offering values) = .ok value) :
    readRecord registry (.ofFields entries) ((Value.ofFields entries).parts (Read.read registry))
      record path = .ok value := by
  have distinctValues : (((cls.fields.map (·.wireName)).zip values).map Prod.fst).Nodup := by
    rw [List.map_fst_zip (by simp [complete])]
    exact distinct
  rw [Value.ofFields_eq, readRecord_object]
  refine bind_eq_ok_iff.mpr ⟨_, fieldValues_of_aligned reads, ?_⟩
  rw [names, ofPairs_entriesOf distinctValues, instantiate, isClass]
  rw [← Value.ofFields_eq]
  dsimp only
  rw [← RecordClass.offering, makes]

end Instances

end TypedReply
