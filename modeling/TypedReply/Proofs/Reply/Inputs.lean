import TypedReply.Proofs.Registry.Fitted
import TypedReply.Proofs.Reply.Soundness

/-!
# What is read is held as declared

Where every record has a class with fields that suit, or none at all, whatever is read is held as
declared: scalars are converted, objects become instances, and a field that is not given takes its
default. An instance that is given is kept, so it has to be held as declared itself.
-/

namespace TypedReply

open Read Registry

variable {registry : Registry} {descriptor : Descriptor} {raw value : Value}

namespace Registry

/-- The defaults of a record are held as declared, or null where the field need not be given. -/
def HoldsDefaults (registry : Registry) (descriptor : Descriptor) : Prop :=
  ∀ field ∈ descriptor.fields registry.structs, ∀ value, field.default = some value →
    ¬field.IsLacking value → registry.Holds field.type value

/-- What reading relies on. -/
structure Ready (registry : Registry) (descriptor : Descriptor) : Prop where
  fitted : registry.Fitted descriptor
  defaults : registry.HoldsDefaults descriptor

end Registry

/-- A value is another one or stands in it, in a list or in an object. -/
inductive Value.Contains : Value → Value → Prop where
  | self (value : Value) : Contains value value
  | item {value item part : Value} {items : List Value} (isList : value.items? = some items)
      (isItem : item ∈ items) (contains : Contains item part) : Contains value part
  | entry {value part : Value} {entries : Value.Entries} {entry : Value × Value}
      (isObject : value.entries? = some entries) (isEntry : entry ∈ entries)
      (contains : Contains entry.2 part) : Contains value part

/-- A value is no instance, and no instance stands in it. -/
def Value.IsRaw (value : Value) : Prop :=
  ∀ part, value.Contains part → ∀ tag fields, part ≠ .record tag fields

theorem Value.isRaw_str (text : String) : (Value.str text).IsRaw := by
  intro part contains
  cases contains with
  | self => nofun
  | item isList => cases isList
  | entry isObject => cases isObject

theorem Value.isRaw_list {items : List Value} (each : ∀ item ∈ items, item.IsRaw) :
    (Value.list items).IsRaw := by
  intro part contains
  cases contains with
  | self => nofun
  | item isList isItem contains =>
      cases isList
      exact each _ isItem part contains
  | entry isObject => cases isObject

theorem Value.isRaw_ofFields {fields : Fields} (each : ∀ field ∈ fields, field.2.IsRaw) :
    (Value.ofFields fields).IsRaw := by
  intro part contains
  cases contains with
  | self => nofun
  | item isList => cases isList
  | entry isObject isEntry contains =>
      cases isObject
      obtain ⟨field, isField, rfl⟩ := List.mem_map.mp isEntry
      exact each field isField part contains

namespace Registry

/-- Every instance in a value is held as the records declare that a descriptor reaches and whose class
it is of. -/
def Genuine (registry : Registry) (descriptor : Descriptor) (raw : Value) : Prop :=
  ∀ part, raw.Contains part → ∀ found record,
    Descriptor.Reaches registry.structs descriptor found →
      found.record? registry.structs = some record → isInstanceOf record part = true →
        registry.Holds found part

theorem Genuine.of_isRaw (isRaw : raw.IsRaw) : registry.Genuine descriptor raw := by
  intro part contains found record _ _ isInstance
  cases part with
  | record tag fields => exact (isRaw _ contains tag fields rfl).elim
  | _ =>
      unfold isInstanceOf at isInstance
      split at isInstance <;> cases isInstance

theorem Genuine.of_part {part : Descriptor} (genuine : registry.Genuine descriptor raw)
    (isPart : Descriptor.Part registry.structs descriptor part) : registry.Genuine part raw :=
  fun inner contains found record reaches =>
    genuine inner contains found record (.head isPart reaches)

theorem Genuine.of_item {items : List Value} (genuine : registry.Genuine descriptor raw)
    (isList : raw.items? = some items) {item : Value} (isItem : item ∈ items) :
    registry.Genuine descriptor item :=
  fun part contains => genuine part (.item isList isItem contains)

theorem Genuine.of_entry {entries : Value.Entries} (genuine : registry.Genuine descriptor raw)
    (isObject : raw.entries? = some entries) {entry : Value × Value} (isEntry : entry ∈ entries) :
    registry.Genuine descriptor entry.2 :=
  fun part contains => genuine part (.entry isObject isEntry contains)

end Registry

/-- What a value is read as is held as declared. -/
def IsReadHeld (registry : Registry) (raw : Value) : Prop :=
  ∀ descriptor path value, descriptor.Throughout registry.structs registry.Ready →
    registry.Genuine descriptor raw → readAt registry raw descriptor path = .ok value →
      registry.Holds descriptor value

namespace Read

/-! ## Records -/

/-- Values that are given one by one under the names of fields go with the fields. -/
theorem exists_pairs_of_aligned {holds : Field → Value → Prop} {fields : List Field}
    {results : List (Value × Value)} (aligned : List.Forall₂ (fun field result =>
      ∃ value, holds field value ∧ (Value.str field.name, value) = result) fields results) :
    ∃ pairs : List (Field × Value), fields = pairs.map Prod.fst ∧
      results = Value.entriesOf (pairs.map fun pair => (pair.1.name, pair.2)) ∧
      ∀ pair ∈ pairs, holds pair.1 pair.2 := by
  induction aligned with
  | nil => exact ⟨[], rfl, rfl, List.forall_mem_nil _⟩
  | cons first _ ih =>
      obtain ⟨value, isHeld, rfl⟩ := first
      obtain ⟨pairs, rfl, rfl, each⟩ := ih
      exact ⟨(_, value) :: pairs, rfl, rfl, List.forall_mem_cons.mpr ⟨isHeld, each⟩⟩

section Records

variable {entries : Value.Entries} {path : Path}
variable (ready : descriptor.Throughout registry.structs registry.Ready)
variable (held : ∀ name part, entries.get? name = some part → IsReadHeld registry part ∧
  registry.Genuine descriptor part)
include ready held

theorem holds_of_readField {field : Field} (isField : field ∈ descriptor.fields registry.structs)
    (isRead : readField registry.structs (descriptor.fields registry.structs) entries
      ((Value.object entries).parts (read registry)) field path = .ok value)
    (notLacking : ¬field.IsLacking value) : registry.Holds field.type value := by
  have ofFallback (dispensable : field.required = true → field.default.isSome = true)
      (falls : fallback field = value) : registry.Holds field.type value := by
    unfold fallback at falls
    cases declared : field.default with
    | some default =>
        rw [declared] at falls
        rw [Option.getD_some] at falls
        exact ready.here.defaults field isField value (falls ▸ declared) notLacking
    | none =>
        rw [declared] at falls dispensable
        have optional : field.required = false := by
          rw [← Bool.not_eq_true]
          exact fun required => nomatch dispensable required
        exact (notLacking ⟨optional, falls.symm⟩).elim
  unfold readField at isRead
  rw [Value.get?_parts] at isRead
  cases isPart : entries.get? field.name with
  | none =>
      simp only [isPart, Option.map_none, absentField] at isRead
      split at isRead
      next dispensable =>
        refine ofFallback (fun required => ?_) (Except.ok.inj isRead)
        simpa [required] using dispensable
      · cases isRead
  | some part =>
      simp only [isPart, Option.map_some, presentField, Value.toPart] at isRead
      split at isRead
      next isNull =>
        simp only [Bool.and_eq_true, Bool.not_eq_true'] at isNull
        exact ofFallback (by simp [isNull.1.2]) (Except.ok.inj isRead)
      have readyType := ready.of_part (.field isField)
      split at isRead
      next selected =>
        obtain ⟨other, isOther, -, members, isUnion, -⟩ := exists_field_of_discriminated? selected
        have readyOther := ready.of_part (.field isOther)
        exfalso
        cases type : other.type with
        | optional inner =>
            rw [type] at readyOther isUnion
            exact (readyOther.of_part (.inner inner)).here.fitted.ne_union members isUnion
        | _ =>
            rw [type] at readyOther isUnion
            exact readyOther.here.fitted.ne_union members isUnion
      next =>
        obtain ⟨isHeld, genuine⟩ := held field.name part isPart
        exact isHeld _ _ _ readyType (genuine.of_part (.field isField)) isRead

/-- What the fields of a record are read as is held as declared, unless it is null that need not be
given. -/
theorem exists_pairs_of_fieldValues {results : List (Value × Value)}
    (areRead : fieldValues registry.structs entries ((Value.object entries).parts (read registry))
      (descriptor.fields registry.structs) path = .ok results) :
    ∃ pairs : List (Field × Value), descriptor.fields registry.structs = pairs.map Prod.fst ∧
      results = Value.entriesOf (pairs.map fun pair => (pair.1.name, pair.2)) ∧
      ∀ pair ∈ pairs, ¬pair.1.IsLacking pair.2 → registry.Holds pair.1.type pair.2 := by
  apply @exists_pairs_of_aligned fun field value =>
    ¬field.IsLacking value → registry.Holds field.type value
  apply aligned_of_mem (fieldValues_eq_ok_iff.mp areRead)
  rintro field isField result ⟨value, isRead, same⟩
  exact ⟨value, holds_of_readField ready held isField isRead, same⟩

end Records

/-- A record is read as what is held as it declares: an instance that is given, one that the class makes
of an object, or, without a class, an object. -/
theorem holds_of_readRecord (takesValues : registry.library.TakesValues) {record : RecordView}
    {path : Path} (isRecord : descriptor.record? registry.structs = some record)
    (ready : descriptor.Throughout registry.structs registry.Ready)
    (genuine : registry.Genuine descriptor raw)
    (held : ∀ entries, raw.entries? = some entries → ∀ name part, entries.get? name = some part →
      IsReadHeld registry part ∧ registry.Genuine descriptor part)
    (isRead : readRecord registry raw (raw.parts (read registry)) record path = .ok value) :
    registry.Holds descriptor value := by
  unfold readRecord at isRead
  split at isRead
  next isInstance =>
    cases isRead
    exact genuine _ (.self _) descriptor record .refl isRecord isInstance
  split at isRead
  · cases isRead
  next entries isObject =>
    obtain ⟨results, areRead, made⟩ := bind_eq_ok_iff.mp isRead
    obtain rfl := Value.entries?_eq_some_iff.mp isObject
    rw [Descriptor.fields_of_record? isRecord] at areRead
    obtain ⟨pairs, declared, rfl, holds⟩ :=
      exists_pairs_of_fieldValues ready (held entries rfl) areRead
    have distinct := (List.nodup_cons.mp (ready.here.fitted.names isRecord)).2
    rw [Descriptor.fields_of_record? isRecord, declared, List.map_map] at distinct
    rw [ofPairs_entriesOf (by rw [List.map_map]; exact distinct)] at made
    rw [← Descriptor.fields_of_record? isRecord] at declared
    unfold instantiate at made
    cases ready.here.fitted with
    | @object fixed classless =>
        cases isRecord
        rw [show (FixedRecord.view fixed).cls = none from classless] at made
        cases made
        refine .object classless declared distinct (fun pair isPair _ => ?_) holds
        have sameFields : fixed.fields = pairs.map Prod.fst := declared
        have isField : pair.1 ∈ fixed.fields := sameFields ▸ List.mem_map_of_mem isPair
        exact Fitted.isNullable fun found reaches =>
          (ready found (.head (.field isField) reaches)).fitted
    | record isSame _ isClass _ found _ names suits =>
        cases isRecord.symm.trans isSame
        rw [isClass] at made
        dsimp only at made
        split at made
        next isMade =>
          cases made
          exact holds_of_validate takesValues isRecord isClass found names suits declared holds isMade
        next rejection _ => cases rejection <;> cases made
    | _ => cases isRecord

/-! ## Lists and maps -/

theorem holds_of_readItems {element : Descriptor} {path : Path} {position : Nat}
    {items results : List Value}
    (held : ∀ item ∈ items, ∀ path value, readAt registry item element path = .ok value →
      registry.Holds element value)
    (areRead : readItems element path position (items.map (Value.toPart (read registry))) =
      .ok results) : ∀ result ∈ results, registry.Holds element result := by
  induction items generalizing position results with
  | nil =>
      cases areRead
      exact List.forall_mem_nil _
  | cons item items ih =>
      simp only [List.map_cons, readItems, bind_eq_ok_iff] at areRead
      obtain ⟨first, isFirst, rest, areRest, done⟩ := areRead
      cases done
      refine List.forall_mem_cons.mpr ⟨held item List.mem_cons_self _ _ isFirst, ?_⟩
      exact ih (fun other isOther => held other (List.mem_cons_of_mem _ isOther)) areRest

theorem exists_name_of_readEntry {element : Descriptor} {path : Path}
    {entry : Value × Value} {result : ReadKey × Value}
    (isRead : readEntry (.scalar .string) element path
      (entry.1.toPart (read registry), entry.2.toPart (read registry)) = .ok result) :
    ∃ name path value, readAt registry entry.2 element path = .ok value ∧
      result = (⟨.str name, none⟩, value) := by
  simp only [readEntry, Value.toPart, bind_eq_ok_iff] at isRead
  obtain ⟨key, keyRead, value, valueRead, checked⟩ := isRead
  have isText : matchesScalar .string key = true := by
    change readAt registry entry.1 _ _ = _ at keyRead
    rw [readAt_eq] at keyRead
    exact matchesScalar_of_coerceScalar keyRead
  cases key with
  | str name =>
      cases checked
      exact ⟨name, _, value, valueRead, congrArg (·, value) (keyOf_scalar .string entry.1 _)⟩
  | _ => cases isText

/-- Entries with text keys are read as an object with text keys. -/
theorem holds_of_readEntries {element : Descriptor} {path : Path} {entries : Value.Entries}
    {results : List (ReadKey × Value)}
    (held : ∀ entry ∈ entries, ∀ path value, readAt registry entry.2 element path = .ok value →
      registry.Holds element value)
    (areRead : ((Value.object entries).parts (read registry)).entries.mapM
      (readEntry (.scalar .string) element path) = .ok results) :
    registry.Holds (.map (.scalar .string) element) (mapOf results) := by
  rw [mapM_eq_ok_iff, Value.parts_entries _ rfl, List.forall₂_map_left_iff] at areRead
  have each : ∀ result ∈ results, ∃ field : String × Value, registry.Holds element field.2 ∧
      result = (⟨.str field.1, none⟩, field.2) := by
    intro result isResult
    obtain ⟨entry, isEntry, isRead⟩ := exists_left_of_mem areRead isResult
    obtain ⟨name, path, value, valueRead, same⟩ := exists_name_of_readEntry isRead
    exact ⟨(name, value), held entry isEntry path value valueRead, same⟩
  obtain ⟨fields, aligned⟩ := exists_aligned each
  have same : results = (Value.entriesOf fields).map (Prod.map (⟨·, none⟩) id) := by
    rw [← List.map_id results, Value.entriesOf, List.map_map]
    exact map_eq_of_aligned aligned fun result _ field related => related.2
  rw [same, mapOf_nameless, ofPairs_entriesOf_eq]
  refine .map (Fields.nodup_putAll (by simp) fields) fun field isField => ?_
  rcases Fields.mem_or_mem_of_mem_putAll isField with isOld | isNew
  · cases isOld
  · obtain ⟨result, -, holds, -⟩ := exists_left_of_mem aligned isNew
    exact holds

end Read

/-! ## All values -/

theorem isReadHeld (takesValues : registry.library.TakesValues) (raw : Value) :
    IsReadHeld registry raw := by
  induction raw using Value.induction_parts with
  | step raw items entries =>
      intro descriptor path value ready genuine isRead
      have heldParts {descriptor : Descriptor} (genuine : registry.Genuine descriptor raw) (found)
          (isObject : raw.entries? = some found) (name) (part) (isPart : found.get? name = some part) :
          IsReadHeld registry part ∧ registry.Genuine descriptor part := by
        obtain ⟨key, isEntry⟩ := Value.Entries.exists_mem_of_get? isPart
        exact ⟨(entries found isObject _ isEntry).2, genuine.of_entry isObject isEntry⟩
      rw [readAt_eq] at isRead
      -- What is in an optional is read of the same value, so the descriptor is gone through as well.
      induction descriptor using Descriptor.induction generalizing value with
      | scalar kind =>
          simp only [Read.read] at isRead
          exact .scalar (matchesScalar_of_coerceScalar isRead)
      | array element =>
          simp only [Read.read] at isRead
          split at isRead
          next isList =>
            obtain ⟨found, isList⟩ := Option.isSome_iff_exists.mp isList
            obtain ⟨results, areRead, rfl⟩ := map_eq_ok_iff.mp isRead
            rw [Value.parts_items, Value.iterated_of_items? isList] at areRead
            rw [Value.iterated_of_items? isList] at items
            refine .array (holds_of_readItems (fun item isItem path value isRead => ?_) areRead)
            exact items item isItem element path value (ready.of_part (.element element))
              ((genuine.of_part (.element element)).of_item isList isItem) isRead
          · cases isRead
      | map key element =>
          simp only [Read.read] at isRead
          split at isRead
          next isObject =>
            obtain ⟨found, isObject⟩ := Option.isSome_iff_exists.mp isObject
            obtain ⟨results, areRead, rfl⟩ := map_eq_ok_iff.mp isRead
            obtain rfl := Value.entries?_eq_some_iff.mp isObject
            obtain rfl := ready.here.fitted.key_eq
            refine holds_of_readEntries (fun entry isEntry path value isRead => ?_) areRead
            have isPart : Descriptor.Part registry.structs _ element := .value (.scalar .string) element
            exact (entries found rfl entry isEntry).2 element path value (ready.of_part isPart)
              ((genuine.of_part isPart).of_entry rfl isEntry) isRead
          · cases isRead
      | optional inner ih =>
          have isPart : Descriptor.Part registry.structs _ inner := .inner inner
          have readyInner := ready.of_part isPart
          have genuineInner := genuine.of_part isPart
          simp only [Read.read] at isRead
          split at isRead
          next isNull =>
            obtain rfl := Value.isNull_iff.mp isNull
            cases isRead
            exact .absent readyInner.here.fitted.enum?_eq
          split at isRead
          next tag name record selected =>
            have isRecord := (record?_of_tagged? selected).1
            rcases readTagged_cases registry raw _ tag [(name, record)] path with
              ⟨_, _, isOnly, same⟩ | ⟨error, refused⟩
            · cases List.mem_singleton.mp isOnly
              exact .present (holds_of_readRecord takesValues isRecord readyInner genuineInner
                (heldParts genuineInner) (same ▸ isRead))
            · cases refused.symm.trans isRead
          next => exact .present (ih value readyInner genuineInner isRead)
      | fixed record =>
          simp only [Read.read] at isRead
          exact holds_of_readRecord takesValues rfl ready genuine (heldParts genuine) isRead
      | struct id =>
          simp only [Read.read] at isRead
          exact holds_of_readRecord takesValues rfl ready genuine (heldParts genuine) isRead
      | union members => exact (ready.here.fitted.ne_union members rfl).elim
      | _ => cases ready.here.fitted with | record isRecord => cases isRecord

end TypedReply
