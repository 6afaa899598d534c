import TypedReply.Proofs.Reply.Containment
import TypedReply.Reference.Library

/-!
# Where errors point

The path of an error leads from the reply to what the error complains about: to the part that was
received, to the object in which a required field is missing, or to the object whose key was refused.
Each way of reading a part puts the step to the part in front of the paths of its errors, so what an
error of the part points at is what the error of the whole points at.
-/

namespace TypedReply

open Read

/-! ## Following paths -/

namespace Value

/-- The part of a value at the end of a step: the item of a list at a position, or what an object
holds under a text. -/
def step? (value : Value) : Value → Option Value
  | .int (.ofNat position) => value.items?.bind (·[position]?)
  | .str name => value.get? name
  | _ => none

/-- The part of a value at the end of a path. -/
def follow? (value : Value) : Path → Option Value
  | [] => some value
  | step :: path => (value.step? step).bind (·.follow? path)

theorem follow?_of_step? {value part : Value} {step : Value} (found : value.step? step = some part)
    (path : Path) : value.follow? ([step] ++ path) = part.follow? path := by
  simp [follow?, found]

theorem follow?_str {name : String} {path : Path} {part : Value}
    (reaches : (str name).follow? path = some part) : path = [] ∧ str name = part := by
  cases path with
  | nil => exact ⟨rfl, Option.some.inj reaches⟩
  | cons step path =>
      have none : (str name).step? step = none := by
        unfold step?
        split <;> rfl
      simp [follow?, none] at reaches

end Value

theorem Value.IsJson.exists_name {bound : Nat} {entries : Value.Entries}
    (json : (Value.object entries).IsJson bound) {key held : Value} (isEntry : (key, held) ∈ entries) :
    ∃ name, key = .str name ∧ entries.get? name = some held := by
  cases json with
  | object distinct each =>
      obtain ⟨⟨name, value⟩, isField, same⟩ := List.mem_map.mp isEntry
      cases same
      exact ⟨name, rfl, (Value.get?_entriesOf _ name).trans (Fields.get?_of_mem distinct isField)⟩

/-- To read a value against a descriptor, the part of the value at the end of a path is read against
a part of the descriptor. -/
inductive ReadsAlong (store : Store) :
    Path → Descriptor → Value → Descriptor → Value → Prop where
  | here (descriptor : Descriptor) (raw : Value) : ReadsAlong store [] descriptor raw descriptor raw
  | item {element found : Descriptor} {items : List Value} {position : Nat} {item part : Value}
      {path : Path} (isItem : items[position]? = some item)
      (rest : ReadsAlong store path element item found part) :
      ReadsAlong store ([Path.index position] ++ path) (.array element) (.list items) found part
  | value {key element found : Descriptor} {entries : Value.Entries} {name : String}
      {held part : Value} {path : Path} (isHeld : entries.get? name = some held)
      (rest : ReadsAlong store path element held found part) :
      ReadsAlong store ([Path.key name] ++ path) (.map key element) (.object entries) found part
  | inner {inner found : Descriptor} {raw part : Value} {path : Path}
      (rest : ReadsAlong store path inner raw found part) :
      ReadsAlong store path (.optional inner) raw found part
  | member {members : List Descriptor} {member found : Descriptor} {raw part : Value} {path : Path}
      (isMember : member ∈ members) (rest : ReadsAlong store path member raw found part) :
      ReadsAlong store path (.union members) raw found part
  | field {record found : Descriptor} {field : Field} {entries : Value.Entries} {held part : Value}
      {path : Path} (isField : field ∈ record.fields store)
      (isHeld : entries.get? field.name = some held)
      (rest : ReadsAlong store path field.type held found part) :
      ReadsAlong store ([Path.key field.name] ++ path) record (.object entries) found part

/-- What an error of reading a value against a descriptor points at. -/
inductive PointsAt (registry : Registry) (descriptor : Descriptor) (raw : Value) :
    ReplyError → Prop where
  /-- The path leads to what was received. -/
  | received {error : ReplyError} (reaches : raw.follow? error.path = some error.received) :
      PointsAt registry descriptor raw error
  /-- All but the last step lead to an object that was read as a record, and lacks the required field
  that the last step names. -/
  | missing {front : Path} {record : Descriptor} {field : Field} {entries : Value.Entries}
      (reaches : raw.follow? front = some (.object entries))
      (along : ReadsAlong registry.structs front descriptor raw record (.object entries))
      (isField : field ∈ record.fields registry.structs) (required : field.required = true)
      (absent : entries.has field.name = false) :
      PointsAt registry descriptor raw
        ⟨front ++ [Path.key field.name], field.type.kind registry.structs, .null,
          .missingField field.name⟩
  /-- All but the last step lead to an object that was read as a map, and the last step is a key of it
  that was refused. -/
  | key {front : Path} {key element : Descriptor} {entries : Value.Entries} {name : String}
      {expected : String} {cause : Cause}
      (reaches : raw.follow? front = some (.object entries))
      (along : ReadsAlong registry.structs front descriptor raw (.map key element) (.object entries))
      (present : entries.has name = true)
      (refused : readAt registry (.str name) key (front ++ [Path.key name]) =
        .error (.reply ⟨front ++ [Path.key name], expected, .str name, cause⟩)) :
      PointsAt registry descriptor raw ⟨front ++ [Path.key name], expected, .str name, cause⟩

variable {registry : Registry} {descriptor : Descriptor} {raw : Value} {path : Path}

theorem PointsAt.of_text {name : String} {error : ReplyError}
    (points : PointsAt registry descriptor (.str name) error) :
    error.path = [] ∧ error.received = .str name := by
  cases points with
  | received reaches =>
      have followed := Value.follow?_str reaches
      exact ⟨followed.1, followed.2.symm⟩
  | missing reaches => cases (Value.follow?_str reaches).2
  | key reaches => cases (Value.follow?_str reaches).2

/-- What an error of a part points at is what the error of the whole points at, with the steps to the
part in front. -/
theorem PointsAt.lift {part : Descriptor} {held : Value} {steps : Path} {error : ReplyError}
    (points : PointsAt registry part held error)
    (follows : ∀ path, raw.follow? (steps ++ path) = held.follow? path)
    (leads : ∀ path found place, ReadsAlong registry.structs path part held found place →
      ReadsAlong registry.structs (steps ++ path) descriptor raw found place) :
    PointsAt registry descriptor raw { error with path := steps ++ error.path } := by
  cases points with
  | received reaches => exact .received ((follows error.path).trans reaches)
  | missing reaches along isField required absent =>
      simp only [← List.append_assoc]
      exact .missing ((follows _).trans reaches) (leads _ _ _ along) isField required absent
  | key reaches along present refused =>
      have moved := readAt_append registry _ _ steps _ |>.trans (congrArg (Outcome.under steps) refused)
      simp only [Outcome.under, ← List.append_assoc] at moved ⊢
      exact .key ((follows _).trans reaches) (leads _ _ _ along) present moved

/-! ## Failures -/

/-- A failure of reading a value at the end of a path: an error that points at what it complains
about, or no error of the reply at all. -/
inductive Located (registry : Registry) (descriptor : Descriptor) (raw : Value) (path : Path) :
    Failure → Prop where
  | reply {error : ReplyError} (points : PointsAt registry descriptor raw error) :
      Located registry descriptor raw path (.reply { error with path := path ++ error.path })
  | schema (error : SchemaError) : Located registry descriptor raw path (.schema error)
  | fault (fault : Fault) : Located registry descriptor raw path (.fault fault)

theorem Located.here {expected : String} {cause : Cause} :
    Located registry descriptor raw path (.reply ⟨path, expected, raw, cause⟩) := by
  have points : PointsAt registry descriptor raw ⟨[], expected, raw, cause⟩ := .received rfl
  simpa using @Located.reply registry descriptor raw path _ points

namespace Located

variable {part : Descriptor} {held : Value} {failure : Failure}

/-- A failure of a part is one of the whole. -/
theorem lift {steps : Path} (located : Located registry part held (path ++ steps) failure)
    (follows : ∀ path, raw.follow? (steps ++ path) = held.follow? path)
    (leads : ∀ path found place, ReadsAlong registry.structs path part held found place →
      ReadsAlong registry.structs (steps ++ path) descriptor raw found place) :
    Located registry descriptor raw path failure := by
  cases located with
  | reply points =>
      rw [List.append_assoc]
      exact .reply (points.lift follows leads)
  | schema error => exact .schema error
  | fault fault => exact .fault fault

theorem of_inner {inner : Descriptor} (located : Located registry inner raw path failure) :
    Located registry (.optional inner) raw path failure := by
  rw [← List.append_nil path] at located
  exact located.lift (fun _ => rfl) fun _ _ _ along => .inner along

theorem of_unwrapped (located : Located registry descriptor.unwrapped raw path failure) :
    Located registry descriptor raw path failure := by
  cases descriptor with
  | optional inner => exact located.of_inner
  | _ => exact located

theorem of_member {members : List Descriptor} {member : Descriptor} (isMember : member ∈ members)
    (located : Located registry member raw path failure) :
    Located registry (.union members) raw path failure := by
  rw [← List.append_nil path] at located
  exact located.lift (fun _ => rfl) fun _ _ _ along => .member isMember along

theorem of_item {element : Descriptor} {items : List Value} {position : Nat}
    (isItem : items[position]? = some held)
    (located : Located registry element held (path ++ [Path.index position]) failure) :
    Located registry (.array element) (.list items) path failure :=
  located.lift (Value.follow?_of_step? isItem) fun _ _ _ along => .item isItem along

theorem of_value {key element : Descriptor} {entries : Value.Entries} {name : String}
    (isHeld : entries.get? name = some held)
    (located : Located registry element held (path ++ [Path.key name]) failure) :
    Located registry (.map key element) (.object entries) path failure :=
  located.lift (Value.follow?_of_step? isHeld) fun _ _ _ along => .value isHeld along

theorem of_field {record : Descriptor} {field : Field} {entries : Value.Entries}
    (isField : field ∈ record.fields registry.structs) (isHeld : entries.get? field.name = some held)
    (located : Located registry field.type held (path ++ [Path.key field.name]) failure) :
    Located registry record (.object entries) path failure :=
  located.lift (Value.follow?_of_step? isHeld) fun _ _ _ along => .field isField isHeld along

end Located

/-- No record that a descriptor reaches has a class. -/
def Descriptor.IsClassless (store : Store) : Descriptor → Prop :=
  Throughout store fun descriptor => ∀ record, descriptor.record? store = some record →
    record.cls = none

namespace Descriptor.IsClassless

variable {store : Store}

theorem of_part {part : Descriptor} (classless : descriptor.IsClassless store)
    (isPart : Part store descriptor part) : part.IsClassless store :=
  Throughout.of_part classless isPart

theorem unwrapped (classless : descriptor.IsClassless store) :
    descriptor.unwrapped.IsClassless store := by
  cases descriptor with
  | optional inner => exact classless.of_part (.inner inner)
  | _ => exact classless

end Descriptor.IsClassless

/-- Whatever it returns, an outcome fails only as reading a value at the end of a path may. -/
def Locates {α : Type} (registry : Registry) (descriptor : Descriptor) (raw : Value) (path : Path)
    (outcome : Outcome α) : Prop :=
  Meets outcome (fun _ => True) (Located registry descriptor raw path)

namespace Locates

variable {α β : Type} {outcome : Outcome α}

theorem imp {part : Descriptor} {held : Value} {place : Path}
    (locates : Locates registry part held place outcome)
    (fails : ∀ failure, Located registry part held place failure →
      Located registry descriptor raw path failure) : Locates registry descriptor raw path outcome :=
  Meets.imp locates (fun _ _ => trivial) fails

theorem bind {next : α → Outcome β} (locates : Locates registry descriptor raw path outcome)
    (rest : ∀ value, Locates registry descriptor raw path (next value)) :
    Locates registry descriptor raw path (outcome >>= next) :=
  Meets.bind locates fun value _ => rest value

theorem map {image : α → β} (locates : Locates registry descriptor raw path outcome) :
    Locates registry descriptor raw path (outcome.map image) :=
  Meets.map locates fun _ _ => trivial

theorem mapM {operation : α → Outcome β} {values : List α}
    (each : ∀ value ∈ values, Locates registry descriptor raw path (operation value)) :
    Locates registry descriptor raw path (values.mapM operation) :=
  (Meets.mapM each).imp (fun _ _ => trivial) fun _ located => located

end Locates

/-- Wherever a value is read against records without classes, its errors point at what they complain
about. -/
def IsLocated (registry : Registry) (raw : Value) : Prop :=
  ∀ descriptor path, descriptor.IsClassless registry.structs →
    Locates registry descriptor raw path (readAt registry raw descriptor path)

namespace Read

/-! ### Scalars and choices -/

theorem located_coerceScalar (kind : ScalarKind) :
    Locates registry descriptor raw path (coerceScalar kind raw path) := by
  unfold coerceScalar
  split
  · trivial
  split
  · exact .here
  split
  · trivial
  · exact .fault _
  · exact .here

theorem located_coerceEnum {bound : Nat} (json : raw.IsJson bound) (type : EnumType) :
    Locates registry descriptor raw path (coerceEnum type raw path) := by
  -- Plain data has no members of classes, so what is refused is the value itself.
  have plain : memberValue raw = raw := by
    cases json <;> rfl
  unfold coerceEnum
  split
  · trivial
  simp only [plain]
  split
  · exact .here
  split
  · trivial
  · exact .here

/-! ### Lists and maps -/

theorem located_readItems {element : Descriptor} (classless : element.IsClassless registry.structs)
    (before : List Value) {items : List Value} (each : ∀ item ∈ items, IsLocated registry item) :
    Locates registry (.array element) (.list (before ++ items)) path
      (readItems element path before.length (items.map (Value.toPart (read registry)))) := by
  induction items generalizing before with
  | nil => trivial
  | cons item items ih =>
      have located := List.forall_mem_cons.mp each
      have isItem : (before ++ item :: items)[before.length]? = some item := by simp
      have rest := ih (before ++ [item]) located.2
      rw [List.length_append, List.append_assoc] at rest
      apply ((located.1 element _ classless).imp fun _ fails => fails.of_item isItem).bind
      intro value
      apply rest.bind
      intro values
      trivial

/-- A key that is refused is what the error complains about. -/
theorem located_readKey {key element : Descriptor} (classless : key.IsClassless registry.structs)
    {entries : Value.Entries} {name : String} (present : entries.has name = true)
    (located : IsLocated registry (.str name)) :
    Locates registry (.map key element) (.object entries) path
      (readAt registry (.str name) key (path ++ [Path.key name])) := by
  have alone := located key [Path.key name] classless
  rw [readAt_append]
  cases outcome : readAt registry (.str name) key [Path.key name] with
  | ok value => trivial
  | error failure =>
      rw [outcome] at alone
      cases alone with
      | @reply error points =>
          cases error with
          | mk place expected received cause =>
              cases points.of_text.1
              cases points.of_text.2
              have refused : PointsAt registry (.map key element) (.object entries)
                  ⟨[] ++ [Path.key name], expected, .str name, cause⟩ :=
                .key rfl (.here _ _) present outcome
              exact Located.reply refused
      | schema error => exact Located.schema error
      | fault fault => exact Located.fault fault

theorem located_readEntry {key element : Descriptor}
    (classless : (Descriptor.map key element).IsClassless registry.structs)
    {entries : Value.Entries} {name : String} {held : Value} (isHeld : entries.get? name = some held)
    (locatedKey : IsLocated registry (.str name)) (locatedValue : IsLocated registry held) :
    Locates registry (.map key element) (.object entries) path (readEntry key element path
      (Value.toPart (read registry) (.str name), Value.toPart (read registry) held)) := by
  have present : entries.has name = true := by simp [Value.Entries.has, isHeld]
  apply (located_readKey (classless.of_part (.key key element)) present locatedKey).bind
  intro newKey
  apply ((locatedValue element _ (classless.of_part (.value key element))).imp
    fun _ fails => fails.of_value isHeld).bind
  intro newValue
  split
  · exact .fault _
  · trivial

/-! ### Records -/

theorem located_absentField {record : Descriptor} {entries : Value.Entries} {field : Field}
    (isField : field ∈ record.fields registry.structs) (absent : entries.get? field.name = none) :
    Locates registry record (.object entries) path
      (absentField registry.structs field (path ++ [Path.key field.name])) := by
  unfold absentField
  split
  next => trivial
  next demanded =>
    have required : field.required = true := by simp_all
    have lacks : entries.has field.name = false := by simp [Value.Entries.has, absent]
    have missing : PointsAt registry record (.object entries)
        ⟨[] ++ [Path.key field.name], field.type.kind registry.structs, .null,
          .missingField field.name⟩ :=
      .missing rfl (.here _ _) isField required lacks
    exact Located.reply missing

theorem located_readField {record : Descriptor} (classless : record.IsClassless registry.structs)
    {entries : Value.Entries} {field : Field} (isField : field ∈ record.fields registry.structs)
    (located : ∀ part, entries.get? field.name = some part → IsLocated registry part) :
    Locates registry record (.object entries) path
      (readField registry.structs (record.fields registry.structs) entries
        ((Value.object entries).parts (read registry)) field (path ++ [Path.key field.name])) := by
  unfold readField
  rw [Value.get?_parts]
  cases isPart : entries.get? field.name with
  | none => exact located_absentField isField isPart
  | some part =>
      simp only [Option.map_some, presentField, Value.toPart]
      split
      · trivial
      split
      next selected =>
        -- A member of the union that another field of the same name may describe was selected.
        obtain ⟨other, isOther, sameName, members, isUnion, member, isMember, rfl⟩ :=
          exists_field_of_discriminated? selected
        have isMember := List.mem_of_mem_filter isMember
        have classlessUnion := isUnion ▸ (classless.of_part (.field isOther)).unwrapped
        have classlessMember := classlessUnion.of_part (.member isMember)
        apply (located part isPart _ _ classlessMember.unwrapped).imp
        intro failure fails
        have inUnion := fails.of_unwrapped.of_member isMember
        rw [← isUnion, ← sameName] at inUnion
        exact inUnion.of_unwrapped.of_field isOther (sameName ▸ isPart)
      next =>
        exact (located part isPart _ _ (classless.of_part (.field isField))).imp
          fun _ fails => fails.of_field isField isPart

theorem located_readRecord (classless : descriptor.IsClassless registry.structs) {record : RecordView}
    (isRecord : descriptor.record? registry.structs = some record)
    (located : ∀ entries name part, raw.entries? = some entries →
      entries.get? name = some part → IsLocated registry part) :
    Locates registry descriptor raw path
      (readRecord registry raw (raw.parts (read registry)) record path) := by
  unfold readRecord
  split
  · trivial
  split
  · exact .here
  next entries isObject =>
    obtain rfl := Value.entries?_eq_some_iff.mp isObject
    rw [Descriptor.fields_of_record? isRecord, fieldValues_eq]
    apply Locates.bind
    · apply Locates.mapM
      intro field isField
      exact (located_readField classless isField fun part => located entries field.name part rfl).map
    · intro values
      have noClass : record.cls = none := classless.here record isRecord
      simp only [instantiate, noClass]
      trivial

theorem located_tag {tag : Value} (isTag : raw.get? typeKey = some tag) (expected : String)
    (names : List String) : Located registry descriptor raw path
      (.reply ⟨path ++ [Path.key typeKey], expected, tag, .unknownTag names⟩) := by
  have points : PointsAt registry descriptor raw
      ⟨[Path.key typeKey], expected, tag, .unknownTag names⟩ := by
    apply PointsAt.received
    have steps := Value.follow?_of_step? (show raw.step? (Path.key typeKey) = some tag from isTag) []
    exact steps
  exact .reply points

end Read

/-! ## Replies -/

/-- Wherever plain data is read against records without classes, the errors point at what they
complain about. -/
theorem isLocated {bound : Nat} (json : raw.IsJson bound) : IsLocated registry raw := by
  induction raw using Value.induction_parts with
  | step raw items entries =>
      have located (found) (name) (part) (isObject : raw.entries? = some found)
          (isPart : found.get? name = some part) : IsLocated registry part := by
        obtain ⟨key, isEntry⟩ := Value.Entries.exists_mem_of_get? isPart
        exact (entries found isObject _ isEntry).2 (json.entries isObject _ isEntry).2
      intro descriptor path classless
      induction descriptor using Descriptor.induction with
      | scalar kind =>
          rw [readAt_eq, Read.read]
          exact located_coerceScalar kind
      | enum type =>
          rw [readAt_eq, Read.read]
          exact located_coerceEnum json type
      | array element =>
          rw [readAt_eq, Read.read]
          split
          next isList =>
            obtain ⟨found, isList⟩ := Option.isSome_iff_exists.mp isList
            obtain rfl : raw = .list found := by
              cases json <;> cases isList
              rfl
            have each (item) (isItem : item ∈ found) := items item isItem (json.item isItem)
            exact (located_readItems (classless.of_part (.element element)) [] each).map
          next => exact .here
      | map key element =>
          rw [readAt_eq, Read.read]
          split
          next isObject =>
            obtain ⟨found, isObject⟩ := Option.isSome_iff_exists.mp isObject
            obtain rfl := Value.entries?_eq_some_iff.mp isObject
            apply Locates.map
            apply Locates.mapM
            intro parts areParts
            obtain ⟨⟨text, held⟩, isEntry, rfl⟩ := List.mem_map.mp areParts
            obtain ⟨name, rfl, isHeld⟩ := json.exists_name isEntry
            obtain ⟨jsonKey, jsonValue⟩ := json.entries rfl _ isEntry
            obtain ⟨locatedKey, locatedValue⟩ := entries found rfl _ isEntry
            exact located_readEntry classless isHeld (locatedKey jsonKey) (locatedValue jsonValue)
          next => exact .here
      | optional inner ih =>
          have classlessInner := classless.of_part (.inner inner)
          rw [readAt_eq, Read.read]
          split
          · trivial
          split
          next tag name record selected =>
            obtain ⟨isRecord, -, isTag⟩ := record?_of_tagged? selected
            apply meets_readTagged
            · intro entry isEntry
              cases List.mem_singleton.mp isEntry
              exact (located_readRecord classlessInner isRecord located).imp
                fun _ fails => fails.of_inner
            · exact fun expected names => located_tag isTag expected names
          next =>
            rw [← readAt_eq]
            exact (ih classlessInner).imp fun _ fails => fails.of_inner
      | union members ih =>
          rw [readAt_eq, Read.read]
          apply meets_readUnion
          · trivial
          · intro candidate isCandidate
            rw [candidates_parts] at isCandidate
            obtain ⟨member, isMember, rfl⟩ := List.mem_map.mp isCandidate
            have isMember := List.mem_of_mem_filter isMember
            exact (ih member isMember (classless.of_part (.member isMember))).imp
              fun _ fails => fails.of_member isMember
          · intro member isMember record isRecord
            have isMember := List.mem_of_mem_filter isMember
            have classlessMember := classless.of_part (.member isMember)
            exact (located_readRecord classlessMember.unwrapped isRecord located).imp
              fun _ fails => fails.of_unwrapped.of_member isMember
          · trivial
          · exact fun tag expected names isTag => located_tag isTag expected names
      | null =>
          rw [readAt_eq, Read.read]
          split
          · trivial
          · exact .here
      | fixed record =>
          rw [readAt_eq, Read.read]
          exact located_readRecord classless rfl located
      | struct id =>
          rw [readAt_eq, Read.read]
          exact located_readRecord classless rfl located
      | stray value =>
          rw [readAt_eq, Read.read]
          exact .fault _

/-- The path of an error of reading plain data against records without classes leads to what was
received, to the object in which a required field is missing, or to the object whose key was
refused. -/
theorem pointsAt_of_read {bound : Nat} (json : raw.IsJson bound)
    (classless : descriptor.IsClassless registry.structs) {error : ReplyError}
    (refused : read registry raw descriptor = .error (.reply error)) :
    PointsAt registry descriptor raw error := by
  have located := isLocated json descriptor [] classless
  rw [← read, refused] at located
  cases located with
  | reply points => exact points

/-! ### Counts -/

def countRecord : Descriptor := .fixed ⟨[⟨"count", .scalar .int, true, none, none⟩], none, none, none⟩

def counts : Descriptor := .map (.scalar .string) countRecord

def countDescriptors : List Descriptor := [counts, .scalar .string, countRecord, .scalar .int]

theorem counts_isClassless : counts.IsClassless [] := by
  refine @Descriptor.Throughout.of_list _ _ _ countDescriptors ?_ ?_ List.mem_cons_self
  · simp [countDescriptors, counts, countRecord, Descriptor.parts, Descriptor.fields]
  · simp [countDescriptors, counts, countRecord, Descriptor.record?, FixedRecord.view]

/-- The error of a count in words leads to the words. -/
theorem count_pointsAt :
    let raw : Value := .ofFields [("apples", .ofFields [("count", .int 3)]),
      ("pears", .ofFields [("count", .str "many")])]
    let error : ReplyError := ⟨[Path.key "pears", Path.key "count"], "int", .str "many",
      .unconvertible .notNumber⟩
    raw.IsJson 4 ∧ counts.IsClassless Registry.empty.structs ∧
      read Registry.empty raw counts = .error (.reply error) ∧
      PointsAt Registry.empty counts raw error := by
  intro raw error
  have json : raw.IsJson 4 := by
    apply Value.IsJson.object (by decide)
    simp only [List.forall_mem_cons]
    refine ⟨.object (by decide) ?_, .object (by decide) ?_, List.forall_mem_nil _⟩
    · exact List.forall_mem_singleton.mpr (.int 3 (by decide))
    · exact List.forall_mem_singleton.mpr (.str "many")
  have refused : read Registry.empty raw counts = .error (.reply error) := by
    rfl
  exact ⟨json, counts_isClassless, refused, pointsAt_of_read json counts_isClassless refused⟩

end TypedReply
