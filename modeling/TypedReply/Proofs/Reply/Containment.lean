import TypedReply.Proofs.Coerce.Json
import TypedReply.Proofs.Record.Dependable
import TypedReply.Proofs.Reference.Faultless
import TypedReply.Proofs.Reply.Soundness
import Mathlib.Algebra.Group.Int.Defs

/-!
# What may escape

Reading plain data against a well-formed descriptor either returns or ends in an error of the reply,
with one exception: an integer beyond the floating point range is met where a floating point number is
described. All integers are taken to be short enough to be written, as those of a parsed text are: an
integer with more digits has no text, and neither has an error about it.
-/

namespace TypedReply

open Read Relation

/-! ## Well-formed descriptors -/

/-- An enumeration whose choices can be keys, and whose members carry what can be one. -/
def EnumType.OffersKeys : EnumType → Prop
  | .choices values => ∀ value ∈ values, value.IsKey
  | .ofClass cls => cls.CarriesKeys

/-- A node that is a descriptor, whose choices and defaults are tame, and whose class can be depended
on if it has one. The class that all others extend is none of them. -/
structure Descriptor.IsSafe (registry : Registry) (descriptor : Descriptor) : Prop where
  isDescriptor : ∀ value, descriptor ≠ .stray value
  choices : ∀ type, descriptor = .enum type → type.OffersKeys
  defaults : ∀ field ∈ descriptor.fields registry.structs, ∀ value, field.default = some value →
    value.IsTame
  classes : ∀ record key, descriptor.record? registry.structs = some record →
    record.cls = some key → key ≠ .base ∧ registry.catalog.Dependable key

def Descriptor.IsWellFormed (registry : Registry) : Descriptor → Prop :=
  Throughout registry.structs (IsSafe registry)

/-! ## What may escape -/

/-- To read a value against a descriptor, a part of the value is read against a part of the
descriptor. -/
inductive ReadsPart (store : Store) : Descriptor × Value → Descriptor × Value → Prop where
  | item {element : Descriptor} {items : List Value} {item : Value} (isItem : item ∈ items) :
      ReadsPart store (.array element, .list items) (element, item)
  | key {key element : Descriptor} {entries : Value.Entries} {entry : Value × Value}
      (isEntry : entry ∈ entries) :
      ReadsPart store (.map key element, .object entries) (key, entry.1)
  | value {key element : Descriptor} {entries : Value.Entries} {entry : Value × Value}
      (isEntry : entry ∈ entries) :
      ReadsPart store (.map key element, .object entries) (element, entry.2)
  | inner (inner : Descriptor) (raw : Value) : ReadsPart store (.optional inner, raw) (inner, raw)
  | member {members : List Descriptor} {member : Descriptor} (isMember : member ∈ members)
      (raw : Value) : ReadsPart store (.union members, raw) (member, raw)
  | field {record : Descriptor} {field : Field} {entries : Value.Entries} {part : Value}
      (isField : field ∈ record.fields store) (isPart : entries.get? field.name = some part) :
      ReadsPart store (record, .object entries) (field.type, part)

/-- What reading a value against a descriptor may end in: an error of the reply about something tame, so
that it can be written; or the fault of an integer beyond the floating point range that is read as a
floating point number. -/
inductive Contained (store : Store) (descriptor : Descriptor) (raw : Value) : Failure → Prop where
  | reply {error : ReplyError} (tame : error.received.IsTame) :
      Contained store descriptor raw (.reply error)
  | overflow {n : Int} (huge : Double.ofInt? n = none)
      (within : ReflTransGen (ReadsPart store) (descriptor, raw) (.scalar .float, .int n)) :
      Contained store descriptor raw (.fault .integerOverflow)

variable {registry : Registry} {raw : Value} {path : Path}

namespace Descriptor.IsWellFormed

variable {descriptor part : Descriptor}

theorem of_part (wellFormed : descriptor.IsWellFormed registry)
    (isPart : Part registry.structs descriptor part) : part.IsWellFormed registry :=
  Throughout.of_part wellFormed isPart

theorem unwrapped (wellFormed : descriptor.IsWellFormed registry) :
    descriptor.unwrapped.IsWellFormed registry := by
  cases descriptor with
  | optional inner => exact wellFormed.of_part (.inner inner)
  | _ => exact wellFormed

end Descriptor.IsWellFormed

theorem Contained.of_part {store : Store} {descriptor part : Descriptor} {value : Value}
    {failure : Failure} (contained : Contained store part value failure)
    (isPart : ReadsPart store (descriptor, raw) (part, value)) :
    Contained store descriptor raw failure := by
  cases contained with
  | reply tame => exact .reply tame
  | overflow huge within => exact .overflow huge (.head isPart within)

theorem Contained.of_unwrapped {store : Store} {descriptor : Descriptor} {failure : Failure}
    (contained : Contained store descriptor.unwrapped raw failure) :
    Contained store descriptor raw failure := by
  cases descriptor with
  | optional inner => exact contained.of_part (.inner inner raw)
  | _ => exact contained

/-- Reading a value returns what is tame, and can be a key if the value can, or fails as reading
may. -/
def IsContained (registry : Registry) (raw : Value) : Prop :=
  ∀ descriptor path, descriptor.IsWellFormed registry → Meets (readAt registry raw descriptor path)
    (Value.Serves raw.unhashable?.isNone) (Contained registry.structs descriptor raw)

namespace Read

/-! ## Scalars and choices -/

theorem exists_int_of_toDouble {bound : Nat} (json : raw.IsJson bound)
    (converted : Coerce.toDouble raw = .ok none) : ∃ n, raw = .int n ∧ Double.ofInt? n = none := by
  cases json with
  | int n => exact ⟨n, rfl, Except.ok.inj converted⟩
  | str text =>
      simp only [Coerce.toDouble, Value.integer?, Value.text?] at converted
      cases found : Numeral.double? (Text.trim text.toList) <;> simp [found] at converted
  | _ => cases converted

/-- Plain data is refused with an error about it where it is read as no scalar, unless it is an integer
beyond the floating point range that is read as a floating point number. -/
theorem cases_of_coerceScalar_error {bound : Nat} (json : raw.IsJson bound) {kind : ScalarKind}
    {failure : Failure} (fails : coerceScalar kind raw path = .error failure) :
    (∃ error, failure = .reply error ∧ error.received = raw) ∨
      failure = .fault .integerOverflow ∧ kind = .float ∧ ∃ n, raw = .int n ∧
        Double.ofInt? n = none := by
  unfold coerceScalar at fails
  split at fails
  · cases fails
  split at fails
  · cases fails
    exact .inl ⟨_, rfl, rfl⟩
  split at fails
  · cases fails
  next converted =>
    cases fails
    cases kind <;> obtain ⟨held, isHeld, same⟩ := map_eq_ok_iff.mp converted
    case float =>
      obtain rfl := Option.map_eq_none_iff.mp same
      exact .inr ⟨rfl, rfl, exists_int_of_toDouble json isHeld⟩
    all_goals cases same
  · cases fails
    exact .inl ⟨_, rfl, rfl⟩

theorem isShort_of_toInteger {n : Int} (converted : Coerce.toInteger raw = .ok n) :
    Numeral.IsShort n := by
  have ofDouble {x : Double} (whole : x.toInt?.elim (.error .fractional) .ok =
      (.ok n : Except Reason Int)) : Numeral.IsShort n := by
    cases isWhole : x.toInt? with
    | none => simp [isWhole] at whole
    | some m =>
        rw [isWhole] at whole
        cases whole
        exact Double.isShort_of_toInt? isWhole
  unfold Coerce.toInteger at converted
  split at converted
  · cases converted
  · exact ofDouble converted
  split at converted
  next text _ =>
    unfold Coerce.integerOfText at converted
    split at converted
    next isRead =>
      cases converted
      exact Numeral.isShort_of_integer? isRead
    next =>
      split at converted
      · cases converted
      · exact ofDouble converted
  · cases converted

theorem isKey_of_coerceScalar {kind : ScalarKind} (tame : raw.IsTame) {result : Value}
    (isRead : coerceScalar kind raw path = .ok result) : result.IsKey := by
  unfold coerceScalar at isRead
  split at isRead
  next isMatch =>
    cases isRead
    cases raw <;> first | exact ⟨rfl, tame⟩ | (cases kind <;> cases isMatch)
  split at isRead
  · cases isRead
  split at isRead
  next converted =>
    cases isRead
    cases kind <;> obtain ⟨held, isHeld, same⟩ := map_eq_ok_iff.mp converted
    case float =>
      obtain ⟨x, -, rfl⟩ := Option.map_eq_some_iff.mp same
      exact ⟨rfl, trivial⟩
    case int =>
      cases same
      exact ⟨rfl, isShort_of_toInteger isHeld⟩
    all_goals
      cases same
      exact ⟨rfl, trivial⟩
  · cases isRead
  · cases isRead

theorem meets_coerceScalar {store : Store} (json : raw.IsJson (10 ^ Numeral.maxDigits))
    (kind : ScalarKind) :
    Meets (coerceScalar kind raw path) Value.IsKey (Contained store (.scalar kind) raw) := by
  cases isRead : coerceScalar kind raw path with
  | ok result => exact isKey_of_coerceScalar json.isTame isRead
  | error failure =>
      rcases cases_of_coerceScalar_error json isRead with
        ⟨error, rfl, isRaw⟩ | ⟨rfl, rfl, n, rfl, huge⟩
      · exact .reply (isRaw ▸ json.isTame)
      · exact .overflow huge .refl

theorem isKey_of_choose? {type : EnumType} (keys : type.OffersKeys) {tag : String} {choice : Value}
    (chosen : type.choose? tag = some choice) : choice.IsKey := by
  obtain ⟨label, names, isNamed⟩ := EnumType.exists_mem_named_of_choose? chosen
  cases type with
  | choices values =>
      obtain ⟨pair, isPair, same⟩ := List.mem_map.mp isNamed
      cases same
      exact keys _ (List.of_mem_zip isPair).2
  | ofClass cls =>
      obtain ⟨entry, isEntry, same⟩ := List.mem_map.mp isNamed
      cases same
      exact ⟨rfl, keys entry isEntry⟩

theorem meets_coerceEnum {store : Store} {type : EnumType} (keys : type.OffersKeys) {asKey : Bool}
    (serves : raw.Serves asKey) :
    Meets (coerceEnum type raw path) (Value.Serves asKey) (Contained store (.enum type) raw) := by
  have tame : (memberValue raw).IsTame := by
    cases raw with
    | member tag name carried => exact serves.isTame.2
    | _ => exact serves.isTame
  unfold coerceEnum
  split
  · exact serves
  dsimp only
  split
  · exact .reply tame
  split
  next choice chosen => exact (isKey_of_choose? keys chosen).serves asKey
  · exact .reply tame

/-! ## Lists and maps -/

theorem meets_readItems {element : Descriptor} (wellFormed : element.IsWellFormed registry)
    {items : List Value} (contained : ∀ item ∈ items, IsContained registry item) (position : Nat) :
    Meets (readItems element path position (items.map (Value.toPart (read registry))))
      (fun results => ∀ result ∈ results, result.IsTame)
      fun failure => ∃ item ∈ items, Contained registry.structs element item failure := by
  induction items generalizing position with
  | nil => exact fun _ isResult => nomatch isResult
  | cons item items ih =>
      obtain ⟨first, others⟩ := List.forall_mem_cons.mp contained
      refine Meets.bind ((first element _ wellFormed).imp (fun _ serves => serves.isTame)
        fun failure contained => ⟨item, List.mem_cons_self, contained⟩) fun value isTame => ?_
      refine Meets.bind ((ih others (position + 1)).imp (fun _ areTame => areTame) ?_) ?_
      · rintro failure ⟨other, isOther, contained⟩
        exact ⟨other, List.mem_cons_of_mem _ isOther, contained⟩
      · exact fun values areTame => List.forall_mem_cons.mpr ⟨isTame, areTame⟩

/-- Entries are read with keys that can be keys. -/
theorem meets_readEntries {key element : Descriptor}
    (wellFormed : (Descriptor.map key element).IsWellFormed registry) {entries : Value.Entries}
    (keys : ∀ entry ∈ entries, entry.1.IsKey)
    (contained : ∀ entry ∈ entries, IsContained registry entry.1 ∧ IsContained registry entry.2) :
    Meets (((Value.object entries).parts (read registry)).entries.mapM (readEntry key element path))
      (fun pairs => ∀ pair ∈ pairs, pair.1.value.IsKey ∧ pair.2.IsTame)
      (Contained registry.structs (.map key element) (.object entries)) := by
  refine Meets.mapM fun parts areParts => ?_
  obtain ⟨entry, isEntry, rfl⟩ := List.mem_map.mp areParts
  obtain ⟨containedKey, containedValue⟩ := contained entry isEntry
  have isHashable : entry.1.unhashable?.isNone = true := by simp [(keys entry isEntry).1]
  refine Meets.bind ((containedKey key _ (wellFormed.of_part (.key key element))).imp
    (fun _ serves => isHashable ▸ serves)
    fun _ contained => contained.of_part (.key isEntry)) fun newKey isKey => ?_
  refine Meets.bind ((containedValue element _ (wellFormed.of_part (.value key element))).imp
    (fun _ serves => serves.isTame)
    fun _ contained => contained.of_part (.value isEntry)) fun newValue isTame => ?_
  have usable : newKey.unhashable? = none := isKey.1
  simp only [usable]
  exact ⟨isKey, isTame⟩

/-! ## Records -/

theorem isTame_fallback {record : Descriptor} (safe : record.IsSafe registry) {field : Field}
    (isField : field ∈ record.fields registry.structs) : (fallback field).IsTame := by
  unfold fallback
  cases declared : field.default with
  | none => trivial
  | some value => exact safe.defaults field isField value declared

theorem meets_readField {record : Descriptor} (wellFormed : record.IsWellFormed registry)
    {entries : Value.Entries} {field : Field} (isField : field ∈ record.fields registry.structs)
    (contained : ∀ part, entries.get? field.name = some part → IsContained registry part) :
    Meets (readField registry.structs (record.fields registry.structs) entries
        ((Value.object entries).parts (read registry)) field path) Value.IsTame
      (Contained registry.structs record (.object entries)) := by
  have tame := isTame_fallback wellFormed.here isField
  unfold readField
  rw [Value.get?_parts]
  cases isPart : entries.get? field.name with
  | none =>
      simp only [Option.map_none, absentField]
      split
      · exact tame
      · exact .reply trivial
  | some part =>
      simp only [Option.map_some, presentField, Value.toPart]
      split
      · exact tame
      split
      next selected =>
        obtain ⟨other, isOther, sameName, members, isUnion, member, isMember, rfl⟩ :=
          exists_field_of_discriminated? selected
        have isMember := List.mem_of_mem_filter isMember
        have wellFormedUnion := isUnion ▸ (wellFormed.of_part (.field isOther)).unwrapped
        refine (contained part isPart _ _ (wellFormedUnion.of_part (.member isMember)).unwrapped).imp
          (fun _ serves => serves.isTame) fun failure contained => ?_
        have inUnion := contained.of_unwrapped.of_part (.member isMember part)
        rw [← isUnion] at inUnion
        exact inUnion.of_unwrapped.of_part (.field isOther (sameName ▸ isPart))
      next =>
        exact (contained part isPart _ _ (wellFormed.of_part (.field isField))).imp
          (fun _ serves => serves.isTame) fun failure contained =>
            contained.of_part (.field isField isPart)

theorem meets_fieldValues {record : Descriptor} (wellFormed : record.IsWellFormed registry)
    {entries : Value.Entries}
    (contained : ∀ name part, entries.get? name = some part → IsContained registry part) :
    Meets (fieldValues registry.structs entries ((Value.object entries).parts (read registry))
        (record.fields registry.structs) path)
      (fun pairs => ∀ pair ∈ pairs, pair.1.IsKey ∧ pair.2.IsTame)
      (Contained registry.structs record (.object entries)) := by
  rw [fieldValues_eq]
  refine Meets.mapM fun field isField => ?_
  refine Meets.map (meets_readField wellFormed isField (contained field.name)) fun value isTame => ?_
  exact ⟨Value.isKey_str _, isTame⟩

/-- An instance is made, or the error is one of the reply. -/
theorem meets_instantiate (takesOrRefuses : registry.library.TakesOrRefuses)
    {descriptor : Descriptor} (safe : descriptor.IsSafe registry)
    {record : RecordView} (isRecord : descriptor.record? registry.structs = some record)
    {values : Value} (tame : values.IsTame) :
    Meets (instantiate registry record values path) Value.IsTame
      (Contained registry.structs descriptor raw) := by
  unfold instantiate
  split
  · exact tame
  next key hasClass =>
    obtain ⟨proper, dependable⟩ := safe.classes record key isRecord hasClass
    have taken := takesOrRefuses proper dependable tame
    split
    next made =>
      rw [made] at taken
      exact taken
    next rejection made =>
      rw [made] at taken
      cases rejection with
      | refused refusal => exact .reply taken
      | fault fault => cases taken

theorem meets_readRecord (takesOrRefuses : registry.library.TakesOrRefuses)
    (json : raw.IsJson (10 ^ Numeral.maxDigits)) {descriptor : Descriptor}
    (wellFormed : descriptor.IsWellFormed registry) {record : RecordView}
    (isRecord : descriptor.record? registry.structs = some record)
    (contained : ∀ entries name part, raw.entries? = some entries →
      entries.get? name = some part → IsContained registry part) :
    Meets (readRecord registry raw (raw.parts (read registry)) record path)
      (Value.Serves raw.unhashable?.isNone) (Contained registry.structs descriptor raw) := by
  unfold readRecord
  split
  · exact json.isTame.serves_self
  split
  · exact .reply json.isTame
  next entries isObject =>
    obtain rfl := Value.entries?_eq_some_iff.mp isObject
    rw [Descriptor.fields_of_record? isRecord]
    refine Meets.bind (meets_fieldValues wellFormed fun name part => contained entries name part rfl)
      fun results areTame => ?_
    exact meets_instantiate takesOrRefuses wellFormed.here isRecord (Value.isTame_ofPairs areTame)

/-! ## Unions -/

theorem meets_firstAccepted {returned : Value → Prop} {failed : Failure → Prop}
    {candidates : List Candidate}
    (each : ∀ candidate ∈ candidates, Meets (candidate.read path) returned failed)
    (kept : returned raw) : Meets (firstAccepted raw path candidates) returned failed := by
  induction candidates with
  | nil => exact kept
  | cons candidate candidates ih =>
      obtain ⟨first, others⟩ := List.forall_mem_cons.mp each
      unfold firstAccepted
      split
      · exact ih others
      · exact first

section Members

variable {returned : Value → Prop} {failed : Failure → Prop} {members : List Descriptor}
variable (kept : returned raw)
variable (each : ∀ candidate ∈ candidates registry raw (raw.parts (read registry)) members,
  Meets (candidate.read path) returned failed)
variable (records : ∀ member ∈ Descriptor.nonNull members, ∀ record,
  member.unwrapped.record? registry.structs = some record →
    Meets (readRecord registry raw (raw.parts (read registry)) record path) returned failed)

include kept each in
theorem meets_readPlain :
    Meets (readPlain raw (candidates registry raw (raw.parts (read registry)) members) path)
      returned failed := by
  unfold readPlain
  split
  next candidate found => exact each candidate (List.mem_of_find?_eq_some found)
  next =>
    refine meets_firstAccepted (fun candidate isCandidate => ?_) kept
    exact each candidate (List.mem_of_mem_filter isCandidate)

include kept each records in
theorem meets_readUntagged (entries : Value.Entries) :
    Meets (readUntagged registry raw entries (raw.parts (read registry))
        (candidates registry raw (raw.parts (read registry)) members) path) returned failed := by
  unfold readUntagged
  dsimp only
  split
  next record found =>
    obtain ⟨candidate, isCandidate, isRecord⟩ :=
      List.mem_filterMap.mp (List.mem_of_find?_eq_some found)
    rw [candidates_parts] at isCandidate
    obtain ⟨member, isMember, rfl⟩ := List.mem_map.mp isCandidate
    exact records member isMember record isRecord
  next candidate _ found => exact each candidate (List.mem_of_find?_eq_some found)
  next => exact kept

/-- A tagged value is read against a record among those that the tag may name, or its tag is
unknown. -/
theorem meets_readTagged {tag : Value} {named : List (String × RecordView)}
    (among : ∀ entry ∈ named,
      Meets (readRecord registry raw (raw.parts (read registry)) entry.2 path) returned failed)
    (unknown : ∀ expected names,
      failed (.reply ⟨path ++ [Path.key typeKey], expected, tag, .unknownTag names⟩)) :
    Meets (readTagged registry raw (raw.parts (read registry)) tag named path) returned failed := by
  unfold readTagged
  split
  next name record found => exact among _ (List.mem_of_find?_eq_some found)
  next => exact unknown _ _

include kept each records in
/-- What the members of a union meet, the union meets. -/
theorem meets_readUnion (null : returned .null)
    (unknown : ∀ tag expected names, raw.get? typeKey = some tag →
      failed (.reply ⟨path ++ [Path.key typeKey], expected, tag, .unknownTag names⟩)) :
    Meets (readUnion registry raw (raw.parts (read registry)) members
        (candidates registry raw (raw.parts (read registry)) members) path) returned failed := by
  have untagged := meets_readUntagged kept each records
  unfold readUnion
  split
  · exact null
  split
  next => exact meets_readPlain kept each
  next entries isObject =>
    obtain rfl := Value.entries?_eq_some_iff.mp isObject
    dsimp only
    split
    next tag isTag =>
      split
      · exact untagged entries
      refine meets_readTagged (fun entry isEntry => ?_) fun expected names =>
        unknown tag expected names isTag
      obtain ⟨member, isMember, isRecord⟩ := exists_member_of_mem_taggedRecords isEntry
      exact records member isMember entry.2 isRecord
    next => exact untagged entries

end Members

end Read

/-! ## Replies -/

theorem isContained (takesOrRefuses : registry.library.TakesOrRefuses)
    (json : raw.IsJson (10 ^ Numeral.maxDigits)) : IsContained registry raw := by
  induction raw using Value.induction_parts with
  | step raw items entries =>
      have tame := json.isTame
      have serves := tame.serves_self
      have contained (found) (name) (part) (isObject : raw.entries? = some found)
          (isPart : found.get? name = some part) : IsContained registry part := by
        obtain ⟨key, isEntry⟩ := Value.Entries.exists_mem_of_get? isPart
        exact (entries found isObject _ isEntry).2 (json.entries isObject _ isEntry).2
      intro descriptor path wellFormed
      induction descriptor using Descriptor.induction with
      | scalar kind =>
          rw [readAt_eq, Read.read]
          exact (meets_coerceScalar json kind).imp (fun _ isKey => isKey.serves _)
            fun _ contained => contained
      | enum type =>
          rw [readAt_eq, Read.read]
          exact meets_coerceEnum (wellFormed.here.choices type rfl) serves
      | array element =>
          rw [readAt_eq, Read.read]
          split
          next isList =>
            obtain ⟨found, isList⟩ := Option.isSome_iff_exists.mp isList
            obtain rfl : raw = .list found := by
              cases json <;> cases isList
              rfl
            have isRead := @meets_readItems registry path element
              (wellFormed.of_part (.element element)) found
              (fun item isItem => items item isItem (json.item isItem)) 0
            refine Meets.map (isRead.imp (fun _ areTame => areTame) ?_) ?_
            · rintro failure ⟨item, isItem, contained⟩
              exact contained.of_part (.item isItem)
            · exact fun values areTame => Value.isTame_list.mpr areTame
          next => exact .reply tame
      | map key element =>
          rw [readAt_eq, Read.read]
          split
          next isObject =>
            obtain ⟨found, isObject⟩ := Option.isSome_iff_exists.mp isObject
            obtain rfl := Value.entries?_eq_some_iff.mp isObject
            refine Meets.map (meets_readEntries wellFormed ?_ fun entry isEntry => ?_) ?_
            · exact fun entry isEntry => (tame.entries rfl entry isEntry).1
            · obtain ⟨jsonKey, jsonValue⟩ := json.entries rfl entry isEntry
              obtain ⟨containedKey, containedValue⟩ := entries found rfl entry isEntry
              exact ⟨containedKey jsonKey, containedValue jsonValue⟩
            · intro pairs areTame
              obtain ⟨kept, isMap, areKept⟩ := @forall_mem_mapOf pairs Value.IsKey Value.IsTame areTame
              exact isMap ▸ Value.isTame_object.mpr areKept
          next => exact .reply tame
      | optional inner ih =>
          have wellFormedInner := wellFormed.of_part (.inner inner)
          rw [readAt_eq, Read.read]
          split
          next isNull => exact Value.isKey_null.serves _
          split
          next tag name record selected =>
            obtain ⟨isRecord, -, isTag⟩ := record?_of_tagged? selected
            refine meets_readTagged (List.forall_mem_singleton.mpr ?_) fun _ _ =>
              .reply (json.part isTag).isTame
            exact (meets_readRecord takesOrRefuses json wellFormedInner isRecord contained).imp
              (fun _ serves => serves) fun _ contained => contained.of_part (.inner inner raw)
          next =>
            rw [← readAt_eq]
            exact (ih wellFormedInner).imp (fun _ serves => serves)
              fun _ contained => contained.of_part (.inner inner raw)
      | union members ih =>
          rw [readAt_eq, Read.read]
          refine meets_readUnion serves (fun candidate isCandidate => ?_)
            (fun member isMember record isRecord => ?_) (Value.isKey_null.serves _)
            fun _ _ _ isTag => .reply (json.part isTag).isTame
          · rw [candidates_parts] at isCandidate
            obtain ⟨member, isMember, rfl⟩ := List.mem_map.mp isCandidate
            have isMember := List.mem_of_mem_filter isMember
            exact (ih member isMember (wellFormed.of_part (.member isMember))).imp
              (fun _ serves => serves) fun _ contained => contained.of_part (.member isMember raw)
          · have isMember := List.mem_of_mem_filter isMember
            have wellFormedMember := (wellFormed.of_part (.member isMember)).unwrapped
            exact (meets_readRecord takesOrRefuses json wellFormedMember isRecord contained).imp
              (fun _ serves => serves)
              fun _ contained => contained.of_unwrapped.of_part (.member isMember raw)
      | null =>
          rw [readAt_eq, Read.read]
          split
          · exact Value.isKey_null.serves _
          · exact .reply tame
      | fixed record =>
          rw [readAt_eq, Read.read]
          exact meets_readRecord takesOrRefuses json wellFormed rfl contained
      | struct id =>
          rw [readAt_eq, Read.read]
          exact meets_readRecord takesOrRefuses json wellFormed rfl contained
      | stray value => exact absurd rfl (wellFormed.here.isDescriptor value)

/-- An outcome is a value or an error of the reply. -/
def Outcome.IsOrderly {α : Type} (outcome : Outcome α) : Prop :=
  (∃ value, outcome = .ok value) ∨ ∃ error, outcome = .error (.reply error)

/-- Reading plain data of integers that can be written against a well-formed descriptor returns or ends
in an error of the reply, unless an integer beyond the floating point range is read as a floating point
number. The error is about a value that can be written. -/
theorem read_isOrderly_or_overflows (takesOrRefuses : registry.library.TakesOrRefuses)
    (json : raw.IsJson (10 ^ Numeral.maxDigits)) {descriptor : Descriptor}
    (wellFormed : descriptor.IsWellFormed registry) :
    ((read registry raw descriptor).IsOrderly ∨
      read registry raw descriptor = .error (.fault .integerOverflow) ∧
        ∃ n, Double.ofInt? n = none ∧
          ReflTransGen (ReadsPart registry.structs) (descriptor, raw) (.scalar .float, .int n)) ∧
      ∀ error, read registry raw descriptor = .error (.reply error) → error.received.IsTame := by
  have meets := isContained takesOrRefuses json descriptor [] wellFormed
  unfold read
  cases result : readAt registry raw descriptor [] with
  | ok value => exact ⟨.inl (.inl ⟨value, rfl⟩), nofun⟩
  | error failure =>
      rw [result] at meets
      cases meets with
      | @reply error tame =>
          refine ⟨.inl (.inr ⟨error, rfl⟩), ?_⟩
          rintro _ ⟨⟩
          exact tame
      | overflow huge within => exact ⟨.inr ⟨rfl, _, huge, within⟩, nofun⟩

/-! ### Measures -/

/-- A class of measures, each of which may be followed by another. -/
def measureClass : RecordClass :=
  ⟨.declared 0, "Measure", none, [.base],
    [⟨"size", none, .scalar .float, .required, none, .none⟩,
      ⟨"next", none, .union [.record (.declared 0), .none], .default .null, none, .none⟩]⟩

/-- The class of measures and its struct. -/
def measures : Registry :=
  { Registry.empty with
    catalog := [measureClass]
    structs := [⟨"Measure", some (.declared 0), [⟨"size", .scalar .float, true, none, none⟩,
      ⟨"next", .optional (.struct 0), false, none, some .null⟩], none⟩] }

theorem measureClass_isSafe : measureClass.IsSafe := by
  constructor
  · simp only [measureClass, List.forall_mem_cons]
    refine ⟨.scalar .float, .union ?_, List.forall_mem_nil _⟩
    simp only [List.forall_mem_cons]
    exact ⟨.record _, .none, List.forall_mem_nil _⟩
  · simp only [measureClass, List.forall_mem_cons]
    refine ⟨⟨none, rfl, by simp⟩, ⟨some .null, rfl, ?_⟩, List.forall_mem_nil _⟩
    rintro _ ⟨⟩
    trivial

theorem measureClass_dependable : Catalog.Dependable [measureClass] (.declared 0) := by
  have builtIn {cls : RecordClass} (empty : cls.fields = []) : cls.IsSafe :=
    ⟨empty ▸ List.forall_mem_nil _, empty ▸ List.forall_mem_nil _⟩
  intro key cls _ found
  refine Catalog.forall_get? (builtIn rfl) (builtIn rfl) ?_ found
  exact List.forall_mem_singleton.mpr measureClass_isSafe

/-- A descriptor is safe where it has no choices, no fields and no class. -/
theorem Descriptor.IsSafe.of_bare {registry : Registry} {descriptor : Descriptor}
    (isDescriptor : ∀ value, descriptor ≠ .stray value)
    (noChoices : ∀ type, descriptor ≠ .enum type) (noFields : descriptor.fields registry.structs = [])
    (noRecord : descriptor.record? registry.structs = none) : descriptor.IsSafe registry where
  isDescriptor := isDescriptor
  choices type same := absurd same (noChoices type)
  defaults := noFields ▸ List.forall_mem_nil _
  classes record key isRecord := by
    rw [noRecord] at isRecord
    cases isRecord

theorem isWellFormed_scalar (registry : Registry) (kind : ScalarKind) :
    (Descriptor.scalar kind).IsWellFormed registry := by
  refine .of_parts (.of_bare (by simp) (by simp) rfl rfl) fun part isPart => ?_
  cases isPart with
  | field isField => cases isField

theorem isWellFormed_union (registry : Registry) (kinds : List ScalarKind) :
    (Descriptor.union (kinds.map .scalar)).IsWellFormed registry := by
  refine .of_parts (.of_bare (by simp) (by simp) rfl rfl) fun part isPart => ?_
  cases isPart with
  | member isMember =>
      obtain ⟨kind, -, rfl⟩ := List.mem_map.mp isMember
      exact isWellFormed_scalar registry kind
  | field isField => cases isField

def measureDescriptors : List Descriptor := [.struct 0, .scalar .float, .optional (.struct 0)]

theorem measures_isWellFormed : (Descriptor.struct 0).IsWellFormed measures := by
  refine @Descriptor.Throughout.of_list _ _ _ measureDescriptors ?_ ?_ List.mem_cons_self
  · simp [measureDescriptors, measures, Descriptor.parts, Descriptor.fields, Store.at]
  · simp only [measureDescriptors, List.forall_mem_cons]
    refine ⟨⟨by simp, by simp, ?_, ?_⟩, .of_bare (by simp) (by simp) rfl rfl,
      .of_bare (by simp) (by simp) rfl rfl, List.forall_mem_nil _⟩
    · simp [Descriptor.fields, measures, Store.at, Value.isKey_null.2]
    · rintro record key ⟨⟩ ⟨⟩
      exact ⟨by rintro ⟨⟩, measureClass_dependable⟩

def twoMeasures (size next : Value) : Value :=
  .ofFields [("size", size), ("next", .ofFields [("_type", .str "Measure"), ("size", next)])]

theorem isJson_twoMeasures {bound : Nat} {size next : Value} (jsonSize : size.IsJson bound)
    (jsonNext : next.IsJson bound) : (twoMeasures size next).IsJson bound := by
  refine .object (by simp) ?_
  simp only [List.forall_mem_cons]
  refine ⟨jsonSize, .object (by simp) ?_, List.forall_mem_nil _⟩
  simp only [List.forall_mem_cons]
  exact ⟨.str _, jsonNext, List.forall_mem_nil _⟩

/-- A measure whose next one has its size in a text is read as an instance of its class. -/
theorem twoMeasures_read :
    let raw := twoMeasures (.int 1) (.str "2.5")
    measures.library.TakesOrRefuses ∧ raw.IsJson (10 ^ Numeral.maxDigits) ∧
      (Descriptor.struct 0).IsWellFormed measures ∧
      (((read measures raw (.struct 0)).IsOrderly ∨
        read measures raw (.struct 0) = .error (.fault .integerOverflow) ∧
          ∃ n, Double.ofInt? n = none ∧
            ReflTransGen (ReadsPart measures.structs) (.struct 0, raw) (.scalar .float, .int n)) ∧
        ∀ error, read measures raw (.struct 0) = .error (.reply error) → error.received.IsTame) ∧
      (read measures raw (.struct 0)).isOk = true := by
  have short : Numeral.IsShort 1 := Numeral.isShort_iff.mpr (by decide)
  have json := isJson_twoMeasures (.int 1 short) (.str "2.5")
  have takesOrRefuses : measures.library.TakesOrRefuses := ClassLibrary.reference_takesOrRefuses
  exact ⟨takesOrRefuses, json, measures_isWellFormed,
    read_isOrderly_or_overflows takesOrRefuses json measures_isWellFormed, by decide +kernel⟩

/-! ### Integers beyond the floating point range -/

/-- An integer beyond the floating point range is a fault where a floating point number is
described. -/
theorem readAt_float_of_huge {n : Int} (huge : Double.ofInt? n = none) (registry : Registry)
    (path : Path) :
    readAt registry (.int n) (.scalar .float) path = .error (.fault .integerOverflow) := by
  rw [readAt_eq, Read.read]
  simp [coerceScalar, matchesScalar, Coerce.isScalar, Coerce.convert, Coerce.toDouble,
    Value.integer?, huge, Except.map, Outcome.fault]

theorem read_union_of_huge {n : Int} (huge : Double.ofInt? n = none) (registry : Registry) :
    read registry (.int n) (.union [.scalar .float, .scalar .string]) =
      .error (.fault .integerOverflow) := by
  -- The readings of the members are variables, so that nothing evaluates them.
  have plain {first second : Path → Outcome Value}
      (fails : first [] = .error (.fault .integerOverflow)) :
      readPlain (.int n) [⟨.scalar .float, first⟩, ⟨.scalar .string, second⟩] [] =
        .error (.fault .integerOverflow) := by
    simp [readPlain, exactMatch, matchesScalar, firstAccepted, Descriptor.isRecord, isMap, fails]
  rw [read, readAt_eq, Read.read, candidates_parts]
  exact plain (readAt_float_of_huge huge registry [])

/-- Ten to the power of four hundred escapes as a fault, be it alone or in a union. -/
theorem overflow_escapes :
    (Value.int (10 ^ 400)).IsJson (10 ^ Numeral.maxDigits) ∧
    (Descriptor.scalar .float).IsWellFormed Registry.empty ∧
    read Registry.empty (.int (10 ^ 400)) (.scalar .float) = .error (.fault .integerOverflow) ∧
    ¬(read Registry.empty (.int (10 ^ 400)) (.scalar .float)).IsOrderly ∧
    (Descriptor.union [.scalar .float, .scalar .string]).IsWellFormed Registry.empty ∧
    ¬(read Registry.empty (.int (10 ^ 400)) (.union [.scalar .float, .scalar .string])).IsOrderly := by
  have huge : Double.ofInt? (10 ^ 400) = none :=
    Option.isNone_iff_eq_none.mp (by decide +kernel)
  have alone : read Registry.empty (.int (10 ^ 400)) (.scalar .float) =
      .error (.fault .integerOverflow) := readAt_float_of_huge huge _ _
  have disorderly {outcome : Outcome Value} (fails : outcome = .error (.fault .integerOverflow)) :
      ¬outcome.IsOrderly := by
    rintro (⟨value, returns⟩ | ⟨error, refuses⟩)
    · cases fails.symm.trans returns
    · cases fails.symm.trans refuses
  exact ⟨.int _ (by decide +kernel), isWellFormed_scalar _ _, alone, disorderly alone,
    isWellFormed_union _ [.float, .string], disorderly (read_union_of_huge huge _)⟩

end TypedReply
