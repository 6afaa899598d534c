import TypedReply.Proofs.Reference.Library
import TypedReply.Proofs.Reply.Instances
import TypedReply.Proofs.Reply.Soundness

/-!
# Unions of records

The plain form of an instance carries the tag of its class, and a union with a named record takes a
tag for the name of one of its records. So an instance of a member's class is read back against the
union exactly if the member goes by the tag, or if no member has a name: an instance of an unnamed
record is lost as soon as one of the other records is named.
-/

namespace TypedReply

open Read

/-! ## Classes of records -/

/-- A class is bound to a record: the fields of the record are those of the class, under their wire
names, and demanded where the class demands them. -/
structure RecordView.IsBound (catalog : Catalog) (record : RecordView) (cls : RecordClass) :
    Prop where
  isClass : record.cls = some cls.key
  found : catalog.get? cls.key = some cls
  fields : List.Forall₂ (fun declared field => declared.name = field.wireName ∧
    declared.required = field.presence.isRequired) record.fields cls.fields

theorem RecordView.IsBound.names {catalog : Catalog} {record : RecordView} {cls : RecordClass}
    (bound : record.IsBound catalog cls) :
    record.fields.map (·.name) = cls.fields.map (·.wireName) :=
  map_eq_of_aligned bound.fields fun _ _ _ same => same.1

namespace Read

variable {registry : Registry} {record : RecordView} {cls : RecordClass}

/-- What an object is read as against a record with a class is an instance of this class. -/
theorem key_of_readRecord (makesInstances : registry.library.MakesInstances)
    (bound : record.IsBound registry.catalog cls) {entries : Value.Entries} {parts : Parts Reader}
    {path : Path} {tag : RecordTag} {fields : List (FieldTag × Value)}
    (reads : readRecord registry (.object entries) parts record path = .ok (.record tag fields)) :
    tag.key = cls.key := by
  rw [readRecord_object] at reads
  obtain ⟨values, -, isMade⟩ := bind_eq_ok_iff.mp reads
  rw [instantiate, bound.isClass] at isMade
  dsimp only at isMade
  split at isMade
  next made =>
    cases isMade
    obtain ⟨_, _, same, isKey⟩ := makesInstances made
    cases same
    exact isKey
  next rejection _ => cases rejection <;> cases isMade

/-! ## Tags -/

variable {members : List Descriptor} {member : Descriptor} {name : String}

theorem mem_taggedRecords (isMember : member ∈ Descriptor.nonNull members)
    (isRecord : member.unwrapped.record? registry.structs = some record)
    (isName : record.tag? = some name) : (name, record) ∈ taggedRecords registry members := by
  refine List.mem_filterMap.mpr ⟨(name, member.unwrapped), ?_, by simp [isRecord]⟩
  exact List.mem_filterMap.mpr ⟨member, isMember, by simp [isRecord, isName]⟩

theorem tag?_of_mem_taggedRecords (isTagged : (name, record) ∈ taggedRecords registry members) :
    record.tag? = some name := by
  obtain ⟨⟨other, descriptor⟩, isPair, same⟩ := List.mem_filterMap.mp isTagged
  obtain ⟨_, isRecord, same⟩ := Option.map_eq_some_iff.mp same
  cases same
  obtain ⟨_, -, isNamed⟩ := List.mem_filterMap.mp isPair
  simp only [Option.bind_eq_bind, Option.bind_eq_some_iff] at isNamed
  obtain ⟨named, isOwn, _, isName, same⟩ := isNamed
  cases same
  obtain rfl := Option.some.inj (isOwn.symm.trans isRecord)
  exact isName

theorem map_fst_taggedRecords (registry : Registry) (members : List Descriptor) :
    (taggedRecords registry members).map Prod.fst =
      (Descriptor.namedRecords registry.structs members).map Prod.fst := by
  unfold taggedRecords
  rw [List.map_filterMap, ← List.filterMap_eq_map]
  refine List.filterMap_congr fun pair isPair => ?_
  obtain ⟨-, record, isRecord⟩ := of_mem_namedRecords isPair
  simp [isRecord]

section Union

variable {entries : Value.Entries} {tag : Value} (isTag : entries.get? typeKey = some tag)
variable (path : Path)
include isTag

/-- A tagged object is read against a union without named records as if it had no tag. -/
theorem readAt_union_of_unnamed
    (unnamed : Descriptor.namedRecords registry.structs members = []) :
    readAt registry (.object entries) (.union members) path =
      readUntagged registry (.object entries) entries
        ((Value.object entries).parts (Read.read registry))
        (candidates registry (.object entries) ((Value.object entries).parts (Read.read registry))
          members) path := by
  have none : (taggedRecords registry members).isEmpty = true := by
    simp [taggedRecords, unnamed]
  rw [readAt_eq, Read.read]
  simp only [readUnion, Value.isNull, Bool.false_and, Bool.false_eq_true, if_false, Value.entries?,
    isTag, none, if_true]

/-- A tagged object is read against a union with named records as the record that its tag names. -/
theorem readAt_union_of_named
    (named : Descriptor.namedRecords registry.structs members ≠ []) :
    readAt registry (.object entries) (.union members) path =
      readTagged registry (.object entries) ((Value.object entries).parts (Read.read registry)) tag
        (taggedRecords registry members) path := by
  have some : (taggedRecords registry members).isEmpty = false := by
    rw [Bool.eq_false_iff]
    exact fun none => named (namedRecords_eq_nil none)
  rw [readAt_eq, Read.read]
  simp only [readUnion, Value.isNull, Bool.false_and, Bool.false_eq_true, if_false, Value.entries?,
    isTag, some]

end Union

theorem exists_record_of_readTagged {raw value : Value} {parts : Parts Reader} {path : Path}
    {records : List (String × RecordView)}
    (reads : readTagged registry raw parts (.str name) records path = .ok value) :
    ∃ record, (name, record) ∈ records ∧ readRecord registry raw parts record path = .ok value := by
  unfold readTagged at reads
  split at reads
  next other record found =>
    have isName : name = other := by
      simpa [Value.isText, Value.text?] using List.find?_some found
    exact ⟨record, isName ▸ List.mem_of_find?_eq_some found, reads⟩
  next => cases reads

/-- The required fields of no record among the members but one are all keys of an object. -/
def FitsOnly (registry : Registry) (members : List Descriptor) (entries : Value.Entries)
    (record : RecordView) : Prop :=
  ∀ member ∈ Descriptor.nonNull members, ∀ view,
    member.unwrapped.record? registry.structs = some view → hasRequired entries view = true →
      view = record

/-- Read without a tag, an object is read against the one record that it fits. -/
theorem readUntagged_of_fitsOnly {raw : Value} {entries : Value.Entries} {parts : Parts Reader}
    (isMember : member ∈ Descriptor.nonNull members)
    (isRecord : member.unwrapped.record? registry.structs = some record)
    (present : hasRequired entries record = true)
    (alone : FitsOnly registry members entries record) (path : Path) :
    readUntagged registry raw entries parts (candidates registry raw parts members) path =
      readRecord registry raw parts record path := by
  have among (view : RecordView) : view ∈ (candidates registry raw parts members).filterMap
        (fun candidate => candidate.member.unwrapped.record? registry.structs) ↔
      ∃ other ∈ Descriptor.nonNull members,
        other.unwrapped.record? registry.structs = some view := by
    rw [candidates_eq, List.filterMap_map, List.mem_filterMap]
    rfl
  have chosen : ((candidates registry raw parts members).filterMap fun candidate =>
      candidate.member.unwrapped.record? registry.structs).find? (hasRequired entries) =
        some record := by
    cases found : List.find? (hasRequired entries) _ with
    | none =>
        have isAmong := (among record).mpr ⟨member, isMember, isRecord⟩
        exact absurd present (List.find?_eq_none.mp found record isAmong)
    | some view =>
        obtain ⟨other, isOther, isView⟩ := (among view).mp (List.mem_of_find?_eq_some found)
        rw [alone other isOther view isView (List.find?_some found)]
  simp only [readUntagged, chosen]

end Read

/-! ## Round trips -/

variable {registry : Registry} {record : RecordView} {cls : RecordClass} {values : List Value}

/-- The fields of an instance round trip: each value is written under a name of its own, is what the
field is read as from where it stands in the plain form of the instance, and the class makes the
instance again of the values. -/
structure RoundTripsFields (registry : Registry) (record : RecordView) (cls : RecordClass)
    (values : List Value) : Prop where
  complete : values.length = cls.fields.length
  names : (typeKey :: cls.fields.map (·.wireName)).Nodup
  plain : ∀ entry ∈ cls.fields.zip values, ∃ wire, Plain.plain entry.2 = .ok wire
  back : ∀ entries, Plain.plain (cls.holding values) = .ok (.object entries) →
    ∀ entry ∈ record.fields.zip values, readField registry.structs record.fields entries
      ((Value.object entries).parts (Read.read registry)) entry.1 [Path.key entry.1.name] =
        .ok entry.2
  remade : registry.library.validate registry.catalog cls.key (cls.offering values) =
    .ok (cls.holding values)

section

variable (fields : RoundTripsFields registry record cls values)
include fields

/-- The plain form of an instance is an object with the tag of its class, in which every record with
the class finds the fields that it demands. -/
theorem exists_plain_holding : ∃ entries : Fields,
    Plain.plain (cls.holding values) = .ok (.ofFields entries) ∧
    entries.get? typeKey = some (.str (Plain.tagName cls.tag)) ∧
    ∀ view : RecordView, view.IsBound registry.catalog cls →
      hasRequired (Value.entriesOf entries) view = true := by
  obtain ⟨entries, isPlain, isTag, held⟩ :=
    exists_plain_instance fields.complete fields.names fields.plain
  refine ⟨entries, isPlain, isTag, fun view bound => ?_⟩
  rw [hasRequired, List.all_eq_true]
  intro name isRequired
  obtain ⟨declared, isDeclared, isName⟩ := List.mem_filterMap.mp isRequired
  obtain ⟨required, isName⟩ := Option.ite_none_right_eq_some.mp isName
  obtain ⟨field, isField, sameName, sameDemand⟩ := exists_right_of_mem bound.fields isDeclared
  obtain ⟨value, -, isEntry⟩ := exists_right_of_mem (aligned_zip fields.complete.symm) isField
  obtain ⟨wire, isWire⟩ := fields.plain _ isEntry
  have kept : Plain.isOmitted field.tag value = false := by
    cases demanded : field.presence with
    | required => simp [Plain.isOmitted, ClassField.tag, demanded, Presence.isNullDefault]
    | _ => simp [sameDemand, demanded, Presence.isRequired] at required
  have isHeld := held (field, value) isEntry wire isWire
  rw [kept, ← sameName, Option.some.inj isName] at isHeld
  rw [Value.Entries.has, Value.get?_entriesOf, isHeld]
  rfl

theorem readRecord_holding (bound : record.IsBound registry.catalog cls) {entries : Fields}
    (isPlain : Plain.plain (cls.holding values) = .ok (.ofFields entries)) :
    readRecord registry (.ofFields entries) ((Value.ofFields entries).parts (Read.read registry))
      record [] = .ok (cls.holding values) := by
  have distinct := (List.nodup_cons.mp fields.names).2
  refine readRecord_instance fields.complete bound.isClass bound.names distinct ?_
    fields.remade
  rw [List.forall₂_iff_zip]
  exact ⟨bound.fields.length_eq.trans fields.complete.symm, fun isEntry =>
    fields.back _ isPlain _ isEntry⟩

end

/-- A union is one of records with classes, the named ones under different names. -/
structure IsRecordUnion (registry : Registry) (members : List Descriptor) : Prop where
  bound : ∀ member ∈ Descriptor.nonNull members, ∃ record cls,
    member.unwrapped.record? registry.structs = some record ∧ record.IsBound registry.catalog cls
  distinct : ((Descriptor.namedRecords registry.structs members).map Prod.fst).Nodup

/-- A tag that an instance is read back by is the name of its record: whichever record the tag names
has the class of the instance, so it is the only one that the instance fits. -/
theorem tag?_of_readTagged (makesInstances : registry.library.MakesInstances)
    {members : List Descriptor} (records : IsRecordUnion registry members)
    (bound : record.IsBound registry.catalog cls) {entries : Value.Entries}
    (present : ∀ view : RecordView, view.IsBound registry.catalog cls →
      hasRequired entries view = true)
    (fits : FitsOnly registry members entries record) {parts : Parts Reader} {name : String}
    {path : Path} (reads : readTagged registry (.object entries) parts (.str name)
      (taggedRecords registry members) path = .ok (cls.holding values)) :
    record.tag? = some name := by
  obtain ⟨other, isTagged, reads⟩ := exists_record_of_readTagged reads
  obtain ⟨choice, isChoice, isView⟩ := exists_member_of_mem_taggedRecords isTagged
  obtain ⟨view, viewClass, isOwn, viewBound⟩ := records.bound choice isChoice
  obtain rfl := Option.some.inj (isOwn.symm.trans isView)
  have sameKey : cls.key = viewClass.key := key_of_readRecord makesInstances viewBound reads
  obtain rfl : viewClass = cls := by
    have same := viewBound.found
    rw [← sameKey, bound.found] at same
    exact (Option.some.inj same).symm
  obtain rfl := fits choice isChoice view isView (present view viewBound)
  exact tag?_of_mem_taggedRecords isTagged

/-- An instance of a member's class whose fields round trip, and which fits no other member, is read
back against the union exactly if its tag is the name of the member or no member has a name. -/
theorem read_union_iff (makesInstances : registry.library.MakesInstances)
    {members : List Descriptor} (records : IsRecordUnion registry members)
    {member : Descriptor} (isMember : member ∈ Descriptor.nonNull members)
    (isRecord : member.unwrapped.record? registry.structs = some record)
    (bound : record.IsBound registry.catalog cls)
    (fields : RoundTripsFields registry record cls values)
    (alone : ∀ entries, Plain.plain (cls.holding values) = .ok (.object entries) →
      FitsOnly registry members entries record) :
    ∃ wire, Plain.plain (cls.holding values) = .ok wire ∧
      (read registry wire (.union members) = .ok (cls.holding values) ↔
        record.tag? = some (Plain.tagName cls.tag) ∨
          Descriptor.namedRecords registry.structs members = []) := by
  obtain ⟨entries, isPlain, isTag, present⟩ := exists_plain_holding fields
  refine ⟨.ofFields entries, isPlain, ?_⟩
  have back := readRecord_holding fields bound isPlain
  have fits := alone _ isPlain
  have tagged := (Value.get?_entriesOf entries typeKey).trans isTag
  rw [Value.ofFields_eq] at back ⊢
  by_cases unnamed : Descriptor.namedRecords registry.structs members = []
  · rw [read, readAt_union_of_unnamed tagged [] unnamed,
      readUntagged_of_fitsOnly isMember isRecord (present record bound) fits]
    exact iff_of_true back (.inr unnamed)
  · rw [read, readAt_union_of_named tagged [] unnamed, or_iff_left unnamed]
    refine ⟨tag?_of_readTagged makesInstances records bound present fits, fun isName => ?_⟩
    have isTagged := mem_taggedRecords isMember isRecord isName
    rw [readTagged_of_mem (map_fst_taggedRecords registry members ▸ records.distinct) isTagged]
    exact back

/-! ### An answer among tools -/

def answerFields : List Field := [⟨"answer", .scalar .string, true, none, none⟩]

def searchFields : List Field := [⟨"pattern", .scalar .string, true, none, none⟩]

/-- A struct of searches and an unnamed record of answers are declared. -/
def declareSearch : Registry.Action FixedRecord := do
  let _ ← Registry.defineStruct "Grep" "Grep" searchFields none
  Registry.defineRecord "Answer" none answerFields none

/-- A registry with a struct of searches and a class of answers. -/
def searchRegistry : Registry := (declareSearch.run Registry.empty).2

/-- The class that is built for searches. -/
def searchClass : RecordClass :=
  ⟨.declared 0, "Grep", none, [.base],
    [⟨"pattern", none, .scalar .string, .required, none, .none⟩]⟩

/-- The class that is built for answers. -/
def answerClass : RecordClass :=
  ⟨.declared 1, "AnonymousRecord", none, [.anonymous, .base],
    [⟨"answer", none, .scalar .string, .required, none, .none⟩]⟩

def answerRecord : FixedRecord := ⟨answerFields, none, some (.declared 1), none⟩

def answerOrSearch : List Descriptor := [.optional (.fixed answerRecord), .struct 0, .null]

/-- The records of searches and answers, with the classes that are built for them. -/
def searchRecords : List (RecordView × RecordClass) :=
  [((searchRegistry.structs.at 0).view, searchClass), (FixedRecord.view answerRecord, answerClass)]

section Search

variable {record : RecordView} {cls : RecordClass} (isRecord : (record, cls) ∈ searchRecords)
include isRecord

theorem search_isBound : record.IsBound searchRegistry.catalog cls := by
  rcases List.mem_pair.mp isRecord with same | same
  all_goals
    cases same
    exact ⟨rfl, rfl, .cons ⟨rfl, rfl⟩ .nil⟩

theorem search_roundTripsFields (text : String) :
    RoundTripsFields searchRegistry record cls [.str text] := by
  rcases List.mem_pair.mp isRecord with same | same
  all_goals
    cases same
    constructor
    · rfl
    · decide
    · exact List.forall_mem_singleton.mpr ⟨_, rfl⟩
    · intro entries isPlain
      cases isPlain
      exact List.forall_mem_singleton.mpr rfl
    · rfl

theorem search_fitsOnly (text : String) (entries : Value.Entries)
    (isPlain : Plain.plain (cls.holding [.str text]) = .ok (.object entries)) :
    FitsOnly searchRegistry answerOrSearch entries record := by
  intro member isMember view isView fits
  have others : member ∈ [Descriptor.optional (.fixed answerRecord), .struct 0] := isMember
  rcases List.mem_pair.mp isRecord with same | same
  all_goals
    cases same
    cases isPlain
    rcases List.mem_pair.mp others with rfl | rfl
    all_goals cases isView
  · cases fits
  · rfl
  · rfl
  · cases fits

end Search

theorem answerOrSearch_isRecordUnion : IsRecordUnion searchRegistry answerOrSearch where
  bound := by
    have others : Descriptor.nonNull answerOrSearch =
        [.optional (.fixed answerRecord), .struct 0] := rfl
    simp only [others, List.forall_mem_cons]
    exact ⟨⟨_, _, rfl, search_isBound (List.mem_cons_of_mem _ List.mem_cons_self)⟩,
      ⟨_, _, rfl, search_isBound List.mem_cons_self⟩, List.forall_mem_nil _⟩
  distinct := by decide

/-- A search is read back, since its tag is the name of its struct. -/
theorem search_read : searchRegistry.library.MakesInstances ∧
    ∃ wire, Plain.plain (searchClass.holding [.str "TODO"]) = .ok wire ∧
    read searchRegistry wire (.union answerOrSearch) = .ok (searchClass.holding [.str "TODO"]) := by
  have isSearch : ((searchRegistry.structs.at 0).view, searchClass) ∈ searchRecords :=
    List.mem_cons_self
  have makesInstances : searchRegistry.library.MakesInstances :=
    ClassLibrary.reference_makesInstances
  obtain ⟨wire, isPlain, reads⟩ := read_union_iff makesInstances answerOrSearch_isRecordUnion
    (List.mem_cons_of_mem _ List.mem_cons_self) rfl (search_isBound isSearch)
    (search_roundTripsFields isSearch "TODO") (search_fitsOnly isSearch "TODO")
  exact ⟨makesInstances, wire, isPlain, reads.mpr (.inl rfl)⟩

/-- An answer is refused for its tag, which is the name of no record, although its text round trips
and it is no search. -/
theorem answer_refused : IsRecordUnion searchRegistry answerOrSearch ∧
    RoundTripsFields searchRegistry (FixedRecord.view answerRecord) answerClass [.str "none"] ∧
    (∀ entries, Plain.plain (answerClass.holding [.str "none"]) = .ok (.object entries) →
      FitsOnly searchRegistry answerOrSearch entries (FixedRecord.view answerRecord)) ∧
    ∃ wire, Plain.plain (answerClass.holding [.str "none"]) = .ok wire ∧
      read searchRegistry wire (.union answerOrSearch) =
        fail [Path.key typeKey] "Grep" (.str "AnonymousRecord") (.unknownTag ["Grep"]) := by
  have isAnswer : (FixedRecord.view answerRecord, answerClass) ∈ searchRecords :=
    List.mem_cons_of_mem _ List.mem_cons_self
  exact ⟨answerOrSearch_isRecordUnion, search_roundTripsFields isAnswer "none",
    search_fitsOnly isAnswer "none", _, rfl, rfl⟩

end TypedReply
