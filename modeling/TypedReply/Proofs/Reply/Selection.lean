import TypedReply.Proofs.Reply.Unions

/-!
# Selection

Reading a value against a union comes down to reading it against one of the members, except that a
value that is no object may be tried against several. Which member that is is a matter of the value
and the members alone, so the places that reading leads to, each a part of the value with the
descriptor that it is read against, can be described without reading.
-/

namespace TypedReply

open Read

namespace Descriptor

/-- The tag of an object that decides between the members of a union, if there are records with
names. -/
def decidingTag? (store : Store) (members : List Descriptor) (entries : Value.Entries) :
    Option Value :=
  if (namedRecords store members).isEmpty then none else entries.get? typeKey

/-- The record among the members of a union that a tag names. -/
def taggedRecord? (store : Store) (members : List Descriptor) (tag : Value) : Option Descriptor :=
  ((namedRecords store members).find? fun record => tag.isText record.1).map Prod.snd

/-- Whether a descriptor is a record, or optionally one, whose required fields an object all has. -/
def isComplete (store : Store) (entries : Value.Entries) (member : Descriptor) : Bool :=
  (member.unwrapped.record? store).any (hasRequired entries)

/-- The member of a union that an object is read against where no tag decides: the first complete
record, else the first map. -/
def untaggedMember? (store : Store) (members : List Descriptor) (entries : Value.Entries) :
    Option Descriptor :=
  (((nonNull members).find? (isComplete store entries)).map unwrapped).or
    ((nonNull members).find? isMap)

/-- Whether a value that is no object is tried against a member. -/
def isTried (member : Descriptor) : Bool := !member.isRecord && !isMap member

end Descriptor

open Descriptor

variable {registry : Registry} {members : List Descriptor} {raw : Value} {entries : Value.Entries}

/-! ## Objects -/

theorem taggedRecords_aligned (registry : Registry) (members : List Descriptor) :
    List.Forall₂ (fun record entry => record.1 = entry.1 ∧
        record.2.record? registry.structs = some entry.2)
      (namedRecords registry.structs members) (taggedRecords registry members) := by
  have each := fun record isRecord =>
    (@of_mem_namedRecords registry.structs members record isRecord).2
  unfold taggedRecords
  generalize namedRecords registry.structs members = records at each ⊢
  induction records with
  | nil => exact .nil
  | cons record records ih =>
      obtain ⟨first, others⟩ := List.forall_mem_cons.mp each
      obtain ⟨view, isView⟩ := first
      simp only [List.filterMap_cons, isView, Option.map_some]
      exact .cons ⟨rfl, isView⟩ (ih others)

/-- What a tag finds among the records is what reading sees of the record that it selects. -/
theorem find?_taggedRecords (registry : Registry) (members : List Descriptor) (tag : Value) :
    Option.Rel (fun record entry => record.1 = entry.1 ∧
        record.2.record? registry.structs = some entry.2)
      ((namedRecords registry.structs members).find? fun record => tag.isText record.1)
      ((taggedRecords registry members).find? fun entry => tag.isText entry.1) :=
  find?_aligned (taggedRecords_aligned registry members) fun record entry same => by rw [same.1]

section Tagged

variable {tag : Value} (isTag : decidingTag? registry.structs members entries = some tag)
include isTag

theorem readAt_union_deciding (path : Path) :
    readAt registry (.object entries) (.union members) path =
      readTagged registry (.object entries) ((Value.object entries).parts (Read.read registry)) tag
        (taggedRecords registry members) path := by
  unfold decidingTag? at isTag
  split at isTag
  · cases isTag
  next named => exact readAt_union_of_named isTag path fun none => named (by rw [none]; rfl)

theorem readAt_union_of_record {record : Descriptor}
    (isRecord : taggedRecord? registry.structs members tag = some record) (path : Path) :
    readAt registry (.object entries) (.union members) path =
      readAt registry (.object entries) record path := by
  have found := find?_taggedRecords registry members tag
  rw [readAt_union_deciding isTag, readTagged]
  obtain ⟨pair, isPair, rfl⟩ := Option.map_eq_some_iff.mp isRecord
  rw [isPair] at found
  generalize (taggedRecords registry members).find? (fun entry => tag.isText entry.1) = entry
    at found ⊢
  cases found with
  | some same => rw [readAt_eq, read_eq_readRecord same.2]

/-- An object whose tag names no record is refused, and the tag is what the error complains about. -/
theorem readAt_union_of_unknown (unknown : taggedRecord? registry.structs members tag = none)
    (path : Path) :
    ∃ error, readAt registry (.object entries) (.union members) path = .error (.reply error) ∧
      error.className = "DeserializationError" ∧ error.path = path ++ [Path.key typeKey] ∧
        error.received = tag := by
  have found := find?_taggedRecords registry members tag
  rw [readAt_union_deciding isTag, readTagged]
  rw [Option.map_eq_none_iff.mp unknown] at found
  generalize (taggedRecords registry members).find? (fun entry => tag.isText entry.1) = entry
    at found ⊢
  cases found
  exact ⟨_, rfl, rfl, rfl, rfl⟩

theorem exists_error_of_unknown (unknown : taggedRecord? registry.structs members tag = none)
    (path : Path) :
    ∃ error, readAt registry (.object entries) (.union members) path = .error (.reply error) :=
  (readAt_union_of_unknown isTag unknown path).imp fun _ refused => refused.1

end Tagged

/-- An object whose tag does not decide is read against the member that it fits, or kept. -/
theorem readAt_union_undecided (untagged : decidingTag? registry.structs members entries = none)
    (path : Path) : readAt registry (.object entries) (.union members) path =
      match untaggedMember? registry.structs members entries with
      | some member => readAt registry (.object entries) member path
      | none => .ok (.object entries) := by
  have isUntagged : readAt registry (.object entries) (.union members) path =
      readUntagged registry (.object entries) entries
        ((Value.object entries).parts (Read.read registry))
        (candidates registry (.object entries) ((Value.object entries).parts (Read.read registry))
          members) path := by
    unfold decidingTag? at untagged
    split at untagged
    next unnamed =>
      have isEmpty := List.isEmpty_iff.mp unnamed
      cases isTag : entries.get? typeKey with
      | some tag => exact readAt_union_of_unnamed isTag path isEmpty
      | none =>
          rw [readAt_eq, Read.read]
          simp only [readUnion, Value.isNull, Bool.false_and, Bool.false_eq_true, if_false,
            Value.entries?, isTag]
    next =>
      rw [readAt_eq, Read.read]
      simp only [readUnion, Value.isNull, Bool.false_and, Bool.false_eq_true, if_false,
        Value.entries?, untagged]
  have complete : ((nonNull members).find? fun member =>
      (((fun candidate : Candidate => candidate.member.unwrapped.record? registry.structs) ∘
        fun member => ⟨member, readAt registry (.object entries) member⟩) member).any
          (hasRequired entries)) = (nonNull members).find? (isComplete registry.structs entries) :=
    rfl
  have map : ((nonNull members).find? ((fun candidate : Candidate => isMap candidate.member) ∘
      fun member => ⟨member, readAt registry (.object entries) member⟩)) =
        (nonNull members).find? isMap := rfl
  rw [isUntagged, readUntagged, candidates_parts, List.filterMap_map, List.find?_map,
    List.find?_filterMap, complete, map, untaggedMember?]
  cases found : (nonNull members).find? (isComplete registry.structs entries) with
  | some member =>
      have fits : isComplete registry.structs entries member = true := List.find?_some found
      unfold isComplete at fits
      obtain ⟨view, isView, -⟩ := (Option.any_eq_true _ _).mp fits
      simp only [Option.bind_some, Function.comp_apply, isView, Option.map_some, Option.some_or]
      rw [readAt_eq, read_eq_readRecord isView]
  | none =>
      simp only [Option.bind_none, Option.map_none, Option.none_or]
      cases (nonNull members).find? isMap <;> rfl

/-! ## Other values -/

theorem readAt_union_null (nilable : nilable members = true) (path : Path) :
    readAt registry .null (.union members) path = .ok .null := by
  rw [readAt_eq, Read.read]
  simp only [readUnion, Value.isNull, nilable, Bool.and_self, if_true]

/-- A value that is no object is read against the first member of which it has the shape, or tried
against all that are no records and no maps. -/
theorem readAt_union_plain (plain : raw.isObject = false)
    (present : (raw.isNull && nilable members) = false) (path : Path) :
    readAt registry raw (.union members) path =
      match (nonNull members).find? (exactMatch raw) with
      | some member => readAt registry raw member path
      | none => firstAccepted raw path (((nonNull members).filter isTried).map fun member =>
          ⟨member, readAt registry raw member⟩) := by
  have noEntries : raw.entries? = none := by
    cases isEntries : raw.entries? with
    | none => rfl
    | some entries =>
        rw [Value.isObject, isEntries] at plain
        cases plain
  rw [readAt_eq, Read.read, candidates_parts]
  simp only [readUnion, present, Bool.false_eq_true, if_false, noEntries, readPlain, List.find?_map,
    List.filter_map]
  have exact : ((nonNull members).find? ((fun candidate : Candidate =>
      exactMatch raw candidate.member) ∘ fun member => ⟨member, readAt registry raw member⟩)) =
        (nonNull members).find? (exactMatch raw) := rfl
  rw [exact]
  cases (nonNull members).find? (exactMatch raw) <;> rfl

/-! ## Places -/

theorem picksByShape?_eq (key : Part Reader) (members : List Descriptor) :
    picksByShape? key members =
      ((nonNull members).find? (exactMatch key.value)).map (picks key) := by
  induction members with
  | nil => simp [picksByShape?, nonNull]
  | cons member members ih =>
      simp only [nonNull] at ih ⊢
      cases isNull : member.isNull <;> cases isShaped : exactMatch key.value member <;>
        simp [picksByShape?, isNull, isShaped, ih]

theorem picksByTrial_eq (key : Part Reader) (members : List Descriptor) :
    picksByTrial key members = picksByTrial key ((nonNull members).filter isTried) := by
  induction members with
  | nil => rfl
  | cons member members ih =>
      simp only [nonNull] at ih ⊢
      cases isNull : member.isNull <;> cases isRecord : member.isRecord <;>
        cases isMapped : isMap member <;>
          simp [picksByTrial, isTried, isNull, isRecord, isMapped, ih]

/-- Whether a key is read as a choice of a union: the first member other than null that it has the
shape of decides, or else the first of those that are tried and accept it. -/
theorem picks_union (key : Part Reader) (members : List Descriptor) :
    picks key (.union members) =
      match (nonNull members).find? (exactMatch key.value) with
      | some member => picks key member
      | none => picksByTrial key ((nonNull members).filter isTried) := by
  rw [picks, picksByShape?_eq, picksByTrial_eq]
  cases (nonNull members).find? (exactMatch key.value) <;> rfl

/-- To read a value against a union it is read against a member. -/
inductive Selects (registry : Registry) (members : List Descriptor) : Value → Descriptor → Prop where
  /-- The tag decides. -/
  | tagged {entries : Value.Entries} {tag : Value} {record : Descriptor}
      (isTag : decidingTag? registry.structs members entries = some tag)
      (isRecord : taggedRecord? registry.structs members tag = some record) :
      Selects registry members (.object entries) record
  /-- No tag decides. -/
  | untagged {entries : Value.Entries} {member : Descriptor}
      (untagged : decidingTag? registry.structs members entries = none)
      (isMember : untaggedMember? registry.structs members entries = some member) :
      Selects registry members (.object entries) member
  /-- The value is no object, and the member is the first of which it has the shape. -/
  | shaped {raw : Value} {member : Descriptor} (plain : raw.isObject = false)
      (isMember : (nonNull members).find? (exactMatch raw) = some member) :
      Selects registry members raw member
  /-- The value is no object, has the shape of no member and is refused by those that are tried
  before. -/
  | tried {raw : Value} {before after : List Descriptor} {member : Descriptor}
      (plain : raw.isObject = false)
      (shapeless : (nonNull members).find? (exactMatch raw) = none)
      (split : (nonNull members).filter isTried = before ++ member :: after)
      (refused : ∀ other ∈ before, ∃ error, read registry raw other = .error (.reply error)) :
      Selects registry members raw member

/-- To read a value against a descriptor, a value is read next against a descriptor: a part of the
value, or the value itself against what it is read as. -/
inductive ReadsNext (registry : Registry) : Descriptor × Value → Descriptor × Value → Prop where
  | item {element : Descriptor} {raw : Value} {items : List Value} {item : Value}
      (isList : raw.items? = some items) (isItem : item ∈ items) :
      ReadsNext registry (.array element, raw) (element, item)
  | key {key element : Descriptor} {entries : Value.Entries} {entry : Value × Value}
      (isEntry : entry ∈ entries) :
      ReadsNext registry (.map key element, .object entries) (key, entry.1)
  | value {key element : Descriptor} {entries : Value.Entries} {entry : Value × Value}
      (isEntry : entry ∈ entries) :
      ReadsNext registry (.map key element, .object entries) (element, entry.2)
  | inner {inner : Descriptor} {raw : Value}
      (admitted : ∀ name tag, inner.tag? registry.structs = some name →
        raw.get? typeKey = some tag → tag.isText name = true) :
      ReadsNext registry (.optional inner, raw) (inner, raw)
  | member {members : List Descriptor} {raw : Value} {member : Descriptor}
      (selects : Selects registry members raw member) :
      ReadsNext registry (.union members, raw) (member, raw)
  | field {record : Descriptor} {field : Field} {entries : Value.Entries} {part : Value}
      (isField : field ∈ record.fields registry.structs)
      (isPart : entries.get? field.name = some part) :
      ReadsNext registry (record, .object entries)
        ((discriminated? (Discrimination.detect registry.structs (record.fields registry.structs))
          entries field part).getD field.type, part)

/-- In the course of reading a value against a descriptor, a value comes to where a union is
described, though a discriminator may choose its record. -/
inductive ReachesUnion (registry : Registry) (descriptor : Descriptor) (raw : Value)
    (members : List Descriptor) (part : Value) : Prop where
  | read (reaches : Relation.ReflTransGen (ReadsNext registry) (descriptor, raw)
      (.union members, part)) : ReachesUnion registry descriptor raw members part
  | payload {record : Descriptor} {field : Field} {entries : Value.Entries}
      (reaches : Relation.ReflTransGen (ReadsNext registry) (descriptor, raw)
        (record, .object entries))
      (isField : field ∈ record.fields registry.structs)
      (isUnion : field.type.unwrapped = .union members)
      (isPart : entries.get? field.name = some part) :
      ReachesUnion registry descriptor raw members part

/-- What is reached from what is read next is reached. -/
theorem ReachesUnion.of_next {descriptor next : Descriptor} {held part : Value}
    (reaches : ReachesUnion registry next held members part)
    (isNext : ReadsNext registry (descriptor, raw) (next, held)) :
    ReachesUnion registry descriptor raw members part := by
  cases reaches with
  | read reaches => exact .read (.head isNext reaches)
  | payload reaches isField isUnion isPart =>
      exact .payload (.head isNext reaches) isField isUnion isPart

/-- What a value is read against in a union is a member, or a record that a member is, or is
optionally. -/
theorem Selects.cases_of_selects {member : Descriptor} (selects : Selects registry members raw member) :
    (member.IsMemberOf members ∧ ∃ record, member.record? registry.structs = some record) ∨
      member ∈ members := by
  cases selects with
  | tagged _ isRecord =>
      obtain ⟨pair, isPair, rfl⟩ := Option.map_eq_some_iff.mp isRecord
      exact .inl (of_mem_namedRecords (List.mem_of_find?_eq_some isPair))
  | @untagged entries _ _ isMember =>
      unfold untaggedMember? at isMember
      cases found : (nonNull members).find? (isComplete registry.structs entries) with
      | some complete =>
          rw [found] at isMember
          cases isMember
          have fits : isComplete registry.structs entries complete = true := List.find?_some found
          unfold isComplete at fits
          obtain ⟨view, isView, -⟩ := (Option.any_eq_true _ _).mp fits
          exact .inl ⟨⟨complete, List.mem_of_find?_eq_some found, rfl⟩, view, isView⟩
      | none =>
          rw [found] at isMember
          exact .inr (List.mem_of_mem_filter (List.mem_of_find?_eq_some isMember))
  | shaped _ isMember => exact .inr (List.mem_of_mem_filter (List.mem_of_find?_eq_some isMember))
  | tried _ _ split =>
      have isTried : member ∈ (nonNull members).filter isTried :=
        split ▸ List.mem_append_right _ List.mem_cons_self
      exact .inr (List.mem_of_mem_filter (List.mem_of_mem_filter isTried))

theorem Descriptor.reaches_unwrapped (store : Store) (descriptor : Descriptor) :
    Reaches store descriptor descriptor.unwrapped := by
  cases descriptor with
  | optional inner => exact .single (.inner inner)
  | _ => exact .refl

theorem Descriptor.IsMemberOf.reaches {store : Store} {record : Descriptor}
    (isMember : record.IsMemberOf members) : Reaches store (.union members) record := by
  obtain ⟨member, isMember, rfl⟩ := isMember
  exact .head (.member (List.mem_of_mem_filter isMember)) (reaches_unwrapped store member)

theorem Selects.reaches {member : Descriptor} (selects : Selects registry members raw member) :
    Reaches registry.structs (.union members) member := by
  cases selects.cases_of_selects with
  | inl isRecord => exact isRecord.1.reaches
  | inr isMember => exact .single (.member isMember)

/-- What a value is read against next is reached by what it, or the whole, is read against. -/
theorem ReadsNext.reaches {descriptor next : Descriptor} {part : Value}
    (isNext : ReadsNext registry (descriptor, raw) (next, part)) :
    Reaches registry.structs descriptor next := by
  cases isNext with
  | item => exact .single (.element next)
  | key => exact .single (.key _ _)
  | value => exact .single (.value _ _)
  | inner => exact .single (.inner _)
  | member selects => exact selects.reaches
  | @field _ field entries part isField isPart =>
      cases chosen : discriminated? (Discrimination.detect registry.structs
          (descriptor.fields registry.structs)) entries field part with
      | none => exact .single (.field isField)
      | some record =>
          obtain ⟨other, isOther, -, members, isUnion, isMember⟩ :=
            exists_field_of_discriminated? chosen
          have through := reaches_unwrapped registry.structs other.type
          rw [isUnion] at through
          exact .head (.field isOther) (through.trans isMember.reaches)

end TypedReply
