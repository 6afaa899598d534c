import TypedReply.Proofs.Accord
import TypedReply.Proofs.Descriptor.Reordering
import TypedReply.Proofs.Reply.Selection
import TypedReply.Proofs.Value.KeyOrder

/-!
# Two readings side by side

A value is read against a descriptor, and a value that is like it against a reordered form of the
descriptor. Whatever decides how reading goes on is the same on both sides, provided that objects are
tagged where the members of a union are permuted, so the readings accord at every part of the value.
-/

namespace TypedReply

open Read Descriptor

/-! ## What reading sees of a value -/

namespace Value.SameUpToOrder

variable {value other : Value} (same : SameUpToOrder value other)
include same

theorem carriedText : (memberValue value).text? = (memberValue other).text? := by
  cases same <;> rfl

theorem matchesScalar (kind : ScalarKind) :
    TypedReply.matchesScalar kind value = TypedReply.matchesScalar kind other := by
  cases same with
  | refl => rfl
  | _ => cases kind <;> rfl

theorem has (type : EnumType) : type.has value = type.has other := by
  cases type with
  | choices values =>
      change (values.any fun choice => value.sameType choice && value.same choice) =
        values.any fun choice => other.sameType choice && other.same choice
      congr 1
      funext choice
      rw [same.sameType, same.same_eq]
  | ofClass cls => cases same <;> rfl

theorem exactMatch (descriptor : Descriptor) :
    Read.exactMatch value descriptor = Read.exactMatch other descriptor := by
  induction descriptor using Descriptor.induction with
  | scalar kind => exact same.matchesScalar kind
  | enum type => exact same.has type
  | array => exact isSome_of_rel same.items?
  | null => exact same.isNull
  | optional inner ih => rw [Read.exactMatch, Read.exactMatch, ih, same.isNull]
  | _ => rfl

theorem object_or_plain : (∃ entries others, value = .object entries ∧ other = .object others) ∨
    value.isObject = false ∧ other.isObject = false := by
  cases same with
  | refl =>
      cases value with
      | object entries => exact .inl ⟨entries, entries, rfl, rfl⟩
      | _ => exact .inr ⟨rfl, rfl⟩
  | list => exact .inr ⟨rfl, rfl⟩
  | object => exact .inl ⟨_, _, rfl, rfl⟩

theorem isTagged : Read.isTagged value = Read.isTagged other := isSome_of_rel (same.get?_rel typeKey)

theorem isText (text : String) : value.isText text = other.isText text := by
  rw [Value.isText, Value.isText, same.text?]

end Value.SameUpToOrder

theorem isReply_of_coerceEnum {type : EnumType} {value : Value} {path : Path} {failure : Failure}
    (fails : coerceEnum type value path = .error failure) : failure.isReply = true := by
  unfold coerceEnum at fails
  split at fails
  · cases fails
  dsimp only at fails
  split at fails
  · cases fails
    rfl
  split at fails
  · cases fails
  · cases fails
    rfl

theorem exists_error_of_readAt_record {registry : Registry} {descriptor : Descriptor}
    {record : RecordView} (isRecord : descriptor.record? registry.structs = some record)
    (classless : record.cls = none) {value : Value} (plain : value.isObject = false) (path : Path) :
    ∃ error, readAt registry value descriptor path = .error (.reply error) := by
  have noEntries : value.entries? = none := by simpa [Value.isObject] using plain
  have notInstance : isInstanceOf record value = false := by rw [isInstanceOf, classless]
  rw [readAt_eq, read_eq_readRecord isRecord]
  simp only [readRecord, notInstance, Bool.false_eq_true, if_false, noEntries]
  exact ⟨_, rfl⟩

/-- An object is read as a record without a class by reading the fields of the record. -/
theorem readAt_record_of_classless {registry : Registry} {descriptor : Descriptor}
    {record : RecordView} (isRecord : descriptor.record? registry.structs = some record)
    (classless : record.cls = none) (entries : Value.Entries) (path : Path) :
    readAt registry (.object entries) descriptor path =
      (fieldValues registry.structs entries ((Value.object entries).parts (Read.read registry))
        (descriptor.fields registry.structs) path).map fun values =>
          .object (Value.Entries.ofPairs values) := by
  rw [readAt_record isRecord, fields_of_record? isRecord]
  simp only [instantiate, classless]
  rfl

/-- Two candidates that accord leave the choice to those after them, or end it alike. -/
theorem Accord.firstAccepted {faults : Prop} {related : Value → Value → Prop} {raw twin : Value}
    {path : Path} {candidate other : Candidate} {candidates others : List Candidate}
    (accord : Accord faults related (candidate.read path) (other.read path))
    (rest : (∃ error, candidate.read path = .error (.reply error)) →
      Accord faults related (firstAccepted raw path candidates) (firstAccepted twin path others)) :
    Accord faults related (Read.firstAccepted raw path (candidate :: candidates))
      (Read.firstAccepted twin path (other :: others)) := by
  rw [Read.firstAccepted, Read.firstAccepted]
  generalize candidate.read path = outcome at accord rest ⊢
  generalize other.read path = otherOutcome at accord ⊢
  cases accord with
  | returned isRelated => exact .returned isRelated
  | refused error => exact rest ⟨error, rfl⟩
  | @escaped failure otherFailure allowed isFatal isOther =>
      cases failure with
      | reply => cases isFatal
      | _ =>
          cases otherFailure with
          | reply => cases isOther
          | _ => exact .escaped allowed isFatal isOther

/-! ## Comparisons -/

/-- Two readings to be compared. -/
structure Comparison where
  registry : Registry
  other : Registry
  /-- The unions whose members may stand in another order. -/
  permuted : List Descriptor → Prop
  /-- The structs that stand for each other. -/
  corresponds : StructId → StructId → Prop
  /-- Failures other than errors of the reply may be met. -/
  faults : Prop
  /-- The values that are read. -/
  like : Value → Value → Prop
  /-- The values that they are read as. -/
  gives : Value → Value → Prop
  /-- The descriptors of the keys of maps. -/
  keyed : Descriptor → Prop

namespace Comparison

variable (comparison : Comparison)

/-- Descriptors that are reordered forms of each other. -/
abbrev Reorders : Descriptor → Descriptor → Prop :=
  Descriptor.Reorders comparison.permuted comparison.corresponds

/-- A descriptor that readings can be compared against: it has no class, what is no descriptor stands
only where faults may be met, and maps are keyed as they may be. -/
structure Suits (descriptor : Descriptor) : Prop where
  classless : ∀ record, descriptor.record? comparison.registry.structs = some record →
    record.cls = none
  described : ∀ value, descriptor = .stray value → comparison.faults
  keyed : ∀ key element, descriptor = .map key element → comparison.keyed key

/-- The readings of a value against a descriptor and its reordered form can be compared: objects that
come to a union whose members are permuted are tagged. -/
structure Compares (value : Value) (descriptor reordered : Descriptor) : Prop where
  reorders : comparison.Reorders descriptor reordered
  suits : Throughout comparison.registry.structs comparison.Suits descriptor
  tagged : ∀ members part, comparison.permuted members →
    ReachesUnion comparison.registry descriptor value members part →
      part.isObject = true → isTagged part = true

/-- The reading of a value and that of a value like it accord. -/
def AccordsAt (value twin : Value) (descriptor reordered : Descriptor) : Prop :=
  ∀ path, Accord comparison.faults comparison.gives
    (readAt comparison.registry value descriptor path) (readAt comparison.other twin reordered path)

/-- Wherever the readings of a value and of values like it can be compared, they accord. -/
def Agrees (value : Value) : Prop :=
  ∀ twin, comparison.like value twin → ∀ descriptor reordered,
    comparison.Compares value descriptor reordered →
      comparison.AccordsAt value twin descriptor reordered

/-- A value is read as a choice exactly if a value like it is. -/
def PicksAlike (value twin : Value) (descriptor reordered : Descriptor) : Prop :=
  picks (value.toPart (Read.read comparison.registry)) descriptor =
    picks (twin.toPart (Read.read comparison.other)) reordered

/-- What a comparison needs: values that are alike are the same up to the order of keys, and so are
their parts, and what is read of them is put together alike. -/
structure IsFair : Prop where
  tagUnions : ∀ members, comparison.permuted members →
    IsTagUnion comparison.registry.structs members
  correspond : Store.Correspond comparison.permuted comparison.corresponds
    comparison.registry.structs comparison.other.structs
  same : ∀ {value twin}, comparison.like value twin → value.SameUpToOrder twin
  items : ∀ {value twin}, comparison.like value twin →
    Option.Rel (List.Forall₂ comparison.like) value.items? twin.items?
  get? : ∀ {value twin}, comparison.like value twin → ∀ name,
    Option.Rel comparison.like (value.get? name) (twin.get? name)
  scalar : ∀ {value twin}, comparison.like value twin → ∀ kind path failure,
    coerceScalar kind value path = .error failure → failure.isReply = true ∨ comparison.faults
  kept : ∀ {value twin}, comparison.like value twin → comparison.gives value twin
  refl : ∀ value, comparison.gives value value
  lists : ∀ {values others}, List.Forall₂ comparison.gives values others →
    comparison.gives (.list values) (.list others)
  records : ∀ {pairs others}, List.Forall₂ (fun pair other => ∃ name, pair.1 = .str name ∧
      other.1 = .str name ∧ comparison.gives pair.2 other.2) pairs others →
    comparison.gives (.object (Value.Entries.ofPairs pairs)) (.object (Value.Entries.ofPairs others))
  maps : ∀ {entries others key element otherKey otherElement},
    comparison.like (.object entries) (.object others) → comparison.keyed key →
    comparison.Reorders key otherKey →
    (∀ entry ∈ entries, ∀ twin, comparison.like entry.1 twin →
      comparison.AccordsAt entry.1 twin key otherKey) →
    (∀ entry ∈ entries, ∀ twin, comparison.like entry.1 twin → entry.1.isObject = false →
      comparison.PicksAlike entry.1 twin key otherKey) →
    (∀ entry ∈ entries, ∀ twin, comparison.like entry.2 twin →
      comparison.AccordsAt entry.2 twin element otherElement) →
    comparison.AccordsAt (.object entries) (.object others) (.map key element)
      (.map otherKey otherElement)

variable {comparison} {value twin : Value} {descriptor reordered : Descriptor}

/-- What is read next can be compared if it is reordered. -/
theorem Compares.next (compares : comparison.Compares value descriptor reordered)
    {next nextReordered : Descriptor} {part : Value}
    (isNext : ReadsNext comparison.registry (descriptor, value) (next, part))
    (reorders : comparison.Reorders next nextReordered) :
    comparison.Compares part next nextReordered where
  reorders := reorders
  suits found reaches := compares.suits found (isNext.reaches.trans reaches)
  tagged members part isPermuted reaches :=
    compares.tagged members part isPermuted (reaches.of_next isNext)

/-- Items that accord with the items of another list make passes that accord. -/
theorem accord_readItems {element other : Descriptor} {items others : List Value}
    (aligned : List.Forall₂ comparison.like items others)
    (each : ∀ item ∈ items, ∀ twin, comparison.like item twin →
      comparison.AccordsAt item twin element other) (path : Path) (position : Nat) :
    Accord comparison.faults (List.Forall₂ comparison.gives)
      (readItems element path position (items.map (Value.toPart (Read.read comparison.registry))))
      (readItems other path position (others.map (Value.toPart (Read.read comparison.other)))) := by
  induction aligned generalizing position with
  | nil => exact .returned .nil
  | @cons item twin items others isFirst _ ih =>
      have first := each item List.mem_cons_self twin isFirst (path ++ [Path.index position])
      have rest := ih (fun item isItem => each item (List.mem_cons_of_mem _ isItem)) (position + 1)
      rw [List.map_cons, List.map_cons, readItems, readItems]
      apply first.bind
      intro value other isRead
      apply rest.bind
      intro values others areRead
      exact .returned (.cons isRead areRead)

variable (fair : comparison.IsFair)
include fair

/-! ## Scalars and choices -/

theorem accord_coerceScalar (isLike : comparison.like value twin) (kind : ScalarKind) (path : Path) :
    Accord comparison.faults comparison.gives (coerceScalar kind value path)
      (coerceScalar kind twin path) := by
  cases fair.same isLike with
  | refl => exact .of_self fair.refl (fair.scalar isLike kind path)
  | list => cases kind <;> exact .refused _ _
  | object => cases kind <;> exact .refused _ _

theorem accord_coerceEnum (isLike : comparison.like value twin) (type : EnumType) (path : Path) :
    Accord comparison.faults comparison.gives (coerceEnum type value path)
      (coerceEnum type twin path) := by
  have same := fair.same isLike
  have has := same.has type
  cases isChoice : type.has value with
  | true =>
      rw [coerceEnum, coerceEnum, ← has, isChoice, if_pos rfl, if_pos rfl]
      exact .returned (fair.kept isLike)
  | false =>
      cases same with
      | refl => exact .of_self fair.refl fun failure fails => .inl (isReply_of_coerceEnum fails)
      | list | object =>
          rw [coerceEnum, coerceEnum, ← has, isChoice, if_neg Bool.false_ne_true,
            if_neg Bool.false_ne_true]
          exact .refused _ _

/-! ## Records -/

theorem carriedText_of_rel {tag otherTag : Option Value}
    (rel : Option.Rel comparison.like tag otherTag) :
    (memberValue (tag.getD .null)).text? = (memberValue (otherTag.getD .null)).text? := by
  cases rel with
  | none => rfl
  | some isLike => exact (fair.same isLike).carriedText

section Records

variable {entries others : Value.Entries}
variable (isLike : comparison.like (.object entries) (.object others))
variable (compares : comparison.Compares (.object entries) descriptor reordered)
variable (each : List.Forall₂ (Retyped comparison.Reorders)
  (descriptor.fields comparison.registry.structs) (reordered.fields comparison.other.structs))
include isLike compares each

/-- A sibling chooses reordered records for the values of a field, or none. -/
theorem discriminated?_rel {field other : Field}
    (sameName : field.name = other.name) {part twinPart : Value}
    (isPart : entries.get? field.name = some part) (isLikePart : comparison.like part twinPart) :
    Option.Rel comparison.Reorders
      (discriminated? (Discrimination.detect comparison.registry.structs
        (descriptor.fields comparison.registry.structs)) entries field part)
      (discriminated? (Discrimination.detect comparison.other.structs
        (reordered.fields comparison.other.structs)) others other twinPart) := by
  have same := fair.same isLikePart
  unfold discriminated?
  rw [← sameName, ← same.isObject, ← same.isTagged]
  simp only [Option.bind_eq_bind]
  apply rel_bind (Discrimination.find?_detect_aligned fair.correspond each field.name)
  intro found otherFound hit isFound
  cases unguarded : part.isObject && !isTagged part with
  | false => exact .none
  | true =>
      apply TypeMapping.resolve?_aligned
      · cases isFound.leads with
        | inr leads => exact leads
        | inl isPermuted =>
            -- The members of the union may be permuted, so the object has a tag.
            obtain ⟨union, isUnion, named, members, isMembers, permuted⟩ := isPermuted
            have ofField : found.field = field.name := by simpa using List.find?_some hit
            have isHeld : entries.get? union.name = some part := by rw [named, ofField, isPart]
            rw [Bool.and_eq_true] at unguarded
            have tagged := compares.tagged members part permuted
              (.payload .refl isUnion isMembers isHeld) unguarded.1
            rw [tagged] at unguarded
            cases unguarded.2
      · rw [← isFound.discriminator]
        exact carriedText_of_rel fair (fair.get? isLike found.discriminator)

variable (parts : ∀ name part, entries.get? name = some part → comparison.Agrees part)
include parts

/-- The values of a field that are present or absent on both sides accord. -/
theorem accord_readField {field other : Field}
    (isField : field ∈ descriptor.fields comparison.registry.structs)
    (retyped : Retyped comparison.Reorders field other) (path : Path) :
    Accord comparison.faults comparison.gives
      (readField comparison.registry.structs (descriptor.fields comparison.registry.structs) entries
        ((Value.object entries).parts (Read.read comparison.registry)) field path)
      (readField comparison.other.structs (reordered.fields comparison.other.structs) others
        ((Value.object others).parts (Read.read comparison.other)) other path) := by
  have held : Option.Rel comparison.like (entries.get? field.name) (others.get? field.name) :=
    fair.get? isLike field.name
  have sameName := retyped.name
  unfold readField
  rw [Value.get?_parts, Value.get?_parts, ← sameName]
  generalize isPart : entries.get? field.name = found at held ⊢
  generalize others.get? field.name = twinFound at held ⊢
  cases held with
  | none =>
      cases retyped with
      | @type _ _ _ required _ default _ =>
          simp only [Option.map_none, absentField, fallback]
          cases default with
          | some value => exact .returned (fair.refl value)
          | none =>
              cases required with
              | true => exact .refused _ _
              | false => exact .returned (fair.refl .null)
  | @some part twinPart isLikePart =>
      have chosen := discriminated?_rel fair isLike compares each sameName isPart isLikePart
      have sameNull : (part.isNull && !field.required && !acceptsNull field.type) =
          (twinPart.isNull && !other.required && !acceptsNull other.type) := by
        rw [(fair.same isLikePart).isNull, retyped.isType.acceptsNull]
        cases retyped
        rfl
      simp only [Option.map_some, presentField_toPart, ← sameNull]
      split
      · cases retyped
        exact .returned (fair.refl _)
      · have next := compares.next (.field isField isPart) (rel_getD chosen retyped.isType)
        exact parts field.name part isPart twinPart isLikePart _ _ next path

/-- The values of the fields accord, each under its name. -/
theorem accord_fieldValues (path : Path) :
    Accord comparison.faults (List.Forall₂ fun pair other => ∃ name, pair.1 = .str name ∧
        other.1 = .str name ∧ comparison.gives pair.2 other.2)
      (fieldValues comparison.registry.structs entries
        ((Value.object entries).parts (Read.read comparison.registry))
        (descriptor.fields comparison.registry.structs) path)
      (fieldValues comparison.other.structs others
        ((Value.object others).parts (Read.read comparison.other))
        (reordered.fields comparison.other.structs) path) := by
  rw [fieldValues_eq, fieldValues_eq]
  apply Accord.mapM
  apply aligned_of_mem each
  intro field isField other retyped
  rw [← retyped.name]
  apply (accord_readField fair isLike compares each parts isField retyped _).map
  intro value other gives
  exact ⟨field.name, rfl, rfl, gives⟩

end Records

/-- The readings of a value against records accord. -/
theorem accord_record (isLike : comparison.like value twin)
    (compares : comparison.Compares value descriptor reordered)
    (parts : ∀ entries name part, value.entries? = some entries → entries.get? name = some part →
      comparison.Agrees part) {record : RecordView}
    (isRecord : descriptor.record? comparison.registry.structs = some record) :
    comparison.AccordsAt value twin descriptor reordered := by
  intro path
  have records := compares.reorders.record? fair.correspond
  rw [isRecord] at records
  generalize isOther : reordered.record? comparison.other.structs = found at records
  cases records with
  | @some _ other reorders =>
      have classless := compares.suits.here.classless record isRecord
      have otherClassless : other.cls = none := reorders.cls.symm.trans classless
      cases (fair.same isLike).object_or_plain with
      | inl objects =>
          obtain ⟨entries, others, rfl, rfl⟩ := objects
          have fields := reorders.fields
          rw [fields_of_record? isRecord, fields_of_record? isOther] at fields
          rw [readAt_record_of_classless isRecord classless,
            readAt_record_of_classless isOther otherClassless]
          apply (accord_fieldValues fair isLike compares fields (parts entries · · rfl) path).map
          intro pairs others aligned
          exact fair.records aligned
      | inr plain =>
          exact .of_refused (exists_error_of_readAt_record isRecord classless plain.1 path)
            (exists_error_of_readAt_record isOther otherClassless plain.2 path)

/-! ## Unions of objects -/

section Objects

variable {members otherMembers : List Descriptor} {entries others : Value.Entries}
variable (isLike : comparison.like (.object entries) (.object others))
include isLike

theorem hasRequired_eq {record other : RecordView}
    (reorders : RecordView.Reorders comparison.permuted comparison.corresponds record other) :
    hasRequired entries record = hasRequired others other := by
  have has : entries.has = others.has := by
    funext name
    exact isSome_of_rel (fair.get? isLike name)
  rw [hasRequired, hasRequired, Retyped.requiredNames_eq reorders.fields, has]

theorem isComplete_eq {member other : Descriptor} (reorders : comparison.Reorders member other) :
    isComplete comparison.registry.structs entries member =
      isComplete comparison.other.structs others other := by
  have records := reorders.unwrapped.record? fair.correspond
  unfold isComplete
  generalize member.unwrapped.record? comparison.registry.structs = record at records ⊢
  generalize other.unwrapped.record? comparison.other.structs = otherRecord at records ⊢
  cases records with
  | none => rfl
  | some isRecord => exact hasRequired_eq fair isLike isRecord

variable (reorders : ReordersMembers comparison.permuted comparison.corresponds members otherMembers)
include reorders

theorem decidingTag?_rel : Option.Rel comparison.like
    (decidingTag? comparison.registry.structs members entries)
    (decidingTag? comparison.other.structs otherMembers others) := by
  unfold decidingTag?
  rw [reorders.isEmpty_namedRecords fair.correspond]
  split
  · exact .none
  · exact fair.get? isLike typeKey

omit isLike in
theorem taggedRecord?_rel {tag otherTag : Value} (isLikeTag : comparison.like tag otherTag) :
    Option.Rel comparison.Reorders (taggedRecord? comparison.registry.structs members tag)
      (taggedRecord? comparison.other.structs otherMembers otherTag) := by
  have aligned {found : List Descriptor}
      (each : List.Forall₂ comparison.Reorders found otherMembers) :
      Option.Rel comparison.Reorders (taggedRecord? comparison.registry.structs found tag)
        (taggedRecord? comparison.other.structs otherMembers otherTag) := by
    unfold taggedRecord?
    rw [Option.map_eq_bind, Option.map_eq_bind]
    apply rel_bind (find?_aligned (namedRecords_aligned each fair.correspond) _)
    · intro record other _ isRecord
      exact .some isRecord.2
    · intro record other isRecord
      rw [(fair.same isLikeTag).isText, isRecord.1]
  cases reorders with
  | inl each => exact aligned each
  | inr isPermuted =>
      obtain ⟨permuted, found, perm, each⟩ := isPermuted
      have distinct := (fair.tagUnions members permuted).namedRecords.1
      have sameRecord : taggedRecord? comparison.registry.structs members tag =
          taggedRecord? comparison.registry.structs found tag := by
        unfold taggedRecord?
        rw [find?_eq_of_perm (namedRecords_perm perm)]
        intro record isRecord other isOther names namesOther
        apply List.inj_on_of_nodup_map distinct isRecord isOther
        rw [Value.isText, beq_iff_eq] at names namesOther
        exact Option.some.inj (names.symm.trans namesOther)
      rw [sameRecord]
      exact aligned each

/-- Where no tag decides, like objects fit reordered members, or none. Members that are permuted are
none at all then, for an object that comes to them has a tag. -/
theorem untaggedMember?_rel
    (untagged : decidingTag? comparison.registry.structs members entries = none)
    (tagged : comparison.permuted members → isTagged (.object entries) = true) :
    Option.Rel comparison.Reorders
      (untaggedMember? comparison.registry.structs members entries)
      (untaggedMember? comparison.other.structs otherMembers others) := by
  cases reorders with
  | inl each =>
      have nonNull := nonNull_aligned each
      unfold untaggedMember?
      apply rel_or
      · rw [Option.map_eq_bind, Option.map_eq_bind]
        apply rel_bind (find?_aligned nonNull fun _ _ => isComplete_eq fair isLike)
        intro member other _ reorders
        exact .some reorders.unwrapped
      · exact find?_aligned nonNull fun _ _ reorders => reorders.isMap
  | inr isPermuted =>
      obtain ⟨permuted, found, perm, each⟩ := isPermuted
      have noNames : namedRecords comparison.registry.structs members = [] := by
        unfold decidingTag? at untagged
        split at untagged
        next unnamed => exact List.isEmpty_iff.mp unnamed
        next =>
          have isTagged : (entries.get? typeKey).isSome = true := tagged permuted
          rw [untagged] at isTagged
          cases isTagged
      have noMembers : nonNull members = [] := by
        rw [← List.length_eq_zero_iff, ← (fair.tagUnions members permuted).namedRecords.2, noNames]
        rfl
      have reorders : ReordersMembers comparison.permuted comparison.corresponds members
        otherMembers := .inr ⟨permuted, found, perm, each⟩
      unfold untaggedMember?
      rw [noMembers, reorders.nonNull_eq_nil noMembers]
      exact .none

end Objects

/-! ## Unions -/

omit fair in
theorem shapeless_of_records {members : List Descriptor}
    (records : ∀ member ∈ members, member.isRecord = true) (value : Value) :
    members.find? (exactMatch value) = none ∧ members.filter isTried = [] := by
  constructor
  · rw [List.find?_eq_none]
    intro member isMember
    have isRecord := records member isMember
    cases member with
    | fixed => exact Bool.false_ne_true
    | struct => exact Bool.false_ne_true
    | _ => cases isRecord
  · rw [List.filter_eq_nil_iff]
    intro member isMember
    rw [isTried, records member isMember]
    exact Bool.false_ne_true

/-- Values that are alike have the shape of reordered members and are tried against such. Members that
are permuted are records, of which no value has the shape. -/
theorem shaped_and_tried (same : value.SameUpToOrder twin) {members otherMembers : List Descriptor}
    (reorders : ReordersMembers comparison.permuted comparison.corresponds members otherMembers) :
    Option.Rel comparison.Reorders ((nonNull members).find? (exactMatch value))
        ((nonNull otherMembers).find? (exactMatch twin)) ∧
      List.Forall₂ comparison.Reorders ((nonNull members).filter isTried)
        ((nonNull otherMembers).filter isTried) := by
  cases reorders with
  | inl each =>
      constructor
      · apply find?_aligned (nonNull_aligned each)
        intro member other isReordered
        rw [isReordered.exactMatch, same.exactMatch]
      · apply filter_aligned (nonNull_aligned each)
        intro member other isReordered
        rw [isTried, isTried, isReordered.isRecord, isReordered.isMap]
  | inr isPermuted =>
      obtain ⟨permuted, found, perm, each⟩ := isPermuted
      have records : ∀ member ∈ nonNull members, member.isRecord = true := by
        intro member isMember
        obtain ⟨record, isRecord⟩ := (fair.tagUnions members permuted).exists_record isMember
        cases member with
        | fixed => rfl
        | struct => rfl
        | _ => cases isRecord
      have otherRecords : ∀ other ∈ nonNull otherMembers, other.isRecord = true := by
        intro other isOther
        obtain ⟨member, isMember, isReordered⟩ := exists_left_of_mem (nonNull_aligned each) isOther
        rw [← isReordered.isRecord]
        exact records member ((perm.filter _).mem_iff.mpr isMember)
      rw [(shapeless_of_records records value).1, (shapeless_of_records records value).2,
        (shapeless_of_records otherRecords twin).1, (shapeless_of_records otherRecords twin).2]
      exact ⟨.none, .nil⟩

section Unions

variable {members otherMembers : List Descriptor}
variable (isLike : comparison.like value twin)
variable (step : ∀ member, Selects comparison.registry members value member →
  ∀ other, comparison.Reorders member other → comparison.AccordsAt value twin member other)
include isLike step

/-- The readings of objects against unions accord where those against the members do. -/
theorem accord_union_object
    (compares : comparison.Compares value (.union members) (.union otherMembers))
    {entries others : Value.Entries} (isObject : value = .object entries)
    (isOther : twin = .object others) :
    comparison.AccordsAt value twin (.union members) (.union otherMembers) := by
  intro path
  subst isObject isOther
  have reorders := reordersMembers compares.reorders
  have tags := decidingTag?_rel fair isLike reorders
  generalize isTag : decidingTag? comparison.registry.structs members entries = tag at tags
  generalize isOtherTag : decidingTag? comparison.other.structs otherMembers others = otherTag at tags
  cases tags with
  | @some tag otherTag isLikeTag =>
      have records := taggedRecord?_rel fair reorders isLikeTag
      generalize isRecord : taggedRecord? comparison.registry.structs members tag = record at records
      generalize isOtherRecord : taggedRecord? comparison.other.structs otherMembers otherTag =
        otherRecord at records
      cases records with
      | none =>
          exact .of_refused (exists_error_of_unknown isTag isRecord path)
            (exists_error_of_unknown isOtherTag isOtherRecord path)
      | some isReordered =>
          rw [readAt_union_of_record isTag isRecord, readAt_union_of_record isOtherTag isOtherRecord]
          exact step _ (.tagged isTag isRecord) _ isReordered path
  | none =>
      have selected := untaggedMember?_rel fair isLike reorders isTag fun permuted =>
        compares.tagged members _ permuted (.read .refl) rfl
      rw [readAt_union_undecided isTag, readAt_union_undecided isOtherTag]
      generalize isMember : untaggedMember? comparison.registry.structs members entries = member
        at selected ⊢
      generalize untaggedMember? comparison.other.structs otherMembers others = otherMember
        at selected ⊢
      cases selected with
      | none => exact .returned (fair.kept isLike)
      | some isReordered => exact step _ (.untagged isTag isMember) _ isReordered path

/-- Members that are tried one after another accord: either side goes on after an error of the reply
and stops at anything else. -/
theorem accord_firstAccepted (plain : value.isObject = false)
    (shapeless : (nonNull members).find? (exactMatch value) = none) (path : Path)
    {before rest others : List Descriptor}
    (split : (nonNull members).filter isTried = before ++ rest)
    (refused : ∀ member ∈ before, ∃ error,
      read comparison.registry value member = .error (.reply error))
    (aligned : List.Forall₂ comparison.Reorders rest others) :
    Accord comparison.faults comparison.gives
      (firstAccepted value path (rest.map fun member =>
        ⟨member, readAt comparison.registry value member⟩))
      (firstAccepted twin path (others.map fun member =>
        ⟨member, readAt comparison.other twin member⟩)) := by
  induction aligned generalizing before with
  | nil => exact .returned (fair.kept isLike)
  | @cons member other rest others isReordered _ ih =>
      apply Accord.firstAccepted
      · exact step member (.tried plain shapeless split refused) other isReordered path
      · rintro ⟨error, isRefused⟩
        apply @ih (before ++ [member])
        · rw [split, List.append_assoc, List.singleton_append]
        · exact List.forall_mem_append.mpr
            ⟨refused, List.forall_mem_singleton.mpr (exists_error_of_readAt isRefused)⟩

theorem accord_union_plain
    (compares : comparison.Compares value (.union members) (.union otherMembers))
    (plain : value.isObject = false) :
    comparison.AccordsAt value twin (.union members) (.union otherMembers) := by
  intro path
  have same := fair.same isLike
  have reorders := reordersMembers compares.reorders
  cases isNilable : value.isNull && nilable members with
  | true =>
      rw [Bool.and_eq_true] at isNilable
      have isNull := same.isNull
      rw [isNilable.1] at isNull
      obtain rfl := Value.isNull_iff.mp isNilable.1
      obtain rfl := Value.isNull_iff.mp isNull.symm
      rw [readAt_union_null isNilable.2, readAt_union_null (reorders.nilable ▸ isNilable.2)]
      exact .returned (fair.refl .null)
  | false =>
      have otherNilable := isNilable
      rw [same.isNull, reorders.nilable] at otherNilable
      obtain ⟨shapes, tried⟩ := shaped_and_tried fair same reorders
      rw [readAt_union_plain plain isNilable,
        readAt_union_plain (same.isObject ▸ plain) otherNilable]
      generalize shaped : (nonNull members).find? (exactMatch value) = shape at shapes ⊢
      generalize (nonNull otherMembers).find? (exactMatch twin) = otherShape at shapes ⊢
      cases shapes with
      | some isReordered => exact step _ (.shaped plain shaped) _ isReordered path
      | none =>
          exact accord_firstAccepted fair isLike step plain shaped path rfl (List.forall_mem_nil _)
            tried

end Unions

/-! ## Optionals -/

/-- The readings against optionals accord where those against what is inside do. -/
theorem accord_optional (isLike : comparison.like value twin) {inner other : Descriptor}
    (compares : comparison.Compares value (.optional inner) (.optional other))
    (isReordered : comparison.Reorders inner other)
    (accords : comparison.Compares value inner other → comparison.AccordsAt value twin inner other) :
    comparison.AccordsAt value twin (.optional inner) (.optional other) := by
  intro path
  have same := fair.same isLike
  cases isNull : value.isNull with
  | true =>
      have otherNull := same.isNull.symm.trans isNull
      obtain rfl := Value.isNull_iff.mp isNull
      obtain rfl := Value.isNull_iff.mp otherNull
      rw [readAt_eq, readAt_eq, Read.read, Read.read]
      exact .returned (fair.refl .null)
  | false =>
      have otherNull := same.isNull.symm.trans isNull
      have tags := fair.get? isLike typeKey
      have sameTag := isReordered.tag? fair.correspond
      by_cases admitted : ∀ name tag, inner.tag? comparison.registry.structs = some name →
          value.get? typeKey = some tag → tag.isText name = true
      · have otherAdmitted : ∀ name tag, other.tag? comparison.other.structs = some name →
            twin.get? typeKey = some tag → tag.isText name = true := by
          intro name otherTag isName isTag
          rw [isTag] at tags
          generalize isOwn : value.get? typeKey = found at tags
          cases tags with
          | some isLikeTag =>
              rw [← (fair.same isLikeTag).isText]
              exact admitted name _ (sameTag.trans isName) isOwn
        rw [readAt_optional_of_admitted isNull admitted,
          readAt_optional_of_admitted otherNull otherAdmitted]
        exact accords (compares.next (.inner admitted) isReordered) path
      · push Not at admitted
        obtain ⟨name, tag, isName, isTag, isOther⟩ := admitted
        rw [isTag] at tags
        generalize isOtherTag : twin.get? typeKey = found at tags
        cases tags with
        | some isLikeTag =>
            have notText : tag.isText name = false := Bool.eq_false_iff.mpr isOther
            have otherNotText := (fair.same isLikeTag).isText name ▸ notText
            apply Accord.of_refused
            · exact exists_error_of_readAt_optional isNull isName isTag notText path
            · exact exists_error_of_readAt_optional otherNull (sameTag.symm.trans isName) isOtherTag
                otherNotText path

/-! ## Keys -/

omit fair in
/-- Two members that accord leave it to those after them whether a choice is picked, or decide it
alike. -/
theorem picksByTrial_cons {faults : Prop} {related : Value → Value → Prop} {key twin : Part Reader}
    {member other : Descriptor} {members others : List Descriptor} (isTried : member.isTried = true)
    (notNull : member.isNull = false) (isReordered : comparison.Reorders member other)
    (accord : Accord faults related (key.result member []) (twin.result other []))
    (alike : picks key member = picks twin other)
    (rest : (∃ error, key.result member [] = .error (.reply error)) →
      picksByTrial key members = picksByTrial twin others) :
    picksByTrial key (member :: members) = picksByTrial twin (other :: others) := by
  have otherTried := isTried
  have otherNotNull := notNull
  rw [isReordered.isNull] at otherNotNull
  rw [Descriptor.isTried, isReordered.isRecord, isReordered.isMap] at otherTried
  rw [Descriptor.isTried] at isTried
  simp only [Bool.and_eq_true, Bool.not_eq_true'] at isTried otherTried
  simp only [picksByTrial, isTried, notNull, otherTried, otherNotNull, Bool.or_self,
    Bool.false_eq_true, if_false]
  generalize key.result member [] = outcome at accord rest ⊢
  generalize twin.result other [] = otherOutcome at accord ⊢
  cases accord with
  | returned => exact alike
  | refused error => exact rest ⟨error, rfl⟩
  | @escaped failure otherFailure _ isFatal isOther =>
      cases failure with
      | reply => cases isFatal
      | _ =>
          cases otherFailure with
          | reply => cases isOther
          | _ => exact alike

omit fair in
/-- Of members that are tried one after another, those that accept a key pick alike. -/
theorem picksByTrial_alike {members : List Descriptor} (plain : value.isObject = false)
    (shapeless : (nonNull members).find? (exactMatch value) = none)
    (step : ∀ member, Selects comparison.registry members value member →
      ∀ other, comparison.Reorders member other → comparison.AccordsAt value twin member other ∧
        comparison.PicksAlike value twin member other)
    {before rest others : List Descriptor}
    (split : (nonNull members).filter isTried = before ++ rest)
    (refused : ∀ member ∈ before, ∃ error,
      read comparison.registry value member = .error (.reply error))
    (aligned : List.Forall₂ comparison.Reorders rest others) :
    picksByTrial (value.toPart (Read.read comparison.registry)) rest =
      picksByTrial (twin.toPart (Read.read comparison.other)) others := by
  induction aligned generalizing before with
  | nil => rfl
  | @cons member other rest others isReordered _ ih =>
      obtain ⟨accords, alike⟩ := step member (.tried plain shapeless split refused) other isReordered
      have isMember : member ∈ (nonNull members).filter isTried :=
        split ▸ List.mem_append_right _ List.mem_cons_self
      obtain ⟨isNonNull, tried⟩ := List.mem_filter.mp isMember
      have notNull : member.isNull = false := by simpa using (List.mem_filter.mp isNonNull).2
      apply picksByTrial_cons tried notNull isReordered (accords []) alike
      rintro ⟨error, isRefused⟩
      apply @ih (before ++ [member])
      · rw [split, List.append_assoc, List.singleton_append]
      · exact List.forall_mem_append.mpr
          ⟨refused, List.forall_mem_singleton.mpr (exists_error_of_readAt isRefused)⟩

theorem picks_alike (isLike : comparison.like value twin) (plain : value.isObject = false)
    (agrees : comparison.Agrees value) (compares : comparison.Compares value descriptor reordered) :
    comparison.PicksAlike value twin descriptor reordered := by
  have same := fair.same isLike
  induction descriptor using Descriptor.induction generalizing reordered with
  | enum type =>
      cases compares.reorders with
      | enum => exact congrArg not (same.has type)
  | optional inner ih =>
      cases compares.reorders with
      | optional isReordered =>
          have untagged (name tag) (_ : inner.tag? comparison.registry.structs = some name)
              (isTag : value.get? typeKey = some tag) : tag.isText name = true := by
            cases value <;> first | cases isTag | cases plain
          have alike := ih (compares.next (.inner untagged) isReordered)
          rw [PicksAlike, picks, picks]
          exact alike
  | union members ih =>
      obtain ⟨otherMembers, rfl⟩ : ∃ others, reordered = .union others := by
        cases compares.reorders with
        | union => exact ⟨_, rfl⟩
        | permuted => exact ⟨_, rfl⟩
      have step : ∀ member, Selects comparison.registry members value member →
          ∀ other, comparison.Reorders member other →
            comparison.AccordsAt value twin member other ∧
              comparison.PicksAlike value twin member other := by
        intro member selects other isReordered
        have next := compares.next (.member selects) isReordered
        refine ⟨agrees twin isLike member other next, ?_⟩
        cases selects.cases_of_selects with
        | inl isRecord =>
            obtain ⟨-, record, isRecord⟩ := isRecord
            cases member <;> cases isRecord <;> cases isReordered <;> rfl
        | inr isMember => exact ih member isMember next
      obtain ⟨shapes, tried⟩ := shaped_and_tried fair same (reordersMembers compares.reorders)
      rw [PicksAlike, picks_union, picks_union]
      simp only [Value.toPart]
      generalize shaped : (nonNull members).find? (exactMatch value) = shape at shapes ⊢
      generalize (nonNull otherMembers).find? (exactMatch twin) = otherShape at shapes ⊢
      cases shapes with
      | some isReordered => exact (step _ (.shaped plain shaped) _ isReordered).2
      | none =>
          exact picksByTrial_alike plain shaped step rfl (List.forall_mem_nil _) tried
  | _ => cases compares.reorders; rfl

/-! ## Lists and maps -/

/-- The readings of lists accord where those of their items do. -/
theorem accord_array (isLike : comparison.like value twin) {element other : Descriptor}
    (compares : comparison.Compares value (.array element) (.array other))
    (isReordered : comparison.Reorders element other)
    (items : ∀ item ∈ value.iterated, comparison.Agrees item) :
    comparison.AccordsAt value twin (.array element) (.array other) := by
  intro path
  have lists := fair.items isLike
  rw [readAt_eq, readAt_eq, Read.read, Read.read, Value.parts_items, Value.parts_items]
  generalize isList : value.items? = found at lists ⊢
  generalize isOther : twin.items? = otherFound at lists ⊢
  cases lists with
  | none => exact .refused _ _
  | some aligned =>
      have iterated := Value.iterated_of_items? isList
      rw [iterated] at items
      rw [iterated, Value.iterated_of_items? isOther]
      apply (accord_readItems aligned _ path 0).map fun _ _ => fair.lists
      intro item isItem twin isLikeItem
      exact items item isItem twin isLikeItem element other
        (compares.next (.item isList isItem) isReordered)

/-- The readings of maps accord where those of their keys and of the values under them do. -/
theorem accord_map (isLike : comparison.like value twin)
    {key element otherKey otherElement : Descriptor}
    (compares : comparison.Compares value (.map key element) (.map otherKey otherElement))
    (isKey : comparison.Reorders key otherKey) (isValue : comparison.Reorders element otherElement)
    (each : ∀ entries, value.entries? = some entries → ∀ entry ∈ entries,
      comparison.Agrees entry.1 ∧ comparison.Agrees entry.2) :
    comparison.AccordsAt value twin (.map key element) (.map otherKey otherElement) := by
  cases (fair.same isLike).object_or_plain with
  | inl objects =>
      obtain ⟨entries, others, rfl, rfl⟩ := objects
      apply fair.maps isLike (compares.suits.here.keyed key element rfl) isKey
      · intro entry isEntry twin isLikeKey
        exact (each entries rfl entry isEntry).1 twin isLikeKey key otherKey
          (compares.next (.key isEntry) isKey)
      · intro entry isEntry twin isLikeKey plain
        exact picks_alike fair isLikeKey plain (each entries rfl entry isEntry).1
          (compares.next (.key isEntry) isKey)
      · intro entry isEntry twin isLikeValue
        exact (each entries rfl entry isEntry).2 twin isLikeValue element otherElement
          (compares.next (.value isEntry) isValue)
  | inr plain =>
      intro path
      rw [readAt_eq, readAt_eq, Read.read, Read.read, plain.1, plain.2]
      exact .refused _ _

/-! ## Values -/

/-- Wherever the readings of a value and of values like it can be compared, they accord. The induction
is on the value, and at a value on the descriptor: records and what is in lists and objects lead to
parts of the value, optionals and unions to parts of the descriptor. -/
theorem agrees (value : Value) : comparison.Agrees value := by
  induction value using Value.induction_parts with
  | step value items entries =>
      intro twin isLike descriptor reordered compares
      have same := fair.same isLike
      have parts (found : Value.Entries) (name : String) (part : Value)
          (isObject : value.entries? = some found) (isPart : found.get? name = some part) :
          comparison.Agrees part := by
        obtain ⟨key, isEntry⟩ := Value.Entries.exists_mem_of_get? isPart
        exact (entries found isObject _ isEntry).2
      induction descriptor using Descriptor.induction generalizing reordered with
      | scalar kind =>
          cases compares.reorders with
          | scalar =>
              intro path
              rw [readAt_eq, readAt_eq, Read.read, Read.read]
              exact accord_coerceScalar fair isLike kind path
      | enum type =>
          cases compares.reorders with
          | enum =>
              intro path
              rw [readAt_eq, readAt_eq, Read.read, Read.read]
              exact accord_coerceEnum fair isLike type path
      | array element =>
          cases compares.reorders with
          | array isReordered => exact accord_array fair isLike compares isReordered items
      | map key element =>
          cases compares.reorders with
          | map isKey isValue => exact accord_map fair isLike compares isKey isValue entries
      | optional inner ih =>
          cases compares.reorders with
          | optional isReordered =>
              exact accord_optional fair isLike compares isReordered (ih _)
      | union members ih =>
          obtain ⟨otherMembers, rfl⟩ : ∃ others, reordered = .union others := by
            cases compares.reorders with
            | union => exact ⟨_, rfl⟩
            | permuted => exact ⟨_, rfl⟩
          have step : ∀ member, Selects comparison.registry members value member →
              ∀ other, comparison.Reorders member other →
                comparison.AccordsAt value twin member other := by
            intro member selects other isReordered
            have next := compares.next (.member selects) isReordered
            cases selects.cases_of_selects with
            | inl isRecord =>
                obtain ⟨-, record, isRecord⟩ := isRecord
                exact accord_record fair isLike next parts isRecord
            | inr isMember => exact ih member isMember other next
          cases same.object_or_plain with
          | inl objects =>
              obtain ⟨found, others, isObject, isOther⟩ := objects
              exact accord_union_object fair isLike step compares isObject isOther
          | inr plain => exact accord_union_plain fair isLike step compares plain.1
      | null =>
          cases compares.reorders with
          | null =>
              intro path
              rw [readAt_eq, readAt_eq, Read.read, Read.read, ← same.isNull]
              split
              · exact .returned (fair.refl .null)
              · exact .refused _ _
      | fixed record => exact accord_record fair isLike compares parts rfl
      | struct id => exact accord_record fair isLike compares parts rfl
      | stray found =>
          cases compares.reorders with
          | stray =>
              intro path
              rw [readAt_eq, readAt_eq, Read.read, Read.read]
              exact .escaped (compares.suits.here.described found rfl) rfl rfl

end Comparison

end TypedReply
