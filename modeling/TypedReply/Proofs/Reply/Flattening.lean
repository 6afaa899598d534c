import TypedReply.Proofs.Descriptor.Flattening
import TypedReply.Proofs.Reply.Discriminators
import TypedReply.Proofs.Reply.Idempotence
import TypedReply.Proofs.Reply.Settlement

/-!
# Reading against a flattened union

Unions inside a union are not unfolded when a value is read. A nested union is a member like others,
which has no shape and refuses almost nothing, so a value is read against the flattened union alike only
if the member that the flattened union comes to stands in the union itself, or is come to before a
nested union has ended: nothing but members that refuse the value may stand before.
-/

namespace TypedReply

open Read Descriptor

/-! ## Outcomes -/

/-- Two outcomes are one and the same, or errors of the reply of one class, at one place and about one
value: they may differ in what is said to be expected. -/
inductive Outcome.Matches {α : Type} : Outcome α → Outcome α → Prop where
  | same (outcome : Outcome α) : Matches outcome outcome
  | refused {error other : ReplyError} (className : error.className = other.className)
      (path : error.path = other.path) (received : error.received = other.received) :
      Matches (.error (.reply error)) (.error (.reply other))

namespace Outcome.Matches

variable {α β γ : Type}

theorem bind {outcome other : Outcome α} (isMatch : Matches outcome other)
    {next nextOther : α → Outcome β} (rest : ∀ value, Matches (next value) (nextOther value)) :
    Matches (outcome >>= next) (other >>= nextOther) := by
  cases isMatch with
  | refused className path received => exact .refused className path received
  | same outcome =>
      cases outcome with
      | ok value => exact rest value
      | error failure => exact .same _

theorem map {outcome other : Outcome α} (isMatch : Matches outcome other) (image : α → β) :
    Matches (outcome.map image) (other.map image) := by
  cases isMatch with
  | refused className path received => exact .refused className path received
  | same outcome => exact .same _

theorem eq_of_ok {outcome : Outcome α} {value : α} (isMatch : Matches (.ok value) outcome) :
    outcome = .ok value := by
  cases isMatch
  rfl

/-- Where every step of a pass through a list matches the step of another pass, the passes match. -/
theorem mapM {values : List α} {others : List β} {operation : α → Outcome γ}
    {operationOther : β → Outcome γ} (each : List.Forall₂ (fun value other =>
      Matches (operation value) (operationOther other)) values others) :
    Matches (values.mapM operation) (others.mapM operationOther) := by
  induction each with
  | nil => exact .same _
  | cons first _ ih =>
      rw [List.mapM_cons, List.mapM_cons]
      refine first.bind fun value => ih.bind fun values => ?_
      exact .same _

end Outcome.Matches

variable {registry : Registry} {members : List Descriptor} {raw : Value} {found : Descriptor}

def Refuses (registry : Registry) (raw : Value) (descriptor : Descriptor) : Prop :=
  ∃ error, read registry raw descriptor = .error (.reply error)

theorem exists_error_of_refuses {descriptor : Descriptor}
    (refuses : Refuses registry raw descriptor) (path : Path) :
    ∃ error, readAt registry raw descriptor path = .error (.reply error) := by
  obtain ⟨error, refused⟩ := refuses
  have moved := readAt_append registry raw descriptor path []
  rw [List.append_nil, ← read, refused] at moved
  exact ⟨_, moved⟩

/-! ## Objects -/

/-- Whether a descriptor is a record with one of some names. -/
def goesBy (store : Store) (names : String → Bool) (descriptor : Descriptor) : Bool :=
  (descriptor.tag? store).any names

/-- Whether a descriptor is a record whose required fields an object all has. -/
def isFit (store : Store) (entries : Value.Entries) (descriptor : Descriptor) : Bool :=
  (descriptor.record? store).any (hasRequired entries)

theorem spliced_of_record {store : Store} {member : Descriptor}
    (isRecord : (member.unwrapped.record? store).isSome = true) : member.spliced =
    [member.unwrapped] := by
  cases member with
  | optional inner => cases inner <;> first | rfl | cases isRecord
  | _ => first | rfl | cases isRecord

theorem opens_records {store : Store} {property : Descriptor → Bool}
    (isRecord : ∀ descriptor, property descriptor = true → (descriptor.record? store).isSome = true) :
    Opens unwrapped property where
  alone member holds := spliced_of_record (isRecord _ holds)
  leaf found leaf := by cases found <;> first | rfl | cases leaf
  null := Bool.eq_false_iff.mpr fun holds => nomatch isRecord .null holds

theorem opens_goesBy (store : Store) (names : String → Bool) :
    Opens unwrapped (goesBy store names) := by
  refine @opens_records store _ fun descriptor holds => ?_
  rw [goesBy, Descriptor.tag?] at holds
  cases isRecord : descriptor.record? store with
  | some record => rfl
  | none => simp [isRecord] at holds

theorem opens_isFit (store : Store) (entries : Value.Entries) :
    Opens unwrapped (isFit store entries) := by
  refine @opens_records store _ fun descriptor holds => ?_
  rw [isFit] at holds
  cases isRecord : descriptor.record? store with
  | some record => rfl
  | none => simp [isRecord] at holds

theorem opens_isMap : Opens id isMap where
  alone member holds := by cases member <;> first | rfl | cases holds
  leaf _ _ := rfl
  null := rfl

/-- The first of the named records of a union whose name is one of some names is the first member that
goes by one of them. -/
theorem find?_namedRecords (store : Store) (members : List Descriptor) (names : String → Bool) :
    ((namedRecords store members).find? fun record => names record.1).map Prod.snd =
      ((nonNull members).find? (goesBy store names ∘ unwrapped)).map unwrapped := by
  have named (member : Descriptor) : (do
      let record ← member.unwrapped.record? store
      let name ← record.tag?
      some (name, member.unwrapped)) =
        (member.unwrapped.tag? store).map fun name => (name, member.unwrapped) := by
    rw [Descriptor.tag?]
    cases member.unwrapped.record? store with
    | none => rfl
    | some record => cases isName : record.tag? <;> simp [isName]
  rw [namedRecords]
  simp only [named]
  induction nonNull members with
  | nil => rfl
  | cons member others ih =>
      rw [List.filterMap_cons, List.find?_cons, Function.comp_apply, goesBy]
      cases isName : member.unwrapped.tag? store with
      | none => simpa using ih
      | some name =>
          rw [Option.map_some, List.find?_cons, Option.any_some]
          cases names name with
          | true => rfl
          | false => exact ih

theorem namedRecords_flattened_ne_nil {store : Store} (named : namedRecords store members ≠ []) :
    namedRecords store (flattened members) ≠ [] := by
  obtain ⟨⟨name, record⟩, isRecord⟩ := List.exists_mem_of_ne_nil _ named
  obtain ⟨member, isMember, isNamed⟩ := List.mem_filterMap.mp isRecord
  have isSome : (member.unwrapped.record? store).isSome = true := by
    cases isRecord : member.unwrapped.record? store with
    | some _ => rfl
    | none => simp [isRecord] at isNamed
  have alone := spliced_of_record isSome
  have leaf : member.unwrapped.unwrapped = member.unwrapped := by
    revert isSome
    cases member.unwrapped <;> first | exact fun _ => rfl | exact fun isSome => nomatch isSome
  have isFound : member.unwrapped ∈ nonNull (flattened members) := by
    rw [nonNull_flattened]
    refine List.mem_filter.mpr ⟨mem_splicedAll.mpr ⟨member, List.mem_of_mem_filter isMember, ?_⟩, ?_⟩
    · rw [alone]
      exact List.mem_singleton_self _
    · revert isSome
      cases member.unwrapped <;> first | exact fun _ => rfl | exact fun isSome => nomatch isSome
  exact List.ne_nil_of_mem
    (List.mem_filterMap.mpr ⟨member.unwrapped, isFound, by rw [leaf]; exact isNamed⟩)

/-- A union comes to the same for an object as the flattened union: the first record that the tag names,
else the first complete record, else the first map is a member of it, though a record may be optional,
and there are records with names in it if there are any. -/
structure SelectsAlike (store : Store) (members : List Descriptor) (entries : Value.Entries) :
    Prop where
  tagged : ∀ tag, decidingTag? store (flattened members) entries = some tag →
    namedRecords store members ≠ [] ∧ FirstIsDirect unwrapped (goesBy store tag.isText) members
  untagged : decidingTag? store (flattened members) entries = none →
    FirstIsDirect unwrapped (isFit store entries) members ∧
      ((∀ found ∈ splicedAll members, isFit store entries found = false) →
        FirstIsDirect id isMap members)

/-- If the records and maps of the flattened union are members of the union, records perhaps optional,
a union comes to the same for every object. -/
theorem selectsAlike_of_direct (direct : ∀ member ∈ members, ∀ found ∈ member.spliced,
      (found.isRecord = true → found = member.unwrapped) ∧ (isMap found = true → found = member))
    (store : Store) (entries : Value.Entries) : SelectsAlike store members entries := by
  have records {property : Descriptor → Bool} (isRecord : ∀ descriptor, property descriptor = true →
      descriptor.isRecord = true) : FirstIsDirect unwrapped property members :=
    firstIsDirect_of_direct fun member isMember found isFound holds =>
      (direct member isMember found isFound).1 (isRecord found holds)
  have named (names : String → Bool) : FirstIsDirect unwrapped (goesBy store names) members :=
    records fun descriptor holds => by cases descriptor <;> first | rfl | cases holds
  refine ⟨fun tag isTag => ⟨fun unnamed => ?_, named _⟩, fun _ => ⟨records fun descriptor holds => ?_,
    fun _ => firstIsDirect_of_direct fun member isMember found isFound holds =>
      (direct member isMember found isFound).2 holds⟩⟩
  · -- The records that have names at all are found alike, so the union has none without the other.
    have none := find?_of_firstIsDirect (opens_goesBy store fun _ => true) (named fun _ => true)
    rw [← find?_namedRecords, ← find?_namedRecords, unnamed, List.find?_nil, Option.map_none, eq_comm,
      Option.map_eq_none_iff] at none
    cases isNamed : namedRecords store (flattened members) with
    | nil => simp [decidingTag?, isNamed] at isTag
    | cons record records => simp [isNamed] at none
  · cases descriptor <;> first | rfl | cases holds

section Objects

variable {store : Store} {entries : Value.Entries}

theorem taggedRecord?_flattened {tag : Value}
    (direct : FirstIsDirect unwrapped (goesBy store tag.isText) members) :
    taggedRecord? store members tag = taggedRecord? store (flattened members) tag := by
  rw [taggedRecord?, taggedRecord?, find?_namedRecords store members tag.isText,
    find?_namedRecords store (flattened members) tag.isText,
    find?_of_firstIsDirect (opens_goesBy store tag.isText) direct]

theorem untaggedMember?_flattened (direct : FirstIsDirect unwrapped (isFit store entries) members)
    (maps : (∀ found ∈ splicedAll members, isFit store entries found = false) →
      FirstIsDirect id isMap members) :
    untaggedMember? store members entries = untaggedMember? store (flattened members) entries := by
  have opens := opens_isFit store entries
  have complete (members : List Descriptor) : (nonNull members).find? (isComplete store entries) =
      (nonNull members).find? (isFit store entries ∘ unwrapped) := rfl
  rw [untaggedMember?, untaggedMember?, complete, complete, find?_of_firstIsDirect opens direct,
    opens.find?_flattened]
  cases isFound : (splicedAll members).find? (isFit store entries) with
  | some found => rfl
  | none =>
      have mapsDirect := find?_of_firstIsDirect opens_isMap
        (maps fun found isSpliced => by simpa using List.find?_eq_none.mp isFound found isSpliced)
      simpa using mapsDirect

/-- A tag that decides between the members of the flattened union decides between those of the union if
these have records with names, and otherwise none decides. -/
theorem decidingTag?_flattened
    (named : (decidingTag? store (flattened members) entries).isSome = true →
      namedRecords store members ≠ []) :
    decidingTag? store members entries = decidingTag? store (flattened members) entries := by
  have without : (namedRecords store members).isEmpty = true → entries.get? typeKey = none ∨
      (namedRecords store (flattened members)).isEmpty = true := by
    intro isEmpty
    cases isTag : entries.get? typeKey with
    | none => exact .inl rfl
    | some tag =>
        refine .inr (by_contra fun some => ?_)
        rw [decidingTag?, if_neg some, isTag] at named
        exact named rfl (List.isEmpty_iff.mp isEmpty)
  have others : (namedRecords store (flattened members)).isEmpty = true →
      (namedRecords store members).isEmpty = true := by
    rw [List.isEmpty_iff, List.isEmpty_iff]
    exact fun none => by_contra fun some => namedRecords_flattened_ne_nil some none
  rw [decidingTag?, decidingTag?]
  split
  next isEmpty =>
    rcases without isEmpty with noTag | isEmpty
    · rw [noTag, ite_self]
    · rw [if_pos isEmpty]
  next some => rw [if_neg fun isEmpty => some (others isEmpty)]

end Objects

/-- An object for which a union comes to the same as the flattened union is read alike. -/
theorem SelectsAlike.matches {entries : Value.Entries}
    (alike : SelectsAlike registry.structs members entries) (path : Path) :
    Outcome.Matches (readAt registry (.object entries) (.union members) path)
      (readAt registry (.object entries) (.union (flattened members)) path) := by
  have deciding := decidingTag?_flattened fun isSome => by
    obtain ⟨tag, isTag⟩ := Option.isSome_iff_exists.mp isSome
    exact (alike.tagged tag isTag).1
  cases isTag : decidingTag? registry.structs (flattened members) entries with
  | some tag =>
      have isOwn := deciding.trans isTag
      have records := taggedRecord?_flattened (alike.tagged tag isTag).2
      cases isRecord : taggedRecord? registry.structs (flattened members) tag with
      | some record =>
          rw [readAt_union_of_record isTag isRecord,
            readAt_union_of_record isOwn (records.trans isRecord)]
          exact .same _
      | none =>
          obtain ⟨error, refused, className, place, received⟩ :=
            readAt_union_of_unknown isOwn (records.trans isRecord) path
          obtain ⟨other, otherRefused, otherClass, otherPlace, otherReceived⟩ :=
            readAt_union_of_unknown isTag isRecord path
          rw [refused, otherRefused]
          exact .refused (className.trans otherClass.symm) (place.trans otherPlace.symm)
            (received.trans otherReceived.symm)
  | none =>
      obtain ⟨records, maps⟩ := alike.untagged isTag
      rw [readAt_union_undecided isTag, readAt_union_undecided (deciding.trans isTag),
        untaggedMember?_flattened records maps]
      exact .same _

/-! ## Other values -/

theorem spliced_core (descriptor : Descriptor) : descriptor.core.spliced = descriptor.spliced := by
  induction descriptor using Descriptor.induction with
  | optional inner ih => exact ih
  | _ => rfl

theorem isLeaf_core {descriptor : Descriptor} (notUnion : ∀ nested, descriptor.core ≠ .union nested) :
    descriptor.core.isLeaf = true := by
  have notOptional := core_ne_optional descriptor
  revert notUnion notOptional
  cases descriptor.core with
  | optional inner => exact fun _ notOptional => absurd rfl (notOptional inner)
  | union nested => exact fun notUnion _ => absurd rfl (notUnion nested)
  | _ => exact fun _ _ => rfl

theorem isTried_of_core {member : Descriptor} (tried : isTried member.core = true) :
    isTried member = true := by
  cases member <;> first | rfl | cases tried

section Shapes

variable (present : raw.isNull = false)
include present

theorem opens_exactMatch : Opens core (exactMatch raw) where
  alone member shaped := by
    rw [← spliced_core]
    refine spliced_of_isLeaf (isLeaf_core fun nested isUnion => ?_)
    rw [isUnion] at shaped
    cases shaped
  leaf found leaf := by cases found <;> first | rfl | cases leaf
  null := present

theorem find?_exactMatch (members : List Descriptor) :
    (nonNull members).find? (exactMatch raw) = (nonNull members).find? (exactMatch raw ∘ core) := by
  congr 1
  funext member
  exact exactMatch_core present

theorem find?_eq_none_of_shapeless
    (shapeless : ∀ other ∈ splicedAll members, exactMatch raw other = false) :
    (nonNull members).find? (exactMatch raw) = none := by
  have opens := opens_exactMatch present
  rw [find?_exactMatch present, opens.find?_nonNull, opens.find?_eq_none shapeless]

theorem refuses_null : Refuses registry raw .null := by
  rw [Refuses, read, readAt_eq, Read.read, if_neg (by simp [present])]
  exact ⟨_, rfl⟩

variable (plain : raw.isObject = false)
include plain

theorem readAt_union_present (path : Path) : readAt registry raw (.union members) path =
    match (nonNull members).find? (exactMatch raw) with
    | some member => readAt registry raw member path
    | none => firstAccepted raw path (((nonNull members).filter isTried).map fun member =>
        ⟨member, readAt registry raw member⟩) :=
  readAt_union_plain plain (by simp [present]) path

theorem not_refuses_union (shapeless : (nonNull members).find? (exactMatch raw) = none) :
    ¬Refuses registry raw (.union members) := by
  rintro ⟨error, refused⟩
  rw [read, readAt_union_present present plain, shapeless] at refused
  exact firstAccepted_ne_error _ _ _ _ refused

/-- A value that has the shape of no member is read against the first that is tried and does not refuse
it. -/
theorem readAt_union_tried {before : List Descriptor} {member : Descriptor} {after : List Descriptor}
    (shapeless : (nonNull (before ++ member :: after)).find? (exactMatch raw) = none)
    (refused : ∀ other ∈ before, Refuses registry raw other) (tried : isTried member = true)
    (accepted : ¬Refuses registry raw member) (path : Path) :
    readAt registry raw (.union (before ++ member :: after)) path = readAt registry raw member path := by
  have notNull : member.isNull = false := by
    cases member with
    | null => exact absurd (refuses_null present) accepted
    | _ => rfl
  rw [readAt_union_present present plain, shapeless]
  simp only [nonNull, List.filter_append, List.filter_cons, notNull, tried, Bool.not_false, if_true,
    List.map_append, List.map_cons]
  induction before with
  | nil =>
      simp only [List.filter_nil, List.map_nil, List.nil_append, firstAccepted]
      split
      next error isRefused => exact absurd (exists_error_of_readAt isRefused) accepted
      next => rfl
  | cons other before ih =>
      obtain ⟨isRefused, others⟩ := List.forall_mem_cons.mp refused
      obtain ⟨error, isRefused⟩ := exists_error_of_refuses isRefused path
      have shapelessRest : (nonNull (before ++ member :: after)).find? (exactMatch raw) = none := by
        rw [List.find?_eq_none] at shapeless ⊢
        intro found isFound
        obtain ⟨isMember, present⟩ := List.mem_filter.mp isFound
        exact shapeless found (List.mem_filter.mpr ⟨List.mem_cons_of_mem _ isMember, present⟩)
      have rest := ih shapelessRest others
      cases isKept : !other.isNull with
      | false => simpa only [List.filter_cons, isKept, Bool.false_eq_true, if_false] using rest
      | true =>
          cases isTried : isTried other with
          | false =>
              simpa only [List.filter_cons, isKept, isTried, Bool.false_eq_true, if_true, if_false]
                using rest
          | true =>
              simpa only [List.filter_cons, isKept, isTried, if_true, List.map_cons, List.cons_append,
                firstAccepted, isRefused] using rest

end Shapes

/-- In a union a value that is no object comes to a descriptor that stands in it, or in unions nested in
it: the first member that has the shape of the value, or one that accepts the value while no member has
its shape and those before refuse it. A nested union is gone into in the place of such a member. -/
inductive ComesTo (registry : Registry) (raw : Value) : List Descriptor → Descriptor → Prop where
  | shaped {members : List Descriptor} {member : Descriptor}
      (isFirst : (nonNull members).find? (exactMatch raw) = some member) :
      ComesTo registry raw members member.core
  | tried {before after : List Descriptor} {member : Descriptor}
      (shapeless : (nonNull (before ++ member :: after)).find? (exactMatch raw) = none)
      (refused : ∀ other ∈ before, Refuses registry raw other)
      (notUnion : ∀ nested, member.core ≠ .union nested) (isTried : isTried member.core = true)
      (accepted : ¬Refuses registry raw member.core) :
      ComesTo registry raw (before ++ member :: after) member.core
  | nested {before after : List Descriptor} {member : Descriptor} {nested : List Descriptor}
      {found : Descriptor}
      (shapeless : (nonNull (before ++ member :: after)).find? (exactMatch raw) = none)
      (refused : ∀ other ∈ before, Refuses registry raw other)
      (isUnion : member.core = .union nested) (comes : ComesTo registry raw nested found)
      (accepted : ¬Refuses registry raw found) :
      ComesTo registry raw (before ++ member :: after) found

section Coming

variable (present : raw.isNull = false) (plain : raw.isObject = false)
include present plain

theorem refuses_core {descriptor : Descriptor} :
    Refuses registry raw descriptor.core ↔ Refuses registry raw descriptor := by
  rw [Refuses, Refuses, read, read, ← readAt_core present plain]

theorem readAt_of_comesTo (comes : ComesTo registry raw members found) (path : Path) :
    readAt registry raw (.union members) path = readAt registry raw found path := by
  induction comes generalizing path with
  | shaped isFirst =>
      rw [readAt_union_present present plain, isFirst]
      exact readAt_core present plain path
  | tried shapeless refused _ isTried accepted =>
      rw [readAt_union_tried present plain shapeless refused (isTried_of_core isTried)
        (fun refuses => accepted ((refuses_core present plain).mpr refuses)),
        readAt_core present plain]
  | @nested before after member nested found shapeless refused isUnion _ accepted ih =>
      have tried : isTried member = true := isTried_of_core (by rw [isUnion]; rfl)
      have inner (path : Path) : readAt registry raw member path =
          readAt registry raw found path := by
        rw [readAt_core present plain, isUnion, ih]
      refine (readAt_union_tried present plain shapeless refused tried ?_ path).trans (inner path)
      rwa [Refuses, read, inner, ← read]

/-- What refuses a value of no shape among what is spliced for it is no union, so what is spliced for it
refuses the value too. -/
theorem refuses_of_mem_spliced {member other : Descriptor}
    (shapeless : ∀ other ∈ member.spliced, exactMatch raw other = false)
    (refuses : Refuses registry raw member) (isOther : other ∈ member.spliced) :
    Refuses registry raw other := by
  have refuses := (refuses_core present plain).mpr refuses
  rw [← spliced_core] at shapeless isOther
  have leaf : member.core.isLeaf = true := by
    refine isLeaf_core fun nested isUnion => ?_
    rw [isUnion] at shapeless refuses
    exact not_refuses_union present plain (find?_eq_none_of_shapeless present shapeless) refuses
  rw [spliced_of_isLeaf leaf] at isOther
  exact List.mem_singleton.mp isOther ▸ refuses

/-- A value that has no shape comes to what accepts it first of all that is spliced. -/
theorem ComesTo.exists_split (comes : ComesTo registry raw members found)
    (shapeless : ∀ other ∈ splicedAll members, exactMatch raw other = false) :
    isTried found = true ∧ ¬Refuses registry raw found ∧
      ∃ before after, splicedAll members = before ++ found :: after ∧
        ∀ other ∈ before, Refuses registry raw other := by
  induction comes with
  | shaped isFirst =>
      have none := find?_eq_none_of_shapeless present shapeless
      cases isFirst.symm.trans none
  | @tried before after member _ refused notUnion isTried accepted =>
      rw [splicedAll_split] at shapeless ⊢
      refine ⟨isTried, accepted, splicedAll before, splicedAll after, ?_, fun other isOther => ?_⟩
      · rw [← spliced_core, spliced_of_isLeaf (isLeaf_core notUnion)]
        rfl
      · obtain ⟨member, isMember, isSpliced⟩ := mem_splicedAll.mp isOther
        exact refuses_of_mem_spliced present plain
          (fun other isOther => shapeless other
            (List.mem_append_left _ (mem_splicedAll.mpr ⟨member, isMember, isOther⟩)))
          (refused member isMember) isSpliced
  | @nested before after member nested found _ refused isUnion _ _ ih =>
      have inner : member.spliced = splicedAll nested := by rw [← spliced_core, isUnion, spliced]
      rw [splicedAll_split, inner] at shapeless ⊢
      obtain ⟨tried, accepted, front, back, split, isRefused⟩ := ih fun other isOther =>
        shapeless other (List.mem_append_right _ (List.mem_append_left _ isOther))
      refine ⟨tried, accepted, splicedAll before ++ front, back ++ splicedAll after, ?_, ?_⟩
      · rw [split]
        simp only [List.append_assoc, List.cons_append]
      · intro other isOther
        rcases List.mem_append.mp isOther with isBefore | isFront
        · obtain ⟨member, isMember, isSpliced⟩ := mem_splicedAll.mp isBefore
          exact refuses_of_mem_spliced present plain
            (fun other isOther => shapeless other
              (List.mem_append_left _ (mem_splicedAll.mpr ⟨member, isMember, isOther⟩)))
            (refused member isMember) isSpliced
        · exact isRefused other isFront

theorem readAt_flattened_of_comesTo (comes : ComesTo registry raw members found)
    (shapeless : ∀ other ∈ splicedAll members, exactMatch raw other = false) (path : Path) :
    readAt registry raw (.union (flattened members)) path = readAt registry raw found path := by
  obtain ⟨tried, accepted, before, after, split, refused⟩ := comes.exists_split present plain shapeless
  have none : (nonNull (flattened members)).find? (exactMatch raw) = none := by
    have opens := opens_exactMatch present
    have isFound := opens.find?_flattened members
    have unfound : (splicedAll members).find? (exactMatch raw) = none :=
      List.find?_eq_none.mpr (by simpa using shapeless)
    rw [find?_exactMatch present]
    exact Option.map_eq_none_iff.mp (isFound.trans unfound)
  rw [flattened, split, List.append_assoc, List.cons_append] at none ⊢
  exact readAt_union_tried present plain none refused tried accepted path

/-- A value is read against the flattened union as against the first of all that is spliced that has its
shape. -/
theorem readAt_flattened_of_shaped
    (isFirst : (splicedAll members).find? (exactMatch raw) = some found) (path : Path) :
    readAt registry raw (.union (flattened members)) path = readAt registry raw found path := by
  have opens := opens_exactMatch present
  have isFound := opens.find?_flattened members
  rw [isFirst, ← find?_exactMatch present] at isFound
  obtain ⟨member, isMember, rfl⟩ := Option.map_eq_some_iff.mp isFound
  rw [readAt_union_present present plain, isMember]
  exact readAt_core present plain path

end Coming

/-! ## Values that are kept -/

/-- A value that everything that is spliced for a descriptor keeps as it is, or refuses and does not
describe in its shape, is kept or refused by the descriptor; a union keeps it. -/
theorem kept_or_refused {descriptor : Descriptor} (plain : raw.isObject = false)
    (each : ∀ other ∈ descriptor.spliced, read registry raw other = .ok raw ∨
      exactMatch raw other = false ∧ Refuses registry raw other) :
    read registry raw descriptor = .ok raw ∨ (exactMatch raw descriptor = false ∧
      Refuses registry raw descriptor) ∧ ∀ nested, descriptor ≠ .union nested := by
  induction descriptor using Descriptor.induction with
  | optional inner ih =>
      cases present : raw.isNull with
      | true =>
          obtain rfl := Value.isNull_iff.mp present
          exact .inl rfl
      | false =>
          rw [Refuses, read, readAt_optional_of_plain present plain, ← read, exactMatch, present,
            Bool.false_or]
          exact (ih each).imp_right fun others => ⟨others.1, fun nested same => by cases same⟩
  | union members ih =>
      refine .inl ?_
      cases present : raw.isNull && nilable members with
      | true =>
          obtain ⟨isNull, isNilable⟩ := (Bool.and_eq_true _ _).mp present
          obtain rfl := Value.isNull_iff.mp isNull
          exact readAt_union_null isNilable []
      | false =>
          have each (member) (isMember : member ∈ members) := ih member isMember fun other isOther =>
            each other (mem_splicedAll.mpr ⟨member, isMember, isOther⟩)
          rw [read, readAt_union_plain plain present]
          cases isFound : (nonNull members).find? (exactMatch raw) with
          | some member =>
              have isMember := List.mem_of_mem_filter (List.mem_of_find?_eq_some isFound)
              have shaped : exactMatch raw member = true := List.find?_some isFound
              rcases each member isMember with kept | ⟨⟨shapeless, -⟩, -⟩
              · exact kept
              · rw [shaped] at shapeless
                cases shapeless
          | none =>
              rw [← List.append_nil (List.map _ _)]
              refine firstAccepted_append_kept (fun candidate isCandidate => ?_) rfl
              obtain ⟨member, isMember, rfl⟩ := List.mem_map.mp isCandidate
              exact (each member (List.mem_of_mem_filter (List.mem_of_mem_filter isMember))).imp_right
                fun others => others.1.2
  | _ =>
      refine (each _ (List.mem_singleton_self _)).imp_right fun others => ⟨others, fun nested same => ?_⟩
      cases same

/-- A value that everything that is spliced keeps or refuses is kept by the union and by the flattened
union. -/
theorem readAt_kept (plain : raw.isObject = false)
    (each : ∀ other ∈ splicedAll members, read registry raw other = .ok raw ∨
      exactMatch raw other = false ∧ Refuses registry raw other) (path : Path) :
    readAt registry raw (.union members) path = .ok raw ∧
      readAt registry raw (.union (flattened members)) path = .ok raw := by
  have union (members : List Descriptor) (each : ∀ other ∈ splicedAll members,
      read registry raw other = .ok raw ∨ exactMatch raw other = false ∧ Refuses registry raw other) :
      readAt registry raw (.union members) path = .ok raw := by
    refine readAt_eq_ok_iff.mpr ?_
    rcases @kept_or_refused registry raw (.union members) plain each with kept | ⟨-, notUnion⟩
    · exact kept
    · exact absurd rfl (notUnion members)
  refine ⟨union members each, union _ fun other isOther => ?_⟩
  obtain ⟨member, isMember, isSpliced⟩ := mem_splicedAll.mp isOther
  rw [spliced_of_isLeaf (isLeaf_of_mem_flattened isMember), List.mem_singleton] at isSpliced
  subst isSpliced
  rcases List.mem_append.mp isMember with isSpliced | isAdded
  · exact each other isSpliced
  · split at isAdded
    · obtain rfl := List.mem_singleton.mp isAdded
      cases present : raw.isNull with
      | true =>
          obtain rfl := Value.isNull_iff.mp present
          exact .inl rfl
      | false => exact .inr ⟨present, refuses_null present⟩
    · cases isAdded

theorem kept_or_shapeless {descriptor : Descriptor} (notList : raw.items? = none)
    (either : read registry raw descriptor = .ok raw ∨ Refuses registry raw descriptor) :
    read registry raw descriptor = .ok raw ∨
      exactMatch raw descriptor = false ∧ Refuses registry raw descriptor := by
  cases shaped : exactMatch raw descriptor with
  | false => exact either.imp_right fun refuses => ⟨rfl, refuses⟩
  | true =>
      rcases @readAt_of_exactMatch registry raw descriptor shaped [] with kept | ⟨_, items, -, isList⟩
      · exact .inl kept
      · rw [notList] at isList
        cases isList

theorem null_kept_or_refused {descriptor : Descriptor} (leaf : descriptor.isLeaf = true)
    (isDescriptor : ∀ value, descriptor ≠ .stray value) :
    read registry .null descriptor = .ok .null ∨ Refuses registry .null descriptor := by
  rw [Refuses, read, readAt_eq]
  cases descriptor with
  | scalar kind => cases kind <;> exact .inr ⟨_, rfl⟩
  | enum type =>
      rw [Read.read, coerceEnum]
      split
      · exact .inl rfl
      · exact .inr ⟨_, rfl⟩
  | array element => exact .inr ⟨_, rfl⟩
  | map key element => exact .inr ⟨_, rfl⟩
  | null => exact .inl rfl
  | fixed record =>
      rw [Read.read, readRecord]
      split
      · exact .inl rfl
      · exact .inr ⟨_, rfl⟩
  | struct id =>
      rw [Read.read, readRecord]
      split
      · exact .inl rfl
      · exact .inr ⟨_, rfl⟩
  | stray value => exact absurd rfl (isDescriptor value)
  | optional inner => cases leaf
  | union nested => cases leaf

/-! ## Reading -/

/-- A value is read alike against a union and against the flattened union: it is null or an instance; or
an object for which both come to the same member; or else it comes to what is the first to have its
shape, or to accept it where nothing has its shape, of all that is spliced, or all this refuses it. -/
inductive ReadsAlike (registry : Registry) (members : List Descriptor) : Value → Prop where
  | null : ReadsAlike registry members .null
  | record (tag : RecordTag) (fields : List (FieldTag × Value)) :
      ReadsAlike registry members (.record tag fields)
  | object {entries : Value.Entries} (selects : SelectsAlike registry.structs members entries) :
      ReadsAlike registry members (.object entries)
  | shaped {raw : Value} {found : Descriptor} (present : raw.isNull = false)
      (plain : raw.isObject = false)
      (isFirst : (splicedAll members).find? (exactMatch raw) = some found)
      (comes : ComesTo registry raw members found) : ReadsAlike registry members raw
  | tried {raw : Value} {found : Descriptor} (present : raw.isNull = false)
      (plain : raw.isObject = false)
      (shapeless : ∀ other ∈ splicedAll members, exactMatch raw other = false)
      (comes : ComesTo registry raw members found) : ReadsAlike registry members raw
  | refused {raw : Value} (plain : raw.isObject = false)
      (shapeless : ∀ other ∈ splicedAll members, exactMatch raw other = false)
      (refused : ∀ other ∈ splicedAll members, Refuses registry raw other) :
      ReadsAlike registry members raw

theorem ReadsAlike.matches (alike : ReadsAlike registry members raw)
    (described : ∀ other ∈ splicedAll members, ∀ value, other ≠ .stray value) (path : Path) :
    Outcome.Matches (readAt registry raw (.union members) path)
      (readAt registry raw (.union (flattened members)) path) := by
  have leaf (other) (isOther : other ∈ splicedAll members) : other.isLeaf = true := by
    obtain ⟨member, -, isSpliced⟩ := mem_splicedAll.mp isOther
    exact isLeaf_of_mem_spliced isSpliced
  cases alike with
  | object selects => exact selects.matches path
  | shaped present plain isFirst comes =>
      rw [readAt_of_comesTo present plain comes, readAt_flattened_of_shaped present plain isFirst]
      exact .same _
  | tried present plain shapeless comes =>
      rw [readAt_of_comesTo present plain comes, readAt_flattened_of_comesTo present plain
        comes shapeless]
      exact .same _
  | refused plain shapeless refused =>
      obtain ⟨kept, keptToo⟩ := readAt_kept plain
        (fun other isOther => .inr ⟨shapeless other isOther, refused other isOther⟩) path
      rw [kept, keptToo]
      exact .same _
  | null =>
      obtain ⟨kept, keptToo⟩ := @readAt_kept registry members .null rfl (fun other isOther =>
        kept_or_shapeless rfl (null_kept_or_refused (leaf other isOther) (described other isOther))) path
      rw [kept, keptToo]
      exact .same _
  | record tag fields =>
      obtain ⟨kept, keptToo⟩ := @readAt_kept registry members (.record tag fields) rfl
        (fun other isOther => by
          have isLeaf := leaf other isOther
          have core : other.core = other := by cases other <;> first | rfl | cases isLeaf
          refine kept_or_shapeless rfl (readAt_record_kept ?_ ?_ tag fields)
          · rw [core]
            exact described other isOther
          · rw [core]
            rintro nested rfl
            cases isLeaf) path
      rw [kept, keptToo]
      exact .same _

/-! ## Unions without nested unions -/

theorem exists_first_accepting (accepted : ¬∀ other ∈ members, Refuses registry raw other) :
    ∃ before member after, members = before ++ member :: after ∧
      (∀ other ∈ before, Refuses registry raw other) ∧ ¬Refuses registry raw member := by
  induction members with
  | nil => exact absurd (List.forall_mem_nil _) accepted
  | cons member members ih =>
      by_cases isRefused : Refuses registry raw member
      · obtain ⟨before, first, after, rfl, refused, isAccepted⟩ :=
          ih fun refused => accepted (List.forall_mem_cons.mpr ⟨isRefused, refused⟩)
        exact ⟨member :: before, first, after, rfl,
          List.forall_mem_cons.mpr ⟨isRefused, refused⟩, isAccepted⟩
      · exact ⟨[], member, members, rfl, List.forall_mem_nil _, isRefused⟩

theorem exists_record_of_accepted {descriptor : Descriptor} (plain : raw.isObject = false)
    (untried : isTried descriptor = false) (accepted : ¬Refuses registry raw descriptor) :
    ∃ tag fields, raw = .record tag fields := by
  by_contra other
  refine accepted ?_
  have notInstance (record : RecordView) : isInstanceOf record raw = false := by
    unfold isInstanceOf
    split
    · cases raw <;> first | rfl | exact absurd ⟨_, _, rfl⟩ other
    · rfl
  have noEntries : raw.entries? = none := by simpa [Value.isObject] using plain
  rw [Refuses, read, readAt_eq]
  cases descriptor with
  | map key element =>
      rw [Read.read, if_neg (by simp [plain])]
      exact ⟨_, rfl⟩
  | fixed record =>
      simp only [Read.read, readRecord, notInstance, Bool.false_eq_true, if_false, noEntries]
      exact ⟨_, rfl⟩
  | struct id =>
      simp only [Read.read, readRecord, notInstance, Bool.false_eq_true, if_false, noEntries]
      exact ⟨_, rfl⟩
  | _ => cases untried

section Flat

variable (flat : ∀ member ∈ members, ∀ nested, member.core ≠ .union nested)
include flat

theorem splicedAll_of_flat : splicedAll members = members.map core := by
  induction members with
  | nil => rfl
  | cons member members ih =>
      obtain ⟨notUnion, others⟩ := List.forall_mem_cons.mp flat
      rw [splicedAll, ih others, ← spliced_core, spliced_of_isLeaf (isLeaf_core notUnion)]
      rfl

/-- Against a union in which no union is nested, every value that is no object is read as against the
flattened union. -/
theorem readsAlike_of_flat (plain : raw.isObject = false) : ReadsAlike registry members raw := by
  cases present : raw.isNull with
  | true =>
      obtain rfl := Value.isNull_iff.mp present
      exact .null
  | false =>
      have all := splicedAll_of_flat flat
      cases isFirst : (splicedAll members).find? (exactMatch raw) with
      | some found =>
          have opens := opens_exactMatch present
          have direct := isFirst
          rw [all, List.find?_map, ← opens.find?_nonNull, ← find?_exactMatch present] at direct
          obtain ⟨member, isMember, rfl⟩ := Option.map_eq_some_iff.mp direct
          exact .shaped present plain isFirst (.shaped isMember)
      | none =>
          have shapeless : ∀ other ∈ splicedAll members, exactMatch raw other = false := by
            simpa using isFirst
          by_cases refused : ∀ other ∈ members, Refuses registry raw other
          · refine .refused plain shapeless fun other isOther => ?_
            rw [all] at isOther
            obtain ⟨member, isMember, rfl⟩ := List.mem_map.mp isOther
            exact (refuses_core present plain).mpr (refused member isMember)
          · obtain ⟨before, first, after, rfl, refused, isAccepted⟩ :=
              exists_first_accepting refused
            have none := find?_eq_none_of_shapeless present shapeless
            have accepts : ¬Refuses registry raw first.core :=
              fun refuses => isAccepted ((refuses_core present plain).mp refuses)
            have notUnion := flat first (List.mem_append_right _ List.mem_cons_self)
            cases tried : isTried first.core with
            | true =>
                exact .tried present plain shapeless (.tried none refused notUnion tried accepts)
            | false =>
                obtain ⟨tag, fields, rfl⟩ := exists_record_of_accepted plain tried accepts
                exact .record tag fields

end Flat

end TypedReply
