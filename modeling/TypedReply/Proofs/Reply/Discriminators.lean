import TypedReply.Proofs.Reply.Soundness
import TypedReply.Reference.Library

/-!
# Discriminated payloads

A tag is looked at twice: by the field that it is the value of, which takes it for a choice, and by the
union after that field, which takes it for the name of a record. A choice is named by a text with
blanks around it, by a number and in any case; a record only by a text as it is or in lower case. So
the record that a payload is read as need not be the one that the stored choice is called like, unless
the tag names the record.
-/

namespace TypedReply

/-! ## The records that texts name -/

namespace TypeMapping

variable (mapping : TypeMapping) (record : Descriptor) (text : String)

theorem lookup_offer (name : String) :
    (mapping.offer name record).lookup text =
      (mapping.lookup text).or (if text = name then some record else none) := by
  cases taken : mapping.lookup name with
  | some other =>
      rw [offer_of_isSome record (by rw [taken]; rfl)]
      by_cases same : text = name
      · rw [same, taken]
        rfl
      · rw [if_neg same, Option.or_none]
  | none =>
      have added : mapping.offer name record = mapping ++ [(name, record)] := by
        simp only [offer, taken, Option.isSome_none, Bool.false_eq_true, if_false]
      rw [added, List.lookup_append]
      by_cases same : text = name
      · rw [if_pos same, same, List.lookup_cons_self]
      · have unequal : (text == name) = false := by simpa using same
        rw [if_neg same, List.lookup_cons, unequal, List.lookup_nil]

theorem lookup_offerAll (names : List String) :
    (mapping.offerAll names record).lookup text =
      (mapping.lookup text).or (if text ∈ names then some record else none) := by
  induction names generalizing mapping with
  | nil => rw [if_neg List.not_mem_nil, Option.or_none, offerAll, List.foldl_nil]
  | cons name names ih =>
      have step : mapping.offerAll (name :: names) record =
          (mapping.offer name record).offerAll names record := rfl
      rw [step, ih, lookup_offer, Option.or_assoc]
      by_cases same : text = name
      · simp [same]
      · simp [same]

end TypeMapping

namespace Descriptor

/-- The mapping of a discriminator gives a text to the first record that the text names. -/
theorem lookup_typeMapping (store : Store) (members : List Descriptor) (discriminator : Descriptor)
    (text : String) :
    (typeMapping store members discriminator).lookup text =
      ((namedRecords store members).find? fun record =>
        decide (text ∈ discriminator.namings record.1)).map Prod.snd := by
  have each (records : List (String × Descriptor)) (mapping : TypeMapping) :
      (records.foldl (fun mapping record =>
          mapping.offerAll (discriminator.namings record.1) record.2) mapping).lookup text =
        (mapping.lookup text).or ((records.find? fun record =>
          decide (text ∈ discriminator.namings record.1)).map Prod.snd) := by
    induction records generalizing mapping with
    | nil => simp
    | cons record records ih =>
        rw [List.foldl_cons, ih, TypeMapping.lookup_offerAll, Option.or_assoc, List.find?_cons]
        by_cases isNamed : text ∈ discriminator.namings record.1
        · simp [isNamed]
        · simp [isNamed]
  exact each _ []

/-- The mapping of a union with named records names each of them by its name at least. -/
theorem isEmpty_typeMapping {store : Store} {members : List Descriptor}
    (named : namedRecords store members ≠ []) (discriminator : Descriptor) :
    (typeMapping store members discriminator).isEmpty = false := by
  obtain ⟨record, records, isCons⟩ := List.exists_cons_of_ne_nil named
  have isNaming : record.1 ∈ discriminator.namings record.1 := List.mem_cons_self
  have leads := lookup_typeMapping store members discriminator record.1
  rw [isCons, List.find?_cons_of_pos (by simpa using isNaming)] at leads
  rw [List.isEmpty_eq_false_iff]
  intro none
  rw [none] at leads
  cases leads

/-- A record is named as it names itself. -/
theorem tag?_of_mem_namedRecords {store : Store} {members : List Descriptor}
    {record : String × Descriptor} (isRecord : record ∈ namedRecords store members) :
    record.2.tag? store = some record.1 := by
  obtain ⟨member, -, isNamed⟩ := List.mem_filterMap.mp isRecord
  simp only [Option.bind_eq_bind, Option.bind_eq_some_iff] at isNamed
  obtain ⟨view, isView, name, isName, same⟩ := isNamed
  cases same
  exact Option.bind_eq_some_iff.mpr ⟨view, isView, isName⟩

/-- No text names two records. -/
def Unambiguous (discriminator : Descriptor) (records : List (String × Descriptor)) : Prop :=
  ∀ one ∈ records, ∀ other ∈ records, ∀ text ∈ discriminator.namings one.1,
    text ∈ discriminator.namings other.1 → one = other

/-- The value of a tag names a record: it is a text that is a naming of the record, or that is a naming
of no record and in lower case is one of this. -/
def Names (discriminator : Descriptor) (records : List (String × Descriptor)) (name : String)
    (tag : Value) : Prop :=
  ∃ text, (memberValue tag).text? = some text ∧
    (text ∈ discriminator.namings name ∨
      (∀ record ∈ records, text ∉ discriminator.namings record.1) ∧
        folded text ∈ discriminator.namings name)

section Unambiguous

variable {store : Store} {members : List Descriptor} {discriminator : Descriptor}
variable (unambiguous : discriminator.Unambiguous (namedRecords store members))
variable {name : String} {record : Descriptor} (isRecord : (name, record) ∈ namedRecords store members)
include unambiguous isRecord

theorem find?_eq_some_iff_of_unambiguous (text : String) :
    (namedRecords store members).find? (fun record =>
        decide (text ∈ discriminator.namings record.1)) = some (name, record) ↔
      text ∈ discriminator.namings name := by
  constructor
  · intro found
    simpa using List.find?_some found
  · intro isNaming
    cases found : (namedRecords store members).find? fun record =>
        decide (text ∈ discriminator.namings record.1) with
    | none =>
        have unnamed := List.find?_eq_none.mp found (name, record) isRecord
        exact (unnamed (by simpa using isNaming)).elim
    | some other =>
        have isOther : text ∈ discriminator.namings other.1 := by
          simpa using List.find?_some found
        rw [unambiguous other (List.mem_of_find?_eq_some found) _ isRecord text isOther isNaming]

theorem resolve?_eq_some_iff (tag : Value) :
    (typeMapping store members discriminator).resolve? tag = some record ↔
      discriminator.Names (namedRecords store members) name tag := by
  have leads (text : String) :
      (typeMapping store members discriminator).lookup text = some record ↔
        text ∈ discriminator.namings name := by
    rw [← find?_eq_some_iff_of_unambiguous unambiguous isRecord, lookup_typeMapping]
    constructor
    · intro leads
      obtain ⟨⟨other, same⟩, found, rfl⟩ := Option.map_eq_some_iff.mp leads
      have isOther := tag?_of_mem_namedRecords (List.mem_of_find?_eq_some found)
      rw [tag?_of_mem_namedRecords isRecord] at isOther
      cases isOther
      exact found
    · intro found
      rw [found]
      rfl
  have unnamed (text : String) :
      (typeMapping store members discriminator).lookup text = none ↔
        ∀ other ∈ namedRecords store members, text ∉ discriminator.namings other.1 := by
    simp [lookup_typeMapping]
  simp only [TypeMapping.resolve?, Names, Option.bind_eq_bind, Option.bind_eq_some_iff,
    Option.orElse_eq_orElse, Option.orElse_eq_or, Option.or_eq_some_iff, leads, unnamed]

end Unambiguous

end Descriptor

/-! ## The discrimination of a field -/

namespace Discrimination

/-- The discriminations with that of one field replaced. -/
def replaced (new : Discrimination) (found : List Discrimination) : List Discrimination :=
  found.map fun old => if old.field == new.field then new else old

theorem find?_replaced_self {new : Discrimination} {found : List Discrimination}
    (taken : found.any (·.field == new.field) = true) :
    (replaced new found).find? (·.field == new.field) = some new := by
  induction found with
  | nil => cases taken
  | cons old found ih =>
      by_cases isField : old.field = new.field
      · simp [replaced, isField]
      · simpa [replaced, isField] using ih (by simpa [isField] using taken)

theorem find?_replaced_of_ne {name : String} {new : Discrimination} (different : new.field ≠ name)
    (found : List Discrimination) :
    (replaced new found).find? (·.field == name) = found.find? (·.field == name) := by
  induction found with
  | nil => rfl
  | cons old found ih =>
      have step : replaced new (old :: found) =
          (if old.field == new.field then new else old) :: replaced new found := rfl
      rw [step, List.find?_cons, List.find?_cons, ih]
      by_cases isField : old.field = new.field
      · have unequal : (new.field == name) = false := by simpa using different
        simp [isField, unequal]
      · simp [isField]

theorem find?_merge_one (name : String) (new : Discrimination) (found : List Discrimination) :
    (if found.any (·.field == new.field) then replaced new found else found ++ [new]).find?
        (·.field == name) =
      if new.field = name then some new else found.find? (·.field == name) := by
  by_cases same : new.field = name
  · subst same
    rw [if_pos rfl]
    split
    next taken => exact find?_replaced_self taken
    next free =>
      have absent : found.find? (·.field == new.field) = none := by simpa using free
      rw [List.find?_append, absent]
      simp
  · rw [if_neg same]
    split
    · exact find?_replaced_of_ne same found
    · simp [List.find?_append, same]

/-- The last of the new discriminations of a field takes the place of the others. -/
theorem find?_merge (name : String) (news found : List Discrimination) :
    (news.foldl (fun found new =>
        if found.any (·.field == new.field) then replaced new found else found ++ [new])
        found).find? (·.field == name) =
      (news.filter (·.field == name)).getLast?.or (found.find? (·.field == name)) := by
  induction news generalizing found with
  | nil => rw [List.foldl_nil, List.filter_nil, List.getLast?_nil, Option.none_or]
  | cons new news ih =>
      rw [List.foldl_cons, ih, find?_merge_one]
      by_cases same : new.field = name
      · rw [if_pos same, List.filter_cons_of_pos (by simpa using same), List.getLast?_cons]
        cases (news.filter (·.field == name)).getLast? <;> rfl
      · rw [if_neg same, List.filter_cons_of_neg (by simpa using same)]

/-- A field is discriminated as its last pair with the field before it says. -/
theorem find?_detect (store : Store) (fields : List Field) (name : String) :
    (detect store fields).find? (·.field == name) =
      (((fields.zip fields.tail).filterMap fun pair => ofPair? store pair.1 pair.2).filter
        (·.field == name)).getLast? := by
  have merged := find?_merge name
    ((fields.zip fields.tail).filterMap fun pair => ofPair? store pair.1 pair.2) []
  rw [List.find?_nil, Option.or_none] at merged
  exact merged

theorem exists_neighbours {α : Type} (before : List α) (first second : α) (after : List α) :
    ∃ earlier, (before ++ first :: second :: after).zip (before ++ first :: second :: after).tail =
      earlier ++ (first, second) :: (second :: after).zip after := by
  induction before with
  | nil => exact ⟨[], rfl⟩
  | cons other before ih =>
      obtain ⟨earlier, pairs⟩ := ih
      cases before with
      | nil => exact ⟨[(other, first)], rfl⟩
      | cons next before =>
          exact ⟨(other, next) :: earlier, congrArg ((other, next) :: ·) pairs⟩

/-- The discrimination of a field by the one before it holds, if no later field takes its name. -/
theorem find?_detect_of_neighbours {store : Store} {tag payload : Field} {found : Discrimination}
    (ofPair : ofPair? store tag payload = some found) (before : List Field) {after : List Field}
    (last : payload.name ∉ after.map (·.name)) :
    (detect store (before ++ tag :: payload :: after)).find? (·.field == payload.name) =
      some found := by
  obtain ⟨earlier, pairs⟩ := exists_neighbours before tag payload after
  obtain ⟨members, -, isFound⟩ := Read.exists_members_of_ofPair? ofPair
  have isOwn : found.field = payload.name := by rw [isFound]
  have others : (((payload :: after).zip after).filterMap fun pair =>
      ofPair? store pair.1 pair.2).filter (·.field == payload.name) = [] := by
    rw [List.filter_eq_nil_iff]
    intro other isOther
    obtain ⟨⟨previous, field⟩, isPair, ofPair⟩ := List.mem_filterMap.mp isOther
    obtain ⟨_, -, rfl⟩ := Read.exists_members_of_ofPair? ofPair
    have isLater : field ∈ after := (List.of_mem_zip isPair).2
    have different : field.name ≠ payload.name := by
      intro same
      exact last (same ▸ List.mem_map_of_mem isLater)
    simpa using different
  have here : ((tag, payload) :: (payload :: after).zip after).filterMap
      (fun pair => ofPair? store pair.1 pair.2) =
        found :: ((payload :: after).zip after).filterMap fun pair => ofPair? store pair.1 pair.2 :=
    List.filterMap_cons_some ofPair
  rw [find?_detect, pairs, List.filterMap_append, here, List.filter_append,
    List.filter_cons_of_pos (by simpa using isOwn), others]
  simp

end Discrimination

/-! ## Tags that are taken for choices -/

theorem EnumClass.toValue_inj {cls : EnumClass} {entry other : String × Value}
    (same : cls.toValue entry = cls.toValue other) : entry = other := by
  obtain ⟨name, value⟩ := entry
  obtain ⟨otherName, otherValue⟩ := other
  simp only [toValue, Value.member.injEq, true_and] at same
  rw [same.1, same.2]

theorem EnumClass.text_of_choose? {cls : EnumClass} {entry : String × Value} {text : String}
    (chosen : (EnumType.ofClass cls).choose? text = some (cls.toValue entry)) :
    text = entry.2.display ∨ folded text = folded entry.2.display ∨
      folded text = folded entry.1 := by
  obtain ⟨choice, found, isChoice⟩ := Option.map_eq_some_iff.mp chosen
  simp only [Option.orElse_eq_orElse, Option.orElse_eq_or, Option.or_eq_some_iff] at found
  have isEntry (isNamed : choice ∈ (EnumType.ofClass cls).named) :
      choice = (entry.2.display, [entry.2.display, entry.1], cls.toValue entry) := by
    obtain ⟨other, -, rfl⟩ := List.mem_map.mp isNamed
    rw [toValue_inj isChoice]
  cases found with
  | inl exactly =>
      left
      have isLabel := List.find?_some exactly
      rw [isEntry (List.mem_of_find?_eq_some exactly), beq_iff_eq] at isLabel
      exact isLabel.symm
  | inr loosely =>
      right
      have isName := List.find?_some loosely.2
      rw [isEntry (List.mem_of_find?_eq_some loosely.2)] at isName
      simp only [List.any_cons, List.any_nil, Bool.or_false, Bool.or_eq_true, beq_iff_eq] at isName
      exact isName.imp Eq.symm Eq.symm

/-- A text without blanks around it that is taken for a member of a class is the text of its value, or
in another case this or the name of the member. -/
theorem text_of_coerceEnum {cls : EnumClass} {tag : Value} {path : Path} {entry : String × Value}
    (coerced : coerceEnum (.ofClass cls) tag path = .ok (cls.toValue entry)) {text : String}
    (isText : memberValue tag = .str text) (trimmed : Text.trim text.toList = text.toList) :
    text = entry.2.display ∨ folded text = folded entry.2.display ∨
      folded text = folded entry.1 := by
  unfold coerceEnum at coerced
  split at coerced
  next has =>
    left
    rw [Except.ok.inj coerced] at isText
    have carried : entry.2 = .str text := isText
    rw [carried]
    rfl
  next =>
    simp only [isText, EnumType.tagText?, trimmed, String.ofList_toList] at coerced
    split at coerced
    next chosen =>
      rw [Except.ok.inj coerced] at chosen
      exact EnumClass.text_of_choose? chosen
    next => cases coerced

namespace Descriptor

variable {discriminator : Descriptor} {cls : EnumClass} {entry : String × Value} {name : String}

theorem display_mem_namings (enumerates : discriminator.unwrapped = .enum (.ofClass cls))
    (isMember : entry ∈ cls.members) (alike : folded entry.1 = folded name) :
    entry.2.display ∈ discriminator.namings name := by
  have isAlike : entry ∈ discriminator.enumMembers.filter fun member =>
      member.1 == name || folded member.1 == folded name := by
    rw [List.mem_filter, enumMembers, enumerates]
    exact ⟨isMember, by simp [alike]⟩
  have isValue := List.mem_map_of_mem (f := fun member : String × Value => member.2.display) isAlike
  unfold namings
  simp only [List.mem_cons, List.mem_append]
  exact .inr (.inr (.inl isValue))

theorem folded_mem_namings (discriminator : Descriptor) (name : String) :
    folded name ∈ discriminator.namings name :=
  List.mem_cons_of_mem _ List.mem_cons_self

/-- A text without blanks around it that is taken for a member names the record that the member is
named like, if it names no other record and the member's value is in lower case. -/
theorem names_of_coerceEnum (enumerates : discriminator.unwrapped = .enum (.ofClass cls))
    (isMember : entry ∈ cls.members) (alike : folded entry.1 = folded name)
    (lower : folded entry.2.display = entry.2.display) {tag : Value} {path : Path}
    (coerced : coerceEnum (.ofClass cls) tag path = .ok (cls.toValue entry)) {text : String}
    (isText : memberValue tag = .str text) (trimmed : Text.trim text.toList = text.toList)
    {records : List (String × Descriptor)}
    (own : ∀ record ∈ records, text ∈ discriminator.namings record.1 → record.1 = name) :
    discriminator.Names records name tag := by
  have isNaming : text ∈ discriminator.namings name ∨
      folded text ∈ discriminator.namings name := by
    have isValue := display_mem_namings enumerates isMember alike
    cases text_of_coerceEnum coerced isText trimmed with
    | inl isDisplay => exact .inl (isDisplay ▸ isValue)
    | inr isFolded =>
        right
        cases isFolded with
        | inl isDisplay =>
            rw [isDisplay, lower]
            exact isValue
        | inr isName =>
            rw [isName, alike]
            exact folded_mem_namings discriminator name
  refine ⟨text, by rw [isText]; rfl, ?_⟩
  by_cases here : text ∈ discriminator.namings name
  · exact .inl here
  · refine .inr ⟨?_, isNaming.resolve_left here⟩
    intro record isRecord isElsewhere
    rw [own record isRecord isElsewhere] at isElsewhere
    exact here isElsewhere

end Descriptor

/-! ## Payloads -/

namespace Read

variable {registry : Registry} {descriptor : Descriptor} {record : RecordView}
variable {before after : List Field} {tag payload : Field} {entries : Value.Entries} {path : Path}

/-- In the record that an object is read as, a field holds what a value is read as against a
descriptor. -/
def HoldsReading (registry : Registry) (record : RecordView) (result : Value) (path : Path)
    (field : Field) (value : Value) (descriptor : Descriptor) : Prop :=
  ∃ values : Value.Entries, ∃ held, instantiate registry record (.object values) path = .ok result ∧
    values.get? field.name = some held ∧
      readAt registry value descriptor (path ++ [Path.key field.name]) = .ok held

/-- What is read for the last field of a name is held under the name. -/
theorem exists_held_of_readAt (isRecord : descriptor.record? registry.structs = some record)
    {field : Field} (fields : record.fields = before ++ field :: after)
    (last : field.name ∉ after.map (·.name)) {result : Value}
    (reads : readAt registry (.object entries) descriptor path = .ok result) :
    ∃ values : Value.Entries, ∃ held,
      instantiate registry record (.object values) path = .ok result ∧
        values.get? field.name = some held ∧
          readField registry.structs record.fields entries
            ((Value.object entries).parts (Read.read registry)) field
              (path ++ [Path.key field.name]) = .ok held := by
  rw [readAt_record isRecord] at reads
  obtain ⟨results, areRead, isMade⟩ := bind_eq_ok_iff.mp reads
  obtain ⟨named, rfl, aligned⟩ := exists_named_of_fieldValues areRead
  rw [fields] at aligned
  obtain ⟨earlier, ⟨name, held⟩, later, rfl, isHeld, others⟩ := exists_split_of_aligned aligned
  obtain rfl : name = field.name := isHeld.1
  have names : after.map (·.name) = later.map Prod.fst :=
    map_eq_of_aligned others fun _ _ _ same => same.1.symm
  refine ⟨_, held, isMade, ?_, fields ▸ isHeld.2⟩
  rw [ofPairs_entriesOf_eq, Value.get?_entriesOf]
  exact Fields.get?_putAll_of_last [] earlier held (names ▸ last)

/-- A tag that is a text, or a member that carries one, is read against a type of choices as a
choice. -/
theorem coerceEnum_of_readField {type : EnumType} (enumerates : tag.type.unwrapped = .enum type)
    {fields : List Field} {stored value : Value}
    (stores : readField registry.structs fields entries ((Value.object entries).parts
      (Read.read registry)) tag path = .ok stored)
    (present : entries.get? tag.name = some value) (isPlain : value.isObject = false)
    (isThere : value.isNull = false) : coerceEnum type value path = .ok stored := by
  unfold readField at stores
  rw [Value.get?_parts, present] at stores
  have undiscriminated : discriminated? (Discrimination.detect registry.structs fields) entries tag
      value = none := by
    unfold discriminated?
    cases (Discrimination.detect registry.structs fields).find? (·.field == tag.name) with
    | none => rfl
    | some found => simp [isPlain, guard]
  have reads : readAt registry value tag.type path = .ok stored := by
    rw [← presentField_eq undiscriminated (by rw [isThere]; rfl)]
    exact stores
  cases written : tag.type with
  | enum other =>
      rw [written] at enumerates reads
      cases enumerates
      rw [readAt_eq, Read.read] at reads
      exact reads
  | optional inner =>
      rw [written] at enumerates reads
      obtain rfl : inner = .enum type := enumerates
      have untagged : ∀ name, (Descriptor.enum type).tag? registry.structs = some name →
          value.get? typeKey = some (.str name) := by
        intro name named
        cases named
      rw [readAt_optional isThere untagged, readAt_eq, Read.read] at reads
      exact reads
  | _ =>
      rw [written] at enumerates
      cases enumerates

/-- An untagged object under the name of a union whose records a discriminator before it names is read
against the record that the value under the discriminator's name leads to. -/
theorem discriminated?_of_neighbours {members : List Descriptor}
    (discriminates : tag.type.isDiscriminator = true)
    (isUnion : payload.type.unwrapped = .union members)
    (named : Descriptor.namedRecords registry.structs members ≠ [])
    (last : payload.name ∉ after.map (·.name)) {value : Value} (isObject : value.isObject = true)
    (untagged : isTagged value = false) :
    discriminated? (Discrimination.detect registry.structs (before ++ tag :: payload :: after))
        entries payload value =
      (Descriptor.typeMapping registry.structs members tag.type).resolve?
        ((entries.get? tag.name).getD .null) := by
  have nonempty := Descriptor.isEmpty_typeMapping named tag.type
  have ofPair : Discrimination.ofPair? registry.structs tag payload =
      some ⟨payload.name, tag.name, Descriptor.typeMapping registry.structs members tag.type⟩ := by
    simp [Discrimination.ofPair?, isUnion, discriminates, nonempty]
  rw [discriminated?, Discrimination.find?_detect_of_neighbours ofPair before last]
  simp [guard, isObject, untagged]

end Read

open Read

/-- In a record, a field of a class of choices directly precedes a union, and no text names two records
of the union. No later field has the name of the union, under which it would take the union's place. -/
structure IsDiscriminated (store : Store) (record : RecordView) (tag payload : Field)
    (cls : EnumClass) (members : List Descriptor) : Prop where
  neighbours : ∃ before after, record.fields = before ++ tag :: payload :: after ∧
    payload.name ∉ after.map (·.name)
  enumerates : tag.type.unwrapped = .enum (.ofClass cls)
  isUnion : payload.type.unwrapped = .union members
  unambiguous : tag.type.Unambiguous (Descriptor.namedRecords store members)

/-- An object is read as a record in which a choice precedes a union, and the value of the union is an
untagged object. If the choice that is stored is a member called like a record of the union, then the
union is read as this record exactly if the value under the choice's name names the record. It does if
it is, or carries, the text of the member's value; or another text without blanks around it that names
no other record, where the member's value is in lower case. -/
theorem payload_read_as_stored_iff {registry : Registry} {descriptor : Descriptor}
    {record : RecordView} (isRecord : descriptor.record? registry.structs = some record)
    {tag payload : Field} {cls : EnumClass} {members : List Descriptor}
    (discriminated : IsDiscriminated registry.structs record tag payload cls members)
    {entries : Value.Entries} {value : Value} (present : entries.get? payload.name = some value)
    (isObject : value.isObject = true) (untagged : isTagged value = false) {path : Path}
    {result : Value} (reads : readAt registry (.object entries) descriptor path = .ok result)
    {entry : String × Value} (isMember : entry ∈ cls.members)
    (stores : readField registry.structs record.fields entries
      ((Value.object entries).parts (Read.read registry)) tag (path ++ [Path.key tag.name]) =
        .ok (cls.toValue entry))
    {name : String} {selected : Descriptor}
    (isNamed : (name, selected) ∈ Descriptor.namedRecords registry.structs members)
    (alike : folded entry.1 = folded name) :
    ∃ choice : Option Descriptor,
      HoldsReading registry record result path payload value (choice.getD payload.type) ∧
      (choice = some selected ↔
        tag.type.Names (Descriptor.namedRecords registry.structs members) name
          ((entries.get? tag.name).getD .null)) ∧
      ∀ text, (entries.get? tag.name).map memberValue = some (.str text) →
        (text = entry.2.display ∨
          Text.trim text.toList = text.toList ∧ folded entry.2.display = entry.2.display ∧
            ∀ other ∈ Descriptor.namedRecords registry.structs members,
              text ∈ tag.type.namings other.1 → other.1 = name) →
          choice = some selected := by
  obtain ⟨⟨before, after, fields, last⟩, enumerates, isUnion, unambiguous⟩ := discriminated
  have named := List.ne_nil_of_mem isNamed
  have discriminates : tag.type.isDiscriminator = true := by
    rw [Descriptor.isDiscriminator, enumerates]
  have selects : discriminated? (Discrimination.detect registry.structs record.fields) entries
        payload value = some selected ↔
      tag.type.Names (Descriptor.namedRecords registry.structs members) name
        ((entries.get? tag.name).getD .null) := by
    rw [fields, discriminated?_of_neighbours discriminates isUnion named last isObject untagged]
    exact Descriptor.resolve?_eq_some_iff unambiguous isNamed _
  have split : record.fields = (before ++ [tag]) ++ payload :: after := by
    rw [fields, List.append_assoc, List.cons_append, List.nil_append]
  obtain ⟨values, held, isMade, isHeld, isRead⟩ := exists_held_of_readAt isRecord split last reads
  refine ⟨discriminated? (Discrimination.detect registry.structs record.fields) entries payload value,
    ⟨values, held, isMade, isHeld, ?_⟩, selects, ?_⟩
  · have isThere : value.isNull = false := by
      cases value <;> first | rfl | cases isObject
    unfold readField at isRead
    rw [Value.get?_parts, present] at isRead
    simp only [Option.map_some, presentField_toPart, isThere, Bool.false_and, Bool.false_eq_true,
      if_false] at isRead
    exact isRead
  · intro text isText names
    obtain ⟨carrier, isThere, isText⟩ := Option.map_eq_some_iff.mp isText
    rw [selects, isThere, Option.getD_some]
    cases names with
    | inl isDisplay =>
        refine ⟨text, by rw [isText]; rfl, .inl ?_⟩
        rw [isDisplay]
        exact Descriptor.display_mem_namings enumerates isMember alike
    | inr unpadded =>
        obtain ⟨trimmed, lower, own⟩ := unpadded
        have plain : carrier.isObject = false ∧ carrier.isNull = false := by
          cases carrier <;> first | exact ⟨rfl, rfl⟩ | cases isText
        have coerced := coerceEnum_of_readField enumerates stores isThere plain.1 plain.2
        exact Descriptor.names_of_coerceEnum enumerates isMember alike lower coerced isText trimmed
          own

/-! ### Calls of tools -/

/-- Tools for searching, by the texts that call them. -/
def tools : EnumClass :=
  ⟨⟨0, "Tool", none⟩, [("SEARCHWEB", .str "web"), ("SEARCHDOCS", .str "docs")]⟩

/-- The payloads of the tools: a query, and for documents a limit as well. -/
def searches : Registry := { Registry.empty with structs :=
  [⟨"SearchWeb", none, [⟨"query", .scalar .string, true, none, none⟩], none⟩,
    ⟨"SearchDocs", none, [⟨"query", .scalar .string, true, none, none⟩,
      ⟨"limit", .scalar .int, false, none, some (.int 10)⟩], none⟩] }

def toolField : Field := ⟨"tool", .enum (.ofClass tools), true, none, none⟩

def payloadField : Field := ⟨"payload", .union [.struct 0, .struct 1], true, none, none⟩

def toolCall : FixedRecord := ⟨[toolField, payloadField], none, none, none⟩

def searchPayload : Value := .object [(.str "query", .str "lean")]

def callEntries (tag : Value) : Value.Entries := [(.str "tool", tag), (.str "payload", searchPayload)]

theorem toolCall_isDiscriminated :
    IsDiscriminated searches.structs (FixedRecord.view toolCall) toolField payloadField tools
      [.struct 0, .struct 1] where
  neighbours := ⟨[], [], rfl, List.not_mem_nil⟩
  enumerates := rfl
  isUnion := rfl
  unambiguous := by
    have web : toolField.type.namings "SearchWeb" =
        ["SearchWeb", "searchweb", "web", "search_web"] := by decide
    have docs : toolField.type.namings "SearchDocs" =
        ["SearchDocs", "searchdocs", "docs", "search_docs"] := by decide
    have records : Descriptor.namedRecords searches.structs [.struct 0, .struct 1] =
        [("SearchWeb", .struct 0), ("SearchDocs", .struct 1)] := rfl
    simp [Descriptor.Unambiguous, records, web, docs]

/-- What the tool of a call is stored as. -/
def storedTool (tag : Value) : Outcome Value :=
  readField searches.structs toolCall.fields (callEntries tag)
    ((Value.object (callEntries tag)).parts (Read.read searches)) toolField [Path.key "tool"]

/-- A call that is read, with the tool and the payload that are stored. -/
def readCall (tool : String × Value) (payload : Value) : Value :=
  .object [(.str "tool", tools.toValue tool), (.str "payload", payload)]

/-- The payload as that of a search of documents, which has a limit. -/
def documentSearch : Value := .object [(.str "query", .str "lean"), (.str "limit", .int 10)]

/-- A call by the text of a tool is read with a payload of the tool. -/
theorem docs_payload_read :
    (read searches (.object (callEntries (.str "docs"))) (.fixed toolCall) =
        .ok (readCall ("SEARCHDOCS", .str "docs") documentSearch) ∧
      storedTool (.str "docs") = .ok (tools.toValue ("SEARCHDOCS", .str "docs"))) ∧
    HoldsReading searches (FixedRecord.view toolCall)
      (readCall ("SEARCHDOCS", .str "docs") documentSearch) [] payloadField searchPayload
      (.struct 1) := by
  have reads : read searches (.object (callEntries (.str "docs"))) (.fixed toolCall) =
      .ok (readCall ("SEARCHDOCS", .str "docs") documentSearch) := rfl
  have stores : storedTool (.str "docs") = .ok (tools.toValue ("SEARCHDOCS", .str "docs")) := rfl
  have isMember : ("SEARCHDOCS", .str "docs") ∈ tools.members := by
    have members : tools.members = [("SEARCHWEB", .str "web"), ("SEARCHDOCS", .str "docs")] := rfl
    rw [members]
    exact List.mem_cons_of_mem _ List.mem_cons_self
  have isNamed : ("SearchDocs", .struct 1) ∈
      Descriptor.namedRecords searches.structs [.struct 0, .struct 1] :=
    List.mem_cons_of_mem _ List.mem_cons_self
  obtain ⟨choice, holds, -, selects⟩ := payload_read_as_stored_iff rfl toolCall_isDiscriminated rfl
    rfl rfl reads isMember stores isNamed (by decide)
  rw [selects "docs" rfl (.inl rfl)] at holds
  exact ⟨⟨reads, stores⟩, holds⟩

/-- A call by the text of a tool with blanks around it is stored with this tool, but read with a payload
of the other one, whose fields it has. -/
theorem padded_docs_payload_misread :
    read searches (.object (callEntries (.str " docs "))) (.fixed toolCall) =
        .ok (readCall ("SEARCHDOCS", .str "docs") searchPayload) ∧
      storedTool (.str " docs ") = .ok (tools.toValue ("SEARCHDOCS", .str "docs")) ∧
      folded "SEARCHDOCS" = folded "SearchDocs" ∧
      readAt searches searchPayload (.struct 0) [Path.key "payload"] = .ok searchPayload ∧
      readAt searches searchPayload (.struct 1) [Path.key "payload"] = .ok documentSearch ∧
      searchPayload ≠ documentSearch := by
  refine ⟨rfl, rfl, by decide, rfl, rfl, ?_⟩
  intro same
  cases same

end TypedReply
