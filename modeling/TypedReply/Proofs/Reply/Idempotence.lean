import TypedReply.Proofs.Reply.Containment
import TypedReply.Proofs.Reply.Results
import TypedReply.Proofs.Reference.Library
import Mathlib.Data.List.Find

/-!
# Reading what was read

What is read of a parsed reply is read again as it is: scalars have their kind, choices are among the
choices, instances belong to their class, and lists and maps hold what is read again as it is. A union
may lead what was read to another member than the reply, but only to one that has its shape and takes
it as it is. So it matters that no choice that a union offers has the shape of a list or an object.
-/

namespace TypedReply

open Read Descriptor

/-- What parsing a text of JSON gives: numbers are of any size, and not-a-number and infinity are
among them. -/
inductive Value.IsParsed : Value → Prop where
  | null : IsParsed .null
  | bool (b : Bool) : IsParsed (.bool b)
  | int (n : Int) : IsParsed (.int n)
  | float (x : Double) : IsParsed (.float x)
  | str (text : String) : IsParsed (.str text)
  | list {items : List Value} (each : ∀ item ∈ items, IsParsed item) : IsParsed (.list items)
  | object {fields : Fields} (distinct : (fields.map Prod.fst).Nodup)
      (each : ∀ field ∈ fields, IsParsed field.2) : IsParsed (ofFields fields)

namespace Descriptor

/-- Records have a class, keys are texts, and unions hold no unions, be they optional or not. -/
structure IsBound (store : Store) (descriptor : Descriptor) : Prop where
  isDescriptor : ∀ value, descriptor ≠ .stray value
  classes : ∀ record, descriptor.record? store = some record → record.cls.isSome = true
  keys : ∀ key element, descriptor = .map key element → key = .scalar .string
  flat : ∀ members, descriptor = .union members → ∀ member ∈ members, ∀ others,
    member.core ≠ .union others

/-- What a descriptor may be for what is read against it to be read again as it is: choices equal
themselves or are not-a-number, and those that a union offers are no lists, tuples or objects. -/
structure IsRepeatable (store : Store) (descriptor : Descriptor) : Prop
    extends IsBound store descriptor where
  choices : ∀ values, descriptor = .enum (.choices values) → ∀ choice ∈ values,
    choice.same choice = true ∨ choice = .float .nan
  shapeless : ∀ members, descriptor = .union members → ∀ member ∈ members, ∀ values,
    member.core = .enum (.choices values) → ∀ choice ∈ values,
      choice.items? = none ∧ choice.isObject = false

/-- What holds throughout a descriptor holds throughout its core. -/
theorem Throughout.core {store : Store} {condition : Descriptor → Prop} {descriptor : Descriptor}
    (throughout : Throughout store condition descriptor) :
    Throughout store condition descriptor.core := by
  induction descriptor using Descriptor.induction with
  | optional inner ih => exact ih (throughout.of_part (.inner inner))
  | _ => exact throughout

end Descriptor

variable {registry : Registry} {raw value : Value} {descriptor : Descriptor} {path : Path}

/-! ## Scalars and choices -/

theorem coerceScalar_of_matches {kind : ScalarKind} (typed : matchesScalar kind value = true) :
    coerceScalar kind value path = .ok value := if_pos typed

theorem coerceEnum_of_has {type : EnumType} (has : type.has value = true) :
    coerceEnum type value path = .ok value := if_pos has

/-- What is read as a choice is one as it is, or is the choice that its tag names. -/
theorem coerceEnum_cases {type : EnumType} (coerced : coerceEnum type raw path = .ok value) :
    type.has raw = true ∧ value = raw ∨ ∃ text, EnumType.tagText? (memberValue raw) = some text ∧
      type.choose? (String.ofList (Text.trim text.toList)) = some value := by
  unfold coerceEnum at coerced
  split at coerced
  next has => exact .inl ⟨has, (Except.ok.inj coerced).symm⟩
  dsimp only at coerced
  split at coerced
  · cases coerced
  next text isText =>
    split at coerced
    next chosen =>
      cases coerced
      exact .inr ⟨text, isText, chosen⟩
    · cases coerced

theorem sameType_self (value : Value) : value.sameType value = true := by
  cases value <;> simp [Value.sameType]

namespace EnumType

theorem has_of_choose? {type : EnumType} {tag : String} (chosen : type.choose? tag = some value)
    (regular : ∀ values, type = .choices values → ∀ choice ∈ values,
      choice.same choice = true ∨ choice = .float .nan) :
    type.has value = true ∨ value = .float .nan ∧ ∃ values, type = .choices values := by
  obtain ⟨label, names, isNamed⟩ := exists_mem_named_of_choose? chosen
  cases type with
  | choices values =>
      obtain ⟨⟨_, choice⟩, isPair, same⟩ := List.mem_map.mp isNamed
      cases same
      have isChoice := (List.of_mem_zip isPair).2
      rcases regular values rfl value isChoice with isSame | isNan
      · exact .inl (List.any_eq_true.mpr ⟨value, isChoice, by simp [sameType_self, isSame]⟩)
      · exact .inr ⟨isNan, values, rfl⟩
  | ofClass cls =>
      obtain ⟨entry, -, same⟩ := List.mem_map.mp isNamed
      cases same
      exact .inl (by simp [has, EnumClass.has, EnumClass.toValue])

def nanTag : String := "nan"

theorem names_of_mem_named {values : List Value} {entry : String × List String × Value}
    (isNamed : entry ∈ (EnumType.choices values).named) : entry.2.1 = [entry.1] := by
  obtain ⟨pair, -, rfl⟩ := List.mem_map.mp isNamed
  rfl

theorem any_of_mem_named {type : EnumType} {entry : String × List String × Value}
    (isNamed : entry ∈ type.named) : entry.2.1.any (folded · == folded entry.1) = true := by
  cases type with
  | choices values => simp [names_of_mem_named isNamed]
  | ofClass cls =>
      obtain ⟨member, -, rfl⟩ := List.mem_map.mp isNamed
      simp

/-- Choices that are not all texts are named by their texts. -/
theorem named_of_not_allTexts {values : List Value} (notTexts : allTexts values = false) :
    (EnumType.choices values).named =
      values.map fun choice => (choice.display, [choice.display], choice) := by
  have labels : (EnumType.choices values).labels = values.map Value.display := by
    simp [EnumType.labels, EnumType.values, notTexts, Value.text?, Function.comp_def]
  rw [named, labels, List.zip_map_left, List.zip, List.zipWith_self, List.map_map, List.map_map]
  rfl

theorem label_of_nan {values : List Value} {label : String} {names : List String}
    (isNamed : (label, names, .float .nan) ∈ (EnumType.choices values).named) :
    label = nanTag ∧ names = [nanTag] := by
  cases allText : allTexts values with
  | true =>
      obtain ⟨⟨text, choice⟩, isPair, same⟩ := List.mem_map.mp isNamed
      cases same
      have isText := List.all_eq_true.mp allText _ (List.of_mem_zip isPair).2
      cases isText
  | false =>
      rw [named_of_not_allTexts allText] at isNamed
      obtain ⟨choice, -, same⟩ := List.mem_map.mp isNamed
      cases same
      exact ⟨rfl, rfl⟩

theorem trim_nanTag : String.ofList (Text.trim nanTag.toList) = nanTag := by decide

theorem choose?_nanTag {values : List Value} {tag : String}
    (chosen : (EnumType.choices values).choose? tag = some (.float .nan)) :
    folded nanTag = folded tag ∧
      (EnumType.choices values).choose? nanTag = some (.float .nan) := by
  obtain ⟨⟨label, names, choice⟩, found, rfl⟩ := Option.map_eq_some_iff.mp chosen
  simp only [Option.orElse_eq_orElse, Option.orElse_eq_or, Option.or_eq_some_iff] at found
  rcases found with exactly | ⟨-, loosely⟩
  · obtain ⟨rfl, -⟩ := label_of_nan (List.mem_of_find?_eq_some exactly)
    have same : nanTag = tag := by simpa using List.find?_some exactly
    exact ⟨by rw [same], same ▸ chosen⟩
  · obtain ⟨rfl, rfl⟩ := label_of_nan (List.mem_of_find?_eq_some loosely)
    have same : folded nanTag = folded tag := by simpa using List.find?_some loosely
    refine ⟨same, ?_⟩
    -- Whatever is named before is not named by the word, for then it would be named by the tag.
    obtain ⟨-, before, after, isNamed, others⟩ := List.find?_eq_some_iff_append.mp loosely
    have exactly : (EnumType.choices values).named.find? (fun entry => entry.1 == nanTag) =
        some (nanTag, [nanTag], .float .nan) := by
      refine List.find?_eq_some_iff_append.mpr ⟨by simp, before, after, isNamed, ?_⟩
      intro entry isBefore
      have notLoosely := others entry isBefore
      rw [names_of_mem_named (isNamed ▸ List.mem_append_left _ isBefore)] at notLoosely
      simp only [List.any_cons, List.any_nil, Bool.or_false, Bool.not_eq_true', beq_eq_false_iff_ne]
        at notLoosely ⊢
      rintro isWord
      exact notLoosely (isWord ▸ same)
    simp [choose?, exactly]

theorem exists_choose? {type : EnumType} {tag other : String} (chosen : type.choose? tag = some value)
    (same : folded tag = folded other) : ∃ choice, type.choose? other = some choice := by
  have loosely {entry : String × List String × Value} (isNamed : entry ∈ type.named)
      (isName : entry.2.1.any (folded · == folded tag) = true) :
      ∃ choice, type.choose? other = some choice := by
    have found : (type.named.find? fun entry => entry.2.1.any (folded · == folded other)).isSome =
        true := List.find?_isSome.mpr ⟨entry, isNamed, same ▸ isName⟩
    obtain ⟨hit, isHit⟩ := Option.isSome_iff_exists.mp found
    cases exactly : type.named.find? fun entry => entry.1 == other with
    | none => exact ⟨hit.2.2, by simp [choose?, exactly, isHit]⟩
    | some first => exact ⟨first.2.2, by simp [choose?, exactly]⟩
  obtain ⟨entry, found, -⟩ := Option.map_eq_some_iff.mp chosen
  simp only [Option.orElse_eq_orElse, Option.orElse_eq_or, Option.or_eq_some_iff] at found
  rcases found with exactly | ⟨-, found⟩
  · refine loosely (List.mem_of_find?_eq_some exactly) ?_
    have isLabel : entry.1 = tag := by simpa using List.find?_some exactly
    exact isLabel ▸ any_of_mem_named (List.mem_of_find?_eq_some exactly)
  · have isName := List.find?_some found
    exact loosely (List.mem_of_find?_eq_some found) isName

end EnumType

theorem coerceEnum_of_coerced {type : EnumType} (coerced : coerceEnum type raw path = .ok value)
    (regular : ∀ values, type = .choices values → ∀ choice ∈ values,
      choice.same choice = true ∨ choice = .float .nan) (other : Path) :
    coerceEnum type value other = .ok value := by
  rcases coerceEnum_cases coerced with ⟨has, rfl⟩ | ⟨text, -, chosen⟩
  · exact coerceEnum_of_has has
  · rcases EnumType.has_of_choose? chosen regular with has | ⟨rfl, values, rfl⟩
    · exact coerceEnum_of_has has
    · have isTag : EnumType.tagText? (memberValue (.float .nan)) = some EnumType.nanTag := rfl
      simp only [coerceEnum, isTag, EnumType.trim_nanTag, (EnumType.choose?_nanTag chosen).2]
      split <;> rfl

/-! ## Records -/

theorem isInstance_of_read (makesInstances : registry.library.MakesInstances) {record : RecordView}
    {key : ClassKey}
    (isRecord : descriptor.record? registry.structs = some record) (hasClass : record.cls = some key)
    (isRead : read registry raw descriptor = .ok value) : value.isInstance key = true := by
  have inhabits := inhabits_of_read makesInstances isRead
  have other {found : RecordView} (isFound : descriptor.record? registry.structs = some found) :
      found = record := Option.some.inj (isFound.symm.trans isRecord)
  cases inhabits with
  | «instance» isFound isKey isInstance =>
      obtain rfl := other isFound
      cases isKey.symm.trans hasClass
      exact isInstance
  | object isFound classless =>
      obtain rfl := other isFound
      cases classless.symm.trans hasClass
  | _ => cases isRecord

theorem readAt_of_isInstance {record : RecordView} {key : ClassKey}
    (isRecord : descriptor.record? registry.structs = some record) (hasClass : record.cls = some key)
    (isInstance : value.isInstance key = true) : readAt registry value descriptor path = .ok value := by
  rw [readAt_eq, read_eq_readRecord isRecord, readRecord]
  exact if_pos (by rw [isInstanceOf, hasClass]; exact isInstance)

theorem readAt_of_read_record (makesInstances : registry.library.MakesInstances) {record : RecordView}
    (isRecord : descriptor.record? registry.structs = some record)
    (hasClass : record.cls.isSome = true) (isRead : read registry raw descriptor = .ok value) :
    readAt registry value descriptor path = .ok value := by
  obtain ⟨key, isKey⟩ := Option.isSome_iff_exists.mp hasClass
  exact readAt_of_isInstance isRecord isKey (isInstance_of_read makesInstances isRecord isKey isRead)

/-! ## Lists, maps and optionals -/

theorem read_again_array {element : Descriptor} (isRead : read registry raw (.array element) = .ok value)
    (again : ∀ items, raw.items? = some items → ∀ item ∈ items, ∀ result,
      read registry item element = .ok result → read registry result element = .ok result) :
    (∃ results, value = .list results) ∧ read registry value (.array element) = .ok value := by
  obtain ⟨items, results, isList, rfl, each⟩ := read_array_eq_ok_iff.mp isRead
  refine ⟨⟨results, rfl⟩, read_array_eq_ok_iff.mpr ⟨results, results, rfl, rfl, ?_⟩⟩
  refine List.forall₂_same.mpr fun result isResult => ?_
  obtain ⟨item, isItem, isOwn⟩ := exists_left_of_mem each isResult
  exact again items isList item isItem result isOwn

/-- Named values are read one by one, and stand under the names that were read. -/
theorem exists_fields_of_read_map {element : Descriptor} {fields : Fields}
    (distinct : (fields.map Prod.fst).Nodup)
    (isRead : read registry (.ofFields fields) (.map (.scalar .string) element) = .ok value) :
    ∃ results : Fields, value = .ofFields results ∧ results.map Prod.fst = fields.map Prod.fst ∧
      List.Forall₂ (fun field result => read registry field.2 element = .ok result.2)
        fields results := by
  rw [read, readAt_map, map_eq_ok_iff] at isRead
  obtain ⟨_, areRead, rfl⟩ := isRead
  obtain ⟨results, rfl, each⟩ := exists_named_of_mapM areRead
  have names : results.map Prod.fst = fields.map Prod.fst :=
    (map_eq_of_aligned each fun _ _ _ isResult => isResult.1.symm).symm
  refine ⟨results, ?_, names, each.imp fun _ _ isResult => readAt_eq_ok_iff.mp isResult.2⟩
  rw [ofPairs_entriesOf (names ▸ distinct)]
  rfl

/-- Values under names that are read again as they are are read again as they are. -/
theorem read_again_map {element : Descriptor} {fields : Fields}
    (distinct : (fields.map Prod.fst).Nodup)
    (isRead : read registry (.ofFields fields) (.map (.scalar .string) element) = .ok value)
    (again : ∀ field ∈ fields, ∀ result, read registry field.2 element = .ok result →
      read registry result element = .ok result) :
    read registry value (.map (.scalar .string) element) = .ok value := by
  obtain ⟨results, rfl, names, each⟩ := exists_fields_of_read_map distinct isRead
  have settled : List.Forall₂ (fun field result => field.1 = result.1 ∧
      ReadsAs registry element field.2 result.2) results results := by
    refine List.forall₂_same.mpr fun result isResult => ⟨rfl, fun path => ?_⟩
    obtain ⟨field, isField, isOwn⟩ := exists_left_of_mem each isResult
    exact readAt_eq_ok_iff.mpr (again field isField result.2 isOwn)
  have reads := ReadsAs.map settled []
  rwa [ofPairs_entriesOf (names ▸ distinct)] at reads

theorem read_optional_cases {inner : Descriptor}
    (isRead : read registry raw (.optional inner) = .ok value) :
    raw = .null ∧ value = .null ∨ read registry raw inner = .ok value := by
  rw [read, readAt_eq, Read.read] at isRead
  split at isRead
  next isNull =>
    cases isRead
    exact .inl ⟨Value.isNull_iff.mp isNull, rfl⟩
  split at isRead
  next tag name record selected =>
    have isRecord := (record?_of_tagged? selected).1
    rcases readTagged_cases registry raw (raw.parts (Read.read registry)) tag [(name, record)] [] with
      ⟨_, _, isOnly, same⟩ | ⟨error, refused⟩
    · cases List.mem_singleton.mp isOnly
      rw [same] at isRead
      exact .inr (by rwa [read, readAt_eq, read_eq_readRecord isRecord])
    · cases refused.symm.trans isRead
  next => exact .inr (by rwa [read, readAt_eq])

/-- What is read again as it is against the inside of an optional is so against the optional, if a
record inside does not give an object. -/
theorem read_again_optional {inner : Descriptor} (again : read registry value inner = .ok value)
    (notObject : ∀ record, inner.record? registry.structs = some record → value.isObject = false) :
    read registry value (.optional inner) = .ok value := by
  cases isNull : value.isNull with
  | true =>
      obtain rfl := Value.isNull_iff.mp isNull
      rfl
  | false =>
      rw [read, readAt_optional_of_admitted isNull]
      · exact again
      · intro name tag named isTag
        obtain ⟨record, isRecord, -⟩ := Option.bind_eq_some_iff.mp named
        have notObject := notObject record isRecord
        cases value <;> first | cases isTag | cases notObject

/-! ## Unions -/

/-- What keeps or refuses a value may be tried before what keeps it. -/
theorem firstAccepted_append_kept {before after : List Candidate}
    (earlier : ∀ other ∈ before, other.read path = .ok value ∨
      ∃ error, other.read path = .error (.reply error))
    (keeps : firstAccepted value path after = .ok value) :
    firstAccepted value path (before ++ after) = .ok value := by
  induction before with
  | nil => exact keeps
  | cons first before ih =>
      obtain ⟨isFirst, others⟩ := List.forall_mem_cons.mp earlier
      rw [List.cons_append, firstAccepted]
      rcases isFirst with keepsFirst | ⟨error, refused⟩
      · rw [keepsFirst]
      · rw [refused]
        exact ih others

/-- Trying ends at a candidate that those before it refuse, or keeps the value. -/
theorem firstAccepted_split {candidates : List Candidate}
    (accepted : firstAccepted raw path candidates = .ok value) : value = raw ∨
      ∃ before candidate after, candidates = before ++ candidate :: after ∧
        candidate.read path = .ok value ∧
          ∀ other ∈ before, ∃ error, other.read path = .error (.reply error) := by
  induction candidates with
  | nil => exact .inl (Except.ok.inj accepted).symm
  | cons first candidates ih =>
      rw [firstAccepted] at accepted
      split at accepted
      next error refused =>
        rcases ih accepted with same | ⟨before, candidate, after, rfl, isRead, others⟩
        · exact .inl same
        · exact .inr ⟨first :: before, candidate, after, rfl, isRead,
            List.forall_mem_cons.mpr ⟨⟨error, refused⟩, others⟩⟩
      next => exact .inr ⟨[], first, candidates, rfl, accepted, List.forall_mem_nil _⟩

theorem core_ne_optional (descriptor inner : Descriptor) : descriptor.core ≠ .optional inner := by
  induction descriptor using Descriptor.induction with
  | optional _ ih => exact ih
  | _ => exact fun same => nomatch same

theorem exactMatch_of_core (shaped : exactMatch raw descriptor.core = true) :
    exactMatch raw descriptor = true := by
  induction descriptor using Descriptor.induction with
  | optional inner ih => rw [exactMatch, ih shaped, Bool.or_true]
  | _ => exact shaped

section Core

variable (isDescriptor : ∀ other, descriptor.core ≠ .stray other)
  (notUnion : ∀ members, descriptor.core ≠ .union members)
include isDescriptor notUnion

/-- An instance is kept or refused by every descriptor whose core is no union. -/
theorem readAt_record_kept (tag : RecordTag) (fields : List (FieldTag × Value)) :
    readAt registry (.record tag fields) descriptor path = .ok (.record tag fields) ∨
      ∃ error, readAt registry (.record tag fields) descriptor path = .error (.reply error) := by
  have notOptional := core_ne_optional descriptor
  rw [readAt_core rfl rfl, readAt_eq]
  generalize descriptor.core = core at *
  cases core with
  | scalar kind => cases kind <;> exact .inr ⟨_, rfl⟩
  | enum type =>
      rw [Read.read, coerceEnum]
      split
      · exact .inl rfl
      · exact .inr ⟨_, rfl⟩
  | array element => exact .inr ⟨_, rfl⟩
  | map key element => exact .inr ⟨_, rfl⟩
  | optional inner => exact absurd rfl (notOptional inner)
  | union members => exact absurd rfl (notUnion members)
  | null => exact .inr ⟨_, rfl⟩
  | fixed record =>
      rw [Read.read, readRecord]
      split
      · exact .inl rfl
      · exact .inr ⟨_, rfl⟩
  | struct id =>
      rw [Read.read, readRecord]
      split
      · exact .inl rfl
      · exact .inr ⟨_, rfl⟩
  | stray other => exact absurd rfl (isDescriptor other)

/-- Not-a-number is kept or refused by every descriptor whose core is no union, if it refuses a value
whose tag names not-a-number. -/
theorem readAt_nan_kept (parsed : raw.IsParsed) {text : String}
    (isTag : EnumType.tagText? (memberValue raw) = some text)
    (isNan : folded EnumType.nanTag = folded (String.ofList (Text.trim text.toList)))
    (refused : ∃ error, readAt registry raw descriptor path = .error (.reply error)) :
    readAt registry (.float .nan) descriptor path = .ok (.float .nan) ∨
      ∃ error, readAt registry (.float .nan) descriptor path = .error (.reply error) := by
  have notOptional := core_ne_optional descriptor
  have present : raw.isNull = false := by cases parsed <;> first | rfl | cases isTag
  have plain : raw.isObject = false := by cases parsed <;> first | rfl | cases isTag
  rw [readAt_core present plain, readAt_eq] at refused
  rw [readAt_core rfl rfl, readAt_eq]
  generalize descriptor.core = core at *
  cases core with
  | scalar kind =>
      cases kind with
      | string =>
          obtain ⟨error, refused⟩ := refused
          rw [Read.read] at refused
          cases parsed <;> first | cases isTag; done | cases refused
      | float => exact .inl rfl
      | _ => exact .inr ⟨_, rfl⟩
  | enum type =>
      rw [Read.read, coerceEnum]
      split
      · exact .inl rfl
      · have isWord : EnumType.tagText? (memberValue (.float .nan)) = some EnumType.nanTag := rfl
        simp only [isWord, EnumType.trim_nanTag]
        cases chosen : type.choose? EnumType.nanTag with
        | none => exact .inr ⟨_, rfl⟩
        | some choice =>
            obtain ⟨other, isOther⟩ := EnumType.exists_choose? chosen isNan
            obtain ⟨error, refused⟩ := refused
            rw [Read.read, coerceEnum] at refused
            split at refused
            · cases refused
            · simp only [isTag, isOther] at refused
              cases refused
  | array element => exact .inr ⟨_, rfl⟩
  | map key element => exact .inr ⟨_, rfl⟩
  | optional inner => exact absurd rfl (notOptional inner)
  | union members => exact absurd rfl (notUnion members)
  | null => exact .inr ⟨_, rfl⟩
  | fixed record =>
      rw [Read.read, readRecord]
      split
      · exact .inl rfl
      · exact .inr ⟨_, rfl⟩
  | struct id =>
      rw [Read.read, readRecord]
      split
      · exact .inl rfl
      · exact .inr ⟨_, rfl⟩
  | stray other => exact absurd rfl (isDescriptor other)

end Core

theorem not_list_of_matchesScalar {kind : ScalarKind} (typed : matchesScalar kind value = true) :
    value.items? = none ∧ value.isObject = false := by
  cases value <;> first | exact ⟨rfl, rfl⟩ | (cases kind <;> cases typed)

theorem not_list_of_choose? {type : EnumType} {tag : String} (chosen : type.choose? tag = some value)
    (shapeless : ∀ values, type = .choices values → ∀ choice ∈ values,
      choice.items? = none ∧ choice.isObject = false) :
    value.items? = none ∧ value.isObject = false := by
  obtain ⟨label, names, isNamed⟩ := EnumType.exists_mem_named_of_choose? chosen
  cases type with
  | choices values =>
      obtain ⟨pair, isPair, same⟩ := List.mem_map.mp isNamed
      cases same
      exact shapeless values rfl _ (List.of_mem_zip isPair).2
  | ofClass cls =>
      obtain ⟨entry, -, same⟩ := List.mem_map.mp isNamed
      cases same
      exact ⟨rfl, rfl⟩

theorem exactMatch_list (items others : List Value)
    (shapeless : ∀ values, descriptor.core = .enum (.choices values) → ∀ choice ∈ values,
      choice.items? = none) :
    exactMatch (.list items) descriptor = exactMatch (.list others) descriptor := by
  have notOptional := core_ne_optional descriptor
  rw [exactMatch_core rfl, @exactMatch_core (.list others) descriptor rfl]
  generalize descriptor.core = core at shapeless notOptional
  have noChoice {values : List Value} (none : ∀ choice ∈ values, choice.items? = none)
      (held : List Value) : (EnumType.choices values).has (.list held) = false := by
    rw [EnumType.has, List.any_eq_false]
    intro choice isChoice
    have notList := none choice isChoice
    cases choice <;> first | (cases notList; done) | simp [Value.sameType]
  cases core with
  | scalar kind => cases kind <;> rfl
  | enum type =>
      cases type with
      | choices values =>
          rw [exactMatch, exactMatch, noChoice (shapeless values rfl), noChoice (shapeless values rfl)]
      | ofClass cls => rfl
  | optional inner => exact absurd rfl (notOptional inner)
  | _ => rfl

section Members

variable {members : List Descriptor}

/-- What the members of a union may be for what is read against it to be read again as it is. -/
structure AreRepeatable (members : List Descriptor) : Prop where
  isDescriptor : ∀ member ∈ members, ∀ other, member.core ≠ .stray other
  notUnion : ∀ member ∈ members, ∀ others, member.core ≠ .union others
  choices : ∀ member ∈ members, ∀ values, member.core = .enum (.choices values) →
    ∀ choice ∈ values, (choice.same choice = true ∨ choice = .float .nan) ∧
      choice.items? = none ∧ choice.isObject = false

theorem areRepeatable (repeatable : (Descriptor.union members).Throughout registry.structs
    (IsRepeatable registry.structs)) : AreRepeatable members where
  isDescriptor _ isMember := (repeatable.of_part (.member isMember)).core.here.isDescriptor
  notUnion := repeatable.here.flat members rfl
  choices member isMember values isEnum choice isChoice :=
    ⟨(repeatable.of_part (.member isMember)).core.here.choices values isEnum choice isChoice,
      repeatable.here.shapeless members rfl member isMember values isEnum choice isChoice⟩

/-- A value that is no list and no object is read as it is, if each member that may be tried before it
is kept keeps or refuses it. -/
theorem read_union_of_kept (plain : value.isObject = false) (notList : value.items? = none)
    (kept : (nonNull members).find? (exactMatch value) = none →
      firstAccepted value [] (((nonNull members).filter isTried).map fun member =>
        ⟨member, readAt registry value member⟩) = .ok value) :
    read registry value (.union members) = .ok value := by
  rw [read]
  cases present : value.isNull && nilable members with
  | true =>
      obtain ⟨isNull, isNilable⟩ := (Bool.and_eq_true _ _).mp present
      obtain rfl := Value.isNull_iff.mp isNull
      exact readAt_union_null isNilable []
  | false =>
      rw [readAt_union_plain plain present]
      cases found : (nonNull members).find? (exactMatch value) with
      | none => exact kept found
      | some member =>
          rcases readAt_of_exactMatch (List.find?_some found) [] with
            isKept | ⟨_, _, -, isList⟩
          · exact isKept
          · cases notList.symm.trans isList

theorem read_union_of_instance (repeatable : AreRepeatable members) {key : ClassKey}
    (isInstance : value.isInstance key = true) : read registry value (.union members) = .ok value := by
  cases value with
  | record tag fields =>
      refine read_union_of_kept rfl rfl fun _ => ?_
      rw [← List.append_nil (List.map _ _)]
      refine firstAccepted_append_kept (fun candidate isCandidate => ?_) rfl
      obtain ⟨member, isMember, rfl⟩ := List.mem_map.mp isCandidate
      have isMember := List.mem_of_mem_filter (List.mem_of_mem_filter isMember)
      exact readAt_record_kept (repeatable.isDescriptor member isMember)
        (repeatable.notUnion member isMember) tag fields
  | _ => cases isInstance

/-- A value without the shape of a descriptor is read against it as against its core, whose shape it
does not have either. -/
theorem read_core_of_inexact (plain : raw.isObject = false)
    (inexact : exactMatch raw descriptor = false) :
    exactMatch raw descriptor.core = false ∧
      read registry raw descriptor = read registry raw descriptor.core := by
  cases isNull : raw.isNull with
  | true =>
      cases descriptor with
      | optional inner => simp [exactMatch, isNull] at inexact
      | _ => exact ⟨inexact, rfl⟩
  | false =>
      rw [exactMatch_core isNull] at inexact
      exact ⟨inexact, readAt_core isNull plain []⟩

theorem not_read_of_record {record : RecordView}
    (isRecord : descriptor.record? registry.structs = some record) (parsed : raw.IsParsed)
    (plain : raw.isObject = false) : read registry raw descriptor ≠ .ok value := by
  have notInstance : isInstanceOf record raw = false := by
    unfold isInstanceOf
    split
    · cases parsed <;> rfl
    · rfl
  have noEntries : raw.entries? = none :=
    Option.not_isSome_iff_eq_none.mp (by simpa [Value.isObject] using plain)
  rw [read, readAt_eq, read_eq_readRecord isRecord, readRecord, notInstance, noEntries]
  simp [fail]

/-- What a member reads of a value that does not have its shape and is no object has the shape of the
member, or is not-a-number that the tag of the value names. It is neither a list nor an object. -/
theorem shape_of_coerced (repeatable : AreRepeatable members) {member : Descriptor}
    (isMember : member ∈ members) (parsed : raw.IsParsed) (plain : raw.isObject = false)
    (inexact : exactMatch raw member = false) (isRead : read registry raw member = .ok value) :
    (value.items? = none ∧ value.isObject = false) ∧ (exactMatch value member = true ∨
      value = .float .nan ∧ read registry value member = .ok value ∧ ∃ text,
        EnumType.tagText? (memberValue raw) = some text ∧
          folded EnumType.nanTag = folded (String.ofList (Text.trim text.toList))) := by
  obtain ⟨inexact, same⟩ := @read_core_of_inexact registry raw member plain inexact
  rw [same] at isRead
  have shaped (ofCore : exactMatch value member.core = true) : exactMatch value member = true :=
    exactMatch_of_core ofCore
  have choices := repeatable.choices member isMember
  cases core : member.core with
  | scalar kind =>
      rw [core, read, readAt_eq, Read.read] at isRead
      have typed := matchesScalar_of_coerceScalar isRead
      exact ⟨not_list_of_matchesScalar typed, .inl (shaped (core ▸ typed))⟩
  | enum type =>
      rw [core] at isRead inexact choices
      have coerced : coerceEnum type raw [] = .ok value := by rwa [read, readAt_eq, Read.read] at isRead
      rcases coerceEnum_cases coerced with ⟨has, -⟩ | ⟨text, isTag, chosen⟩
      · cases has.symm.trans inexact
      · have regular (values) (isChoices : type = .choices values) (choice)
          (isChoice : choice ∈ values) :=
          choices values (by rw [isChoices]) choice isChoice
        refine ⟨not_list_of_choose? chosen fun values isChoices choice isChoice =>
          (regular values isChoices choice isChoice).2, ?_⟩
        rcases EnumType.has_of_choose? chosen fun values isChoices choice isChoice =>
          (regular values isChoices choice isChoice).1 with has | ⟨rfl, values, rfl⟩
        · exact .inl (shaped (core ▸ has))
        · refine .inr ⟨rfl, ?_, text, isTag, (EnumType.choose?_nanTag chosen).1⟩
          rw [read, readAt_core rfl rfl, core, readAt_eq, Read.read]
          exact coerceEnum_of_coerced coerced (fun values isChoices choice isChoice =>
            (regular values isChoices choice isChoice).1) []
  | array element =>
      rw [core] at isRead inexact
      obtain ⟨items, results, isList, -⟩ := read_array_eq_ok_iff.mp isRead
      rw [exactMatch, isList] at inexact
      cases inexact
  | map key element =>
      rw [core, read, readAt_eq, Read.read, plain] at isRead
      cases isRead
  | optional inner => exact absurd core (core_ne_optional member inner)
  | union others => exact absurd core (repeatable.notUnion member isMember others)
  | null =>
      rw [core, exactMatch] at inexact
      rw [core, read, readAt_eq, Read.read, inexact] at isRead
      cases isRead
  | fixed record => exact absurd isRead (core ▸ not_read_of_record rfl parsed plain)
  | struct id => exact absurd isRead (core ▸ not_read_of_record rfl parsed plain)
  | stray other => exact absurd core (repeatable.isDescriptor member isMember other)

/-- What a member that is tried reads of a value is read again as it is against the union. -/
theorem read_again_union_tried (repeatable : AreRepeatable members) (parsed : raw.IsParsed)
    (plain : raw.isObject = false) (inexact : ∀ member ∈ nonNull members, exactMatch raw member = false)
    {before after : List Descriptor} {member : Descriptor}
    (split : (nonNull members).filter isTried = before ++ member :: after)
    (isRead : read registry raw member = .ok value)
    (refused : ∀ other ∈ before, ∃ error, readAt registry raw other [] = .error (.reply error)) :
    read registry value (.union members) = .ok value := by
  have isTriedMember {other : Descriptor} (isOther : other ∈ (nonNull members).filter isTried) :
      other ∈ nonNull members ∧ other ∈ members :=
    ⟨List.mem_of_mem_filter isOther, List.mem_of_mem_filter (List.mem_of_mem_filter isOther)⟩
  have isMember := isTriedMember (split ▸ List.mem_append_right before List.mem_cons_self)
  obtain ⟨⟨notList, notObject⟩, shape⟩ := shape_of_coerced repeatable isMember.2 parsed plain
    (inexact member isMember.1) isRead
  refine read_union_of_kept notObject notList fun shapeless => ?_
  rcases shape with shaped | ⟨rfl, again, text, isTag, isNan⟩
  · exact absurd shaped (List.find?_eq_none.mp shapeless member isMember.1)
  · rw [split, List.map_append, List.map_cons]
    refine firstAccepted_append_kept (fun candidate isCandidate => ?_) ?_
    · obtain ⟨other, isOther, rfl⟩ := List.mem_map.mp isCandidate
      have isOtherMember := isTriedMember (split ▸ List.mem_append_left _ isOther)
      exact readAt_nan_kept (repeatable.isDescriptor other isOtherMember.2)
        (repeatable.notUnion other isOtherMember.2) parsed isTag isNan (refused other isOther)
    · have keeps : readAt registry (.float .nan) member [] = .ok (.float .nan) := again
      simp only [firstAccepted, keeps]

/-- What is read of a value that is no object is read again as it is against a union, if this is so of
the members. -/
theorem read_again_union_plain (repeatable : AreRepeatable members) (parsed : raw.IsParsed)
    (plain : raw.isObject = false)
    (again : ∀ member ∈ members, ∀ result, read registry raw member = .ok result →
      read registry result member = .ok result)
    (isRead : read registry raw (.union members) = .ok value) :
    read registry value (.union members) = .ok value := by
  cases present : raw.isNull && nilable members with
  | true =>
      obtain ⟨isNull, isNilable⟩ := (Bool.and_eq_true _ _).mp present
      obtain rfl := Value.isNull_iff.mp isNull
      obtain rfl := eq_null_of_read isRead
      exact isRead
  | false =>
      have same := @readAt_union_plain registry members raw plain present []
      rw [← read, isRead] at same
      cases found : (nonNull members).find? (exactMatch raw) with
      | some member =>
          rw [found] at same
          have isOwn : read registry raw member = .ok value := same.symm
          have isMember := List.mem_of_mem_filter (List.mem_of_find?_eq_some found)
          have shaped : exactMatch raw member = true := List.find?_some found
          rcases @readAt_of_exactMatch registry raw member shaped [] with
            isKept | ⟨element, items, isCore, isList⟩
          · obtain rfl := Except.ok.inj (isOwn.symm.trans isKept)
            exact isRead
          · -- A list is read as a list, which has the shape of the same members.
            have isRaw : raw = .list items := by
              cases parsed <;> cases isList
              rfl
            subst isRaw
            have isCoreRead : read registry (.list items) (.array element) = .ok value := by
              rwa [read, ← isCore, ← readAt_core rfl rfl]
            obtain ⟨_, results, -, rfl, -⟩ := read_array_eq_ok_iff.mp isCoreRead
            have sameShape : (nonNull members).find? (exactMatch (.list results)) = some member := by
              rw [← found]
              refine List.find?_congr fun other isOther => ?_
              exact exactMatch_list _ _ fun values isEnum choice isChoice => (repeatable.choices other
                (List.mem_of_mem_filter isOther) values isEnum choice isChoice).2.1
            rw [read, readAt_union_plain rfl rfl, sameShape]
            exact again member isMember _ isOwn
      | none =>
          rw [found] at same
          rcases firstAccepted_split same.symm with rfl | ⟨before, candidate, after, isSplit,
            isOwn, refused⟩
          · exact isRead
          · obtain ⟨first, rest, isTriedSplit, rfl, isRest⟩ := List.map_eq_append_iff.mp isSplit
            obtain ⟨member, last, rfl, rfl, -⟩ := List.map_eq_cons_iff.mp isRest
            refine read_again_union_tried repeatable parsed plain (fun other isOther => ?_) isTriedSplit
              isOwn fun other isOther => refused _ (List.mem_map_of_mem isOther)
            simpa using List.find?_eq_none.mp found other isOther

end Members

/-! ### Objects -/

section Objects

variable {members : List Descriptor} {fields others : Fields}
  (names : others.map Prod.fst = fields.map Prod.fst)
include names

theorem isSome_get?_congr (name : String) :
    (Value.Entries.get? (Value.entriesOf others) name).isSome =
      (Value.Entries.get? (Value.entriesOf fields) name).isSome := by
  rw [Value.get?_entriesOf, Value.get?_entriesOf, Bool.eq_iff_iff, Option.isSome_iff_ne_none,
    Option.isSome_iff_ne_none, ne_eq, ne_eq, Fields.get?_eq_none_iff, Fields.get?_eq_none_iff, names]

theorem decidingTag?_congr {store : Store}
    (undecided : decidingTag? store members (Value.entriesOf fields) = none) :
    decidingTag? store members (Value.entriesOf others) = none := by
  unfold decidingTag? at undecided ⊢
  split
  · rfl
  next named =>
    rw [if_neg named] at undecided
    have none := isSome_get?_congr names typeKey
    rw [undecided] at none
    exact Option.not_isSome_iff_eq_none.mp (by simp [none])

theorem untaggedMember?_congr (store : Store) :
    untaggedMember? store members (Value.entriesOf others) =
      untaggedMember? store members (Value.entriesOf fields) := by
  have sameRequired : hasRequired (Value.entriesOf others) = hasRequired (Value.entriesOf fields) := by
    funext record
    exact List.all_congr rfl fun name => isSome_get?_congr names name
  have sameComplete : isComplete store (Value.entriesOf others) =
      isComplete store (Value.entriesOf fields) := by
    funext member
    rw [isComplete, isComplete, sameRequired]
  rw [untaggedMember?, untaggedMember?, sameComplete]

end Objects

/-- Where no tag decides, an object is read against a record or a map among the members. -/
theorem cases_of_untaggedMember? {store : Store} {members : List Descriptor}
    {entries : Value.Entries} {member : Descriptor}
    (isMember : untaggedMember? store members entries = some member) :
    (member.IsMemberOf members ∧ ∃ record, member.record? store = some record) ∨
      member ∈ members ∧ isMap member = true := by
  rcases Option.or_eq_some_iff.mp isMember with isComplete | ⟨-, isMap⟩
  · obtain ⟨complete, found, rfl⟩ := Option.map_eq_some_iff.mp isComplete
    have fits : Descriptor.isComplete store entries complete = true := List.find?_some found
    obtain ⟨record, isRecord, -⟩ := (Option.any_eq_true _ _).mp fits
    exact .inl ⟨⟨complete, List.mem_of_find?_eq_some found, rfl⟩, record, isRecord⟩
  · exact .inr ⟨List.mem_of_mem_filter (List.mem_of_find?_eq_some isMap), List.find?_some isMap⟩

/-- What is read of an object is read again as it is against a union, if this is so of the members. -/
theorem read_again_union_object (makesInstances : registry.library.MakesInstances)
    {members : List Descriptor}
    (repeatable : (Descriptor.union members).Throughout registry.structs
      (IsRepeatable registry.structs))
    {fields : Fields} (distinct : (fields.map Prod.fst).Nodup)
    (again : ∀ member ∈ members, ∀ result, read registry (.ofFields fields) member = .ok result →
      read registry result member = .ok result)
    (isRead : read registry (.ofFields fields) (.union members) = .ok value) :
    read registry value (.union members) = .ok value := by
  have ofRecord {record : Descriptor} (isMember : record.IsMemberOf members)
      (isRecord : ∃ view, record.record? registry.structs = some view)
      (isOwn : read registry (.ofFields fields) record = .ok value) :
      read registry value (.union members) = .ok value := by
    obtain ⟨view, isView⟩ := isRecord
    have here := repeatable record isMember.reaches
    obtain ⟨key, isKey⟩ := Option.isSome_iff_exists.mp (here.classes view isView)
    exact read_union_of_instance (areRepeatable repeatable)
      (isInstance_of_read makesInstances isView isKey isOwn)
  cases isTag : decidingTag? registry.structs members (Value.entriesOf fields) with
  | some tag =>
      cases isRecord : taggedRecord? registry.structs members tag with
      | some record =>
          obtain ⟨pair, isPair, rfl⟩ := Option.map_eq_some_iff.mp isRecord
          obtain ⟨isMember, isView⟩ := of_mem_namedRecords (List.mem_of_find?_eq_some isPair)
          exact ofRecord isMember isView ((readAt_union_of_record isTag isRecord []).symm.trans isRead)
      | none =>
          obtain ⟨error, refused⟩ := @exists_error_of_unknown registry members _ tag isTag isRecord []
          cases refused.symm.trans isRead
  | none =>
      have same := @readAt_union_undecided registry members _ isTag []
      rw [← Value.ofFields_eq, ← read, isRead] at same
      cases isMember : untaggedMember? registry.structs members (Value.entriesOf fields) with
      | none =>
          rw [isMember] at same
          obtain rfl := Except.ok.inj same
          exact isRead
      | some member =>
          rw [isMember] at same
          have isOwn : read registry (.ofFields fields) member = .ok value := same.symm
          rcases cases_of_untaggedMember? isMember with ⟨isRecordMember, isView⟩ | ⟨isDirect, isMap⟩
          · exact ofRecord isRecordMember isView isOwn
          · cases member with
            | map key element =>
                obtain rfl := (repeatable _ (.single (.member isDirect))).keys key element rfl
                have settled := again _ isDirect _ isOwn
                obtain ⟨results, rfl, names, -⟩ := exists_fields_of_read_map distinct isOwn
                rw [read, Value.ofFields_eq, readAt_union_undecided (decidingTag?_congr names isTag),
                  untaggedMember?_congr names, isMember]
                exact settled
            | _ => cases isMap

/-! ## Replies -/

theorem Value.IsParsed.item {items : List Value} (parsed : raw.IsParsed)
    (isList : raw.items? = some items) : ∀ item ∈ items, item.IsParsed := by
  cases parsed <;> cases isList
  assumption

/-- What a parsed reply is read as is read again as it is against the same descriptor, if records have
classes, keys are texts, choices equal themselves or are not-a-number, and unions hold no unions and
offer no choices that are lists, tuples or objects. -/
theorem read_again (makesInstances : registry.library.MakesInstances) (parsed : raw.IsParsed)
    (repeatable : descriptor.Throughout registry.structs (IsRepeatable registry.structs))
    (isRead : read registry raw descriptor = .ok value) :
    read registry value descriptor = .ok value := by
  induction raw using Value.induction_parts generalizing descriptor value with
  | step raw items entries =>
      induction descriptor using Descriptor.induction generalizing value with
      | scalar kind =>
          rw [read, readAt_eq, Read.read] at isRead ⊢
          exact coerceScalar_of_matches (matchesScalar_of_coerceScalar isRead)
      | enum type =>
          rw [read, readAt_eq, Read.read] at isRead ⊢
          refine coerceEnum_of_coerced isRead (fun values isChoices => ?_) []
          exact repeatable.here.choices values (by rw [isChoices])
      | array element =>
          refine (read_again_array isRead fun found isList item isItem result isOwn => ?_).2
          exact items item (Value.iterated_of_items? isList ▸ isItem) (parsed.item isList item isItem)
            (repeatable.of_part (.element element)) isOwn
      | map key element =>
          obtain rfl := repeatable.here.keys key element rfl
          cases parsed with
          | @object fields distinct each =>
              refine read_again_map distinct isRead fun field isField result isOwn => ?_
              have isEntry : (Value.str field.1, field.2) ∈ Value.entriesOf fields :=
                List.mem_map.mpr ⟨field, isField, rfl⟩
              exact (entries _ rfl _ isEntry).2 (each field isField)
                (repeatable.of_part (.value _ element)) isOwn
          | _ => cases isRead
      | optional inner ih =>
          have inside := repeatable.of_part (.inner inner)
          rcases read_optional_cases isRead with ⟨rfl, rfl⟩ | isOwn
          · exact isRead
          · refine read_again_optional (ih inside isOwn) fun record isRecord => ?_
            obtain ⟨key, isKey⟩ := Option.isSome_iff_exists.mp (inside.here.classes record isRecord)
            have isInstance := isInstance_of_read makesInstances isRecord isKey isOwn
            cases value <;> first | rfl | cases isInstance
      | union members ih =>
          have again (member) (isMember : member ∈ members) (result)
              (isOwn : read registry raw member = .ok result) :
              read registry result member = .ok result :=
            ih member isMember (repeatable.of_part (.member isMember)) isOwn
          cases plain : raw.isObject with
          | false => exact read_again_union_plain (areRepeatable repeatable) parsed plain again isRead
          | true =>
              cases parsed with
              | object distinct each =>
                  exact read_again_union_object makesInstances repeatable distinct again isRead
              | _ => cases plain
      | null =>
          obtain rfl : raw = .null := by
            rw [read, readAt_eq, Read.read] at isRead
            split at isRead
            next isNull => exact Value.isNull_iff.mp isNull
            · cases isRead
          obtain rfl := eq_null_of_read isRead
          exact isRead
      | fixed record =>
          exact readAt_of_read_record makesInstances rfl (repeatable.here.classes _ rfl) isRead
      | struct id =>
          exact readAt_of_read_record makesInstances rfl (repeatable.here.classes _ rfl) isRead
      | stray other => exact absurd rfl (repeatable.here.isDescriptor other)

/-- Several things, each of which may be a measure, the word of a label or a number. -/
def samples : Descriptor :=
  .array (.union [.optional (.struct 0), .enum (.ofTexts ["Small"]), .scalar .int])

/-- What is reached from samples. -/
def sampleDescriptors : List Descriptor :=
  [samples, .union [.optional (.struct 0), .enum (.ofTexts ["Small"]), .scalar .int],
    .optional (.struct 0), .enum (.ofTexts ["Small"]), .scalar .int, .struct 0, .scalar .float]

/-- A descriptor is repeatable where it has no choices, is no map and no union, and has a class if it is
a record. -/
theorem Descriptor.IsRepeatable.of_bare {store : Store} {descriptor : Descriptor}
    (isDescriptor : ∀ value, descriptor ≠ .stray value)
    (classes : ∀ record, descriptor.record? store = some record → record.cls.isSome = true)
    (noMap : ∀ key element, descriptor ≠ .map key element)
    (noChoices : ∀ type, descriptor ≠ .enum type) (noUnion : ∀ members, descriptor ≠ .union members) :
    descriptor.IsRepeatable store where
  isDescriptor := isDescriptor
  classes := classes
  keys _ _ isMap := absurd isMap (noMap _ _)
  flat _ isUnion := absurd isUnion (noUnion _)
  choices _ isEnum := absurd isEnum (noChoices _)
  shapeless _ isUnion := absurd isUnion (noUnion _)

theorem isRepeatable_ofTexts (store : Store) (texts : List String) :
    (Descriptor.enum (.ofTexts texts)).IsRepeatable store where
  isDescriptor := by simp
  classes := by simp [Descriptor.record?]
  keys := by simp
  flat := by simp
  choices := by
    rintro _ ⟨⟩ choice isChoice
    obtain ⟨text, -, rfl⟩ := List.mem_map.mp isChoice
    exact .inl (by simp [Value.same, Value.sameScalar, Value.number?, Value.integer?, Value.text?])
  shapeless := by simp

theorem samples_isRepeatable :
    samples.Throughout measures.structs (IsRepeatable measures.structs) := by
  refine @Throughout.of_list _ _ _ sampleDescriptors ?_ ?_ List.mem_cons_self
  · simp [sampleDescriptors, samples, measures, Descriptor.parts, Descriptor.fields, Store.at]
  · simp only [sampleDescriptors, List.forall_mem_cons]
    refine ⟨.of_bare ?_ ?_ ?_ ?_ ?_, ⟨⟨?_, ?_, ?_, ?_⟩, ?_, ?_⟩, .of_bare ?_ ?_ ?_ ?_ ?_,
      isRepeatable_ofTexts _ _, .of_bare ?_ ?_ ?_ ?_ ?_, .of_bare ?_ ?_ ?_ ?_ ?_,
      .of_bare ?_ ?_ ?_ ?_ ?_, List.forall_mem_nil _⟩ <;>
      simp [samples, Descriptor.record?, measures, Store.at, Struct.view, Descriptor.core,
        EnumType.ofTexts, Value.items?, Value.isObject, Value.entries?]

/-- A measure, a label in other letters, a number in a text and null are read again as they are. -/
theorem samples_read_again :
    let raw : Value := .list [.ofFields [("size", .str "2.5")], .str "SMALL", .str "7", .null]
    measures.library.MakesInstances ∧ raw.IsParsed ∧
      samples.Throughout measures.structs (IsRepeatable measures.structs) ∧
      ∃ value, read measures raw samples = .ok value ∧ read measures value samples = .ok value := by
  have parsed : Value.IsParsed (.list [.ofFields [("size", .str "2.5")], .str "SMALL", .str "7",
      .null]) := by
    refine .list ?_
    simp only [List.forall_mem_cons]
    exact ⟨.object (by simp) (List.forall_mem_singleton.mpr (.str _)), .str _, .str _, .null,
      List.forall_mem_nil _⟩
  have isOk : (read measures (.list [.ofFields [("size", .str "2.5")], .str "SMALL", .str "7", .null])
      samples).isOk = true := by decide +kernel
  have makesInstances : measures.library.MakesInstances := ClassLibrary.reference_makesInstances
  refine ⟨makesInstances, parsed, samples_isRepeatable, ?_⟩
  cases isRead : read measures (.list [.ofFields [("size", .str "2.5")], .str "SMALL", .str "7",
      .null]) samples with
  | ok value => exact ⟨value, rfl, read_again makesInstances parsed samples_isRepeatable isRead⟩
  | error failure =>
      rw [isRead] at isOk
      cases isOk

/-! ### Choices with the shape of a list -/

def textsOr (choice : Value) : Descriptor :=
  .union [.array (.scalar .string), .enum (.choices [choice])]

theorem textsOr_isBound (choice : Value) :
    (textsOr choice).Throughout Registry.empty.structs (IsBound Registry.empty.structs) := by
  refine @Throughout.of_list _ _ _ [textsOr choice, .array (.scalar .string),
    .enum (.choices [choice]), .scalar .string] ?_ ?_ List.mem_cons_self
  · simp [textsOr, Descriptor.parts, Descriptor.fields]
  · simp only [List.forall_mem_cons]
    refine ⟨⟨?_, ?_, ?_, ?_⟩, ⟨?_, ?_, ?_, ?_⟩, ⟨?_, ?_, ?_, ?_⟩, ⟨?_, ?_, ?_, ?_⟩,
      List.forall_mem_nil _⟩ <;> simp [textsOr, Descriptor.record?, Descriptor.core]

/-- A choice that is a tuple is read from its text, but again as a list of texts. -/
theorem tuple_choice_read_otherwise :
    let pair : Value := .tuple [.int 1, .int 2]
    (Value.str "(1, 2)").IsParsed ∧
      (textsOr pair).Throughout Registry.empty.structs (IsBound Registry.empty.structs) ∧
      read Registry.empty (.str "(1, 2)") (textsOr pair) = .ok pair ∧
      read Registry.empty pair (textsOr pair) = .ok (.list [.str "1", .str "2"]) :=
  ⟨.str _, textsOr_isBound _, rfl, rfl⟩

end TypedReply
