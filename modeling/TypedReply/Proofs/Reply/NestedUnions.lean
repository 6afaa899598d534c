import TypedReply.Proofs.Descriptor.Reordering
import TypedReply.Proofs.Reply.Flattening
import TypedReply.Proofs.Schema.Flattening
import TypedReply.Reference.Library

/-!
# Nested unions

A union whose members are unions or optional is not the same as the flattened union for the reader,
though it is for the compiler. The two readings of a value agree as far as the value does not come to
what only the flattened union offers. As the type of a field, a union has to list null itself to have
null put in the place of a default, and the records that a sibling names have to be its own.
-/

namespace TypedReply

open Read Descriptor

variable {registry : Registry} {store : Store} {members : List Descriptor} {entries : Value.Entries}

/-! ## Records that siblings name -/

/-- The value of a discriminator names the same record among the members of a union as in the flattened
union: the first that a text or its lower case names is a member of the union, which has records with
names if there are any. -/
structure NamesAlike (store : Store) (members : List Descriptor) (discriminator : Descriptor)
    (tag : Value) : Prop where
  named : namedRecords store (flattened members) ≠ [] → namedRecords store members ≠ []
  direct : ∀ text, (memberValue tag).text? = some text → ∀ name, name = text ∨ name = folded text →
    FirstIsDirect unwrapped (goesBy store fun record => decide (name ∈ discriminator.namings record))
      members

theorem lookup_typeMapping_flattened {discriminator : Descriptor} {name : String}
    (direct : FirstIsDirect unwrapped
      (goesBy store fun record => decide (name ∈ discriminator.namings record)) members) :
    (typeMapping store members discriminator).lookup name =
      (typeMapping store (flattened members) discriminator).lookup name := by
  rw [lookup_typeMapping, lookup_typeMapping,
    find?_namedRecords store members fun record => decide (name ∈ discriminator.namings record),
    find?_namedRecords store (flattened members) fun record =>
      decide (name ∈ discriminator.namings record),
    find?_of_firstIsDirect (opens_goesBy store _) direct]

theorem NamesAlike.resolve? {discriminator : Descriptor} {tag : Value}
    (alike : NamesAlike store members discriminator tag) :
    (typeMapping store members discriminator).resolve? tag =
      (typeMapping store (flattened members) discriminator).resolve? tag := by
  unfold TypeMapping.resolve?
  cases isText : (memberValue tag).text? with
  | none => rfl
  | some text =>
      have direct := alike.direct text isText
      simp only [Option.bind_eq_bind, Option.bind_some,
        lookup_typeMapping_flattened (direct text (.inl rfl)),
        lookup_typeMapping_flattened (direct (folded text) (.inr rfl))]

/-! ## Fields -/

/-- A field with the flattened union for its type. -/
def Field.flattened (field : Field) (members : List Descriptor) : Field :=
  { field with type := .union (Descriptor.flattened members) }

/-- The value of a field whose type is a union is read alike if the type is the flattened union: null is
admitted by both, or by none, or demanded, or the same as what stands for it; the sibling before the
field names the same record for an untagged object; and what no sibling names a record for is read alike
against the unions. -/
structure FieldReadsAlike (registry : Registry) (entries : Value.Entries) (fields : List Field)
    (field : Field) (members : List Descriptor) (part : Value) : Prop where
  null : part = .null → field.required = true ∨
    nilable members = nilable (Descriptor.flattened members) ∨ fallback field = .null
  named : part.isObject = true → isTagged part = false → ∀ previous,
    (previous, field) ∈ fields.zip fields.tail → previous.type.isDiscriminator = true →
      NamesAlike registry.structs members previous.type ((entries.get? previous.name).getD .null)
  unnamed : discriminated? (Discrimination.detect registry.structs fields) entries field part = none →
    ReadsAlike registry members part

/-- Two discriminations lead from the values of their discriminators to the same record. -/
def Discrimination.LeadsAlike (entries : Value.Entries) (found other : Discrimination) : Prop :=
  found.mapping.resolve? ((entries.get? found.discriminator).getD .null) =
    other.mapping.resolve? ((entries.get? other.discriminator).getD .null)

/-- A field whose type is a union is discriminated if the field before it discriminates and there are
records with names. -/
theorem Discrimination.ofPair?_of_union {previous field : Field}
    (isUnion : field.type = .union members) :
    ofPair? store previous field =
      if previous.type.isDiscriminator then
        if (namedRecords store members).isEmpty then none
        else some ⟨field.name, previous.name, typeMapping store members previous.type⟩
      else none := by
  simp only [ofPair?, isUnion, unwrapped, isEmpty_typeMapping_eq]

theorem Discrimination.filter_ofPair? (name : String) (pairs : List (Field × Field)) :
    (pairs.filterMap fun pair => ofPair? store pair.1 pair.2).filter (·.field == name) =
      (pairs.filter (·.2.name == name)).filterMap fun pair => ofPair? store pair.1 pair.2 := by
  rw [List.filter_filterMap, List.filterMap_filter]
  refine List.filterMap_congr fun pair _ => ?_
  cases ofPair : ofPair? store pair.1 pair.2 with
  | none => simp
  | some found =>
      obtain ⟨_, -, rfl⟩ := exists_members_of_ofPair? ofPair
      simp [Option.filter]

theorem discriminated?_of_guarded {part : Value}
    (guarded : (part.isObject && !isTagged part) = false) (found : List Discrimination)
    (field : Field) : discriminated? found entries field part = none := by
  unfold discriminated?
  cases found.find? (·.field == field.name) <;> simp [guarded, guard]

theorem matches_absentField (field : Field) (members : List Descriptor) (path : Path) :
    Outcome.Matches (absentField store field path)
      (absentField store (field.flattened members) path) := by
  obtain ⟨name, type, required, description, default⟩ := field
  cases default with
  | some value => exact .same _
  | none =>
      cases required with
      | false => exact .same _
      | true => exact .refused rfl rfl rfl

section Fields

variable {field : Field} (isUnion : field.type = .union members)

/-- Fields that are the same, or a field beside the one with the flattened union for its type. -/
def IsFlattened (field : Field) (members : List Descriptor) (one other : Field) : Prop :=
  other = one ∨ one = field ∧ other = field.flattened members

theorem IsFlattened.name {one other : Field} (isFlattened : IsFlattened field members one other) :
    other.name = one.name := by
  rcases isFlattened with rfl | ⟨rfl, rfl⟩ <;> rfl

include isUnion

theorem ofPair?_previous {previous previousOther : Field}
    (isPrevious : IsFlattened field members previous previousOther) (one : Field) :
    Discrimination.ofPair? store previousOther one = Discrimination.ofPair? store previous one := by
  rcases isPrevious with rfl | ⟨rfl, rfl⟩
  · rfl
  · have never : previous.type.isDiscriminator = false := by rw [isUnion]; rfl
    have neverOther : (previous.flattened members).type.isDiscriminator = false := rfl
    unfold Discrimination.ofPair?
    simp only [never, neverOther, Bool.false_eq_true, if_false]

/-- A field is discriminated by the field before it to the same effect. -/
theorem ofPair?_flattened {previous previousOther one other : Field}
    (isPrevious : IsFlattened field members previous previousOther)
    (isFlattened : IsFlattened field members one other)
    (alike : one = field → previous.type.isDiscriminator = true →
      NamesAlike store members previous.type ((entries.get? previous.name).getD .null)) :
    Option.Rel (Discrimination.LeadsAlike entries)
      (Discrimination.ofPair? store previous one)
        (Discrimination.ofPair? store previousOther other) := by
  rw [ofPair?_previous isUnion isPrevious]
  rcases isFlattened with rfl | ⟨rfl, rfl⟩
  · cases Discrimination.ofPair? store previous other with
    | none => exact .none
    | some found => exact .some rfl
  · have flattenedType : (one.flattened members).type = .union (Descriptor.flattened members) := rfl
    rw [Discrimination.ofPair?_of_union isUnion, Discrimination.ofPair?_of_union flattenedType]
    cases discriminates : previous.type.isDiscriminator with
    | false => exact .none
    | true =>
        have namesAlike := alike rfl discriminates
        cases isEmpty : (namedRecords store members).isEmpty with
        | true =>
            have isEmptyToo : (namedRecords store (Descriptor.flattened members)).isEmpty = true := by
              rw [List.isEmpty_iff] at isEmpty ⊢
              exact by_contra fun some => namesAlike.named some isEmpty
            rw [isEmptyToo]
            exact .none
        | false =>
            have someToo : (namedRecords store (Descriptor.flattened members)).isEmpty = false := by
              rw [List.isEmpty_eq_false_iff] at isEmpty ⊢
              exact namedRecords_flattened_ne_nil isEmpty
            rw [someToo]
            exact .some namesAlike.resolve?

/-- A field of the name of one that is flattened is led to the same record by the value of a sibling. -/
theorem discriminated?_flattened {fields others : List Field}
    (each : List.Forall₂ (IsFlattened field members) fields others) {part : Value} {one other : Field}
    (sameName : other.name = one.name)
    (alike : one.name = field.name → part.isObject = true → isTagged part = false → ∀ previous,
      (previous, field) ∈ fields.zip fields.tail → previous.type.isDiscriminator = true →
        NamesAlike store members previous.type ((entries.get? previous.name).getD .null)) :
    discriminated? (Discrimination.detect store fields) entries one part =
      discriminated? (Discrimination.detect store others) entries other part := by
  cases unguarded : part.isObject && !isTagged part with
  | false =>
      rw [discriminated?_of_guarded unguarded, discriminated?_of_guarded unguarded]
  | true =>
      obtain ⟨isObject, untagged⟩ := (Bool.and_eq_true _ _).mp unguarded
      have tails : List.Forall₂ (IsFlattened field members) fields.tail others.tail := by
        cases each with
        | nil => exact .nil
        | cons _ rest => exact rest
      have sameNames (pair other : Field × Field)
          (isFlattened : pair ∈ fields.zip fields.tail ∧ IsFlattened field members pair.1 other.1 ∧
            IsFlattened field members pair.2 other.2) :
          (pair.2.name == one.name) = (other.2.name == one.name) := by rw [isFlattened.2.2.name]
      have pairs := filter_aligned
        (aligned_of_mem (zip_aligned each tails) fun pair isPair other isFlattened =>
          And.intro isPair isFlattened) sameNames
      have found : Option.Rel (Discrimination.LeadsAlike entries)
          ((Discrimination.detect store fields).find? (·.field == one.name))
          ((Discrimination.detect store others).find? (·.field == one.name)) := by
        rw [Discrimination.find?_detect, Discrimination.find?_detect,
          Discrimination.filter_ofPair?, Discrimination.filter_ofPair?]
        apply getLast?_aligned
        refine List.rel_filterMap ?_ (aligned_of_mem pairs fun pair isPair other isFlattened =>
          And.intro (List.mem_filter.mp isPair).2 isFlattened)
        intro pair other ⟨isNamed, isPair, isPrevious, isFlattened⟩
        refine ofPair?_flattened isUnion isPrevious isFlattened fun isField discriminates => ?_
        have isNamed : pair.2.name = one.name := by simpa using isNamed
        rw [isField] at isNamed
        exact alike isNamed.symm isObject (by simpa using untagged) pair.1
          (by rw [← isField]; exact isPair) discriminates
      unfold discriminated?
      rw [sameName]
      generalize (Discrimination.detect store fields).find? (·.field == one.name) = first at found ⊢
      generalize (Discrimination.detect store others).find? (·.field == one.name) = second at found ⊢
      cases found with
      | none => rfl
      | some leads =>
          unfold Discrimination.LeadsAlike at leads
          simpa [unguarded, guard] using leads

/-- Null is read to the same effect as the value of a field with the flattened union for its type, if
null is demanded, or admitted by both unions or none, or stands for itself. -/
theorem matches_null (described : ∀ other ∈ splicedAll members, ∀ value, other ≠ .stray value)
    (null : field.required = true ∨ nilable members = nilable (Descriptor.flattened members) ∨
      fallback field = .null) (path : Path) :
    Outcome.Matches
      (if Value.null.isNull && !field.required && !acceptsNull field.type then .ok (fallback field)
        else readAt registry .null field.type path)
      (if Value.null.isNull && !(field.flattened members).required &&
          !acceptsNull (field.flattened members).type then .ok (fallback (field.flattened members))
        else readAt registry .null (field.flattened members).type path) := by
  have read := @ReadsAlike.matches registry members .null .null described path
  obtain ⟨name, type, required, description, default⟩ := field
  obtain rfl : type = .union members := isUnion
  simp only [Field.flattened, acceptsNull, fallback, Value.isNull, Bool.true_and] at null ⊢
  cases required with
  | true => exact read
  | false =>
      rcases null with demanded | same | isNull
      · cases demanded
      · rw [← same]
        split
        · exact .same _
        · exact read
      · -- Either union reads null as null, which stands for itself where null is not admitted.
        have admitted (members : List Descriptor) :
            (if (!false && !nilable members) = true then .ok (default.getD .null)
              else readAt registry .null (.union members) path) = .ok .null := by
          cases lists : nilable members with
          | true => exact readAt_union_null lists path
          | false => exact congrArg Except.ok isNull
        rw [admitted, admitted]
        exact .same _

/-- A field is read to the same effect with the flattened union for its type. -/
theorem matches_readField {fields others : List Field}
    (each : List.Forall₂ (IsFlattened field members) fields others) {one other : Field}
    (isFlattened : IsFlattened field members one other)
    (described : ∀ other ∈ splicedAll members, ∀ value, other ≠ .stray value)
    (alike : ∀ part, entries.get? field.name = some part →
      FieldReadsAlike registry entries fields field members part) (path : Path) :
    Outcome.Matches
      (readField registry.structs fields entries ((Value.object entries).parts (Read.read registry))
        one path)
      (readField registry.structs others entries ((Value.object entries).parts (Read.read registry))
        other path) := by
  unfold readField
  rw [Value.get?_parts, Value.get?_parts, isFlattened.name]
  cases isPart : entries.get? one.name with
  | none =>
      rcases isFlattened with rfl | ⟨rfl, rfl⟩
      · exact .same _
      · exact matches_absentField one members path
  | some part =>
      have chosen := @discriminated?_flattened registry.structs members entries field isUnion fields
        others each part one other isFlattened.name fun sameName =>
          (alike part (by rw [← sameName, isPart])).named
      simp only [Option.map_some, presentField_toPart, ← chosen]
      rcases isFlattened with rfl | ⟨rfl, rfl⟩
      · exact .same _
      · obtain ⟨null, -, unnamed⟩ := alike part isPart
        cases isNull : part.isNull with
        | true =>
            obtain rfl := Value.isNull_iff.mp isNull
            rw [discriminated?_of_guarded rfl, Option.getD_none, Option.getD_none]
            exact matches_null isUnion described (null rfl) path
        | false =>
            simp only [Bool.false_and, Bool.false_eq_true, if_false]
            cases isChosen : discriminated? (Discrimination.detect registry.structs fields) entries one
                part with
            | some record => exact .same _
            | none =>
                rw [Option.getD_none, Option.getD_none, isUnion]
                exact (unnamed isChosen).matches described path

theorem matches_record {one other : Descriptor} {record : RecordView} {fields others : List Field}
    (isOne : one.record? registry.structs = some { record with fields := fields })
    (isOther : other.record? registry.structs = some { record with fields := others })
    (each : List.Forall₂ (IsFlattened field members) fields others)
    (described : ∀ other ∈ splicedAll members, ∀ value, other ≠ .stray value) (raw : Value)
    (alike : ∀ (entries : Value.Entries) (part : Value), raw = .object entries →
      entries.get? field.name = some part → FieldReadsAlike registry entries fields field members part)
    (path : Path) :
    Outcome.Matches (readAt registry raw one path) (readAt registry raw other path) := by
  cases isEntries : raw.entries? with
  | none =>
      rw [readAt_eq, readAt_eq, read_eq_readRecord isOne, read_eq_readRecord isOther]
      simp only [readRecord, isEntries, isInstanceOf]
      exact .same _
  | some entries =>
      obtain rfl : raw = .object entries := by
        cases raw <;> first | cases isEntries; rfl | cases isEntries
      rw [readAt_record isOne, readAt_record isOther]
      refine Outcome.Matches.bind ?_ fun values => .same _
      rw [fieldValues_eq, fieldValues_eq]
      apply Outcome.Matches.mapM
      apply aligned_of_mem each
      intro one isField other isFlattened
      rw [isFlattened.name]
      exact (matches_readField isUnion each isFlattened described
        (fun part isPart => alike entries part rfl isPart) _).map _

end Fields

/-! ## Unions and flattened unions -/

/-- A union without strays and the flattened union. A value is read against both to the same effect if
it comes to the same in both, which is so for every object if the records and maps that are spliced are
members, though records may be optional, and for every other value if no union is nested. Records that
differ in that a field has the one or the other for its type are read to the same effect, if the part
that stands in the field is. Both are compiled alike. -/
theorem nested_unions_alike
    (described : ∀ other ∈ splicedAll members, ∀ value, other ≠ .stray value) :
    (∀ raw path, ReadsAlike registry members raw →
      Outcome.Matches (readAt registry raw (.union members) path)
        (readAt registry raw (.union (flattened members)) path)) ∧
    ((∀ member ∈ members, ∀ found ∈ member.spliced,
        (found.isRecord = true → found = member.unwrapped) ∧ (isMap found = true → found = member)) →
      ∀ entries, ReadsAlike registry members (.object entries)) ∧
    ((∀ member ∈ members, ∀ nested, member.core ≠ .union nested) →
      ∀ raw, raw.isObject = false → ReadsAlike registry members raw) ∧
    (∀ (one other : Descriptor) (record : RecordView) (before after : List Field) (field : Field),
      field.type = .union members →
      one.record? registry.structs = some { record with fields := before ++ field :: after } →
      other.record? registry.structs =
        some { record with fields := before ++ field.flattened members :: after } →
      ∀ raw path, (∀ (entries : Value.Entries) (part : Value), raw = .object entries →
          entries.get? field.name = some part →
            FieldReadsAlike registry entries (before ++ field :: after) field members part) →
        Outcome.Matches (readAt registry raw one path) (readAt registry raw other path)) ∧
    ∀ options store,
      (∃ failure, compile options store (.union members) = .error failure ∧
        compile options store (.union (flattened members)) = .error failure) ∨
      ∃ compiled other, compile options store (.union members) = .ok compiled ∧
        compile options store (.union (flattened members)) = .ok other ∧
          Compile.MeansSame ((Descriptor.union members).IsUnbarred ∧
            (Descriptor.union (flattened members)).IsUnbarred) compiled other := by
  refine ⟨fun raw path alike => alike.matches described path, fun direct entries => ?_,
    fun flat raw plain => readsAlike_of_flat flat plain, ?_,
    fun options store => Compile.compile_flattened options store members⟩
  · exact .object (selectsAlike_of_direct direct registry.structs entries)
  · intro one other record before after field isUnion isOne isOther raw path alike
    refine matches_record isUnion isOne isOther ?_ described raw alike path
    have same (fields : List Field) : List.Forall₂ (IsFlattened field members) fields fields :=
      List.forall₂_same.mpr fun _ _ => .inl rfl
    exact List.rel_append (same before) (.cons (.inr ⟨rfl, rfl⟩) (same after))

def countOrFlag : List Descriptor := [.optional (.scalar .int), .union [.scalar .bool, .null]]

/-- A record of one entry, which a union describes and which need not be given. -/
def entryOf (members : List Descriptor) : FixedRecord :=
  ⟨[⟨"entry", .union members, false, none, none⟩], none, none, none⟩

/-- A text that is a flag is read as the flag against the union with a nested union and against the
flattened union, alone and in a field, and both schemas admit null or neither does. -/
theorem flag_read_alike :
    (∀ other ∈ splicedAll countOrFlag, ∀ value, other ≠ .stray value) ∧
    read Registry.empty (.str "true") (.union countOrFlag) = .ok (.bool true) ∧
    read Registry.empty (.str "true") (.union (flattened countOrFlag)) = .ok (.bool true) ∧
    read Registry.empty (.ofFields [("entry", .str "true")]) (.fixed (entryOf (flattened countOrFlag))) =
      .ok (.ofFields [("entry", .bool true)]) ∧
    ∃ compiled other, compile Options.defaults [] (.union countOrFlag) = .ok compiled ∧
      compile Options.defaults [] (.union (flattened countOrFlag)) = .ok other ∧
        (compiled.Admits .null ↔ other.Admits .null) := by
  have described : ∀ other ∈ splicedAll countOrFlag, ∀ value, other ≠ .stray value := by
    simp [countOrFlag, splicedAll, spliced]
  have accepted : ¬Refuses Registry.empty (.str "true") (.scalar .bool) := by
    rintro ⟨error, refused⟩
    cases refused
  have flag : ComesTo Registry.empty (.str "true") [.scalar .bool, .null] (.scalar .bool) :=
    @ComesTo.tried _ _ [] [.null] (.scalar .bool) rfl
      (fun other isMember => by cases isMember) (fun found same => by cases same) rfl accepted
  have comes : ComesTo Registry.empty (.str "true") countOrFlag (.scalar .bool) := by
    refine @ComesTo.nested _ _ [.optional (.scalar .int)] [] (.union [.scalar .bool, .null]) _ _ rfl ?_
      rfl flag accepted
    intro other isMember
    obtain rfl := List.mem_singleton.mp isMember
    exact ⟨_, rfl⟩
  have alike : ReadsAlike Registry.empty countOrFlag (.str "true") :=
    .tried rfl rfl (by decide) comes
  obtain ⟨reads, -, -, fields, compiles⟩ := @nested_unions_alike Registry.empty countOrFlag described
  have unbarred (others : List Descriptor) (without : ∀ type, .enum type ∉ splicedAll others) :
      (Descriptor.union others).IsUnbarred := isUnbarred_of_spliced without
  have isRead : read Registry.empty (.str "true") (.union countOrFlag) = .ok (.bool true) := rfl
  have isField : read Registry.empty (.ofFields [("entry", .str "true")])
      (.fixed (entryOf countOrFlag)) = .ok (.ofFields [("entry", .bool true)]) := rfl
  have reads := reads (.str "true") [] alike
  have fields := fields (.fixed (entryOf countOrFlag)) (.fixed (entryOf (flattened countOrFlag)))
    (FixedRecord.view (entryOf countOrFlag)) [] []
    ⟨"entry", .union countOrFlag, false, none, none⟩ rfl rfl rfl (.ofFields [("entry", .str "true")]) []
    fun entries part isObject isPart => by
      cases isObject
      cases isPart
      exact ⟨fun same => (by cases same), fun isObject => (by cases isObject), fun _ => alike⟩
  rw [← read, ← read, isRead] at reads
  rw [← read, ← read, isField] at fields
  refine ⟨described, isRead, reads.eq_of_ok, fields.eq_of_ok, ?_⟩
  rcases compiles Options.defaults [] with ⟨_, fails, -⟩ | ⟨compiled, other, isOne, isOther, same⟩
  · cases fails
  · refine ⟨compiled, other, isOne, isOther, same.admits .null fun _ => ⟨unbarred _ ?_, unbarred _ ?_⟩⟩
    · simp [countOrFlag, splicedAll, spliced]
    · simp [countOrFlag, flattened, anyAdmitsNull, admitsNull, splicedAll, spliced]

/-- A number is read as the flag of the union rather than as the integer of the union nested in it; the
tag of a record that stands in a nested union is refused; and null that only a nested union admits gives
way to a default. Against the flattened union the number is kept, the record is read and null is kept. -/
theorem nested_unions_read_otherwise :
    let flagOrCount : List Descriptor := [.scalar .bool, .union [.scalar .int]]
    let point : Descriptor := .fixed ⟨[], some "Point", none, none⟩
    let lineOrPoint : List Descriptor := [.fixed ⟨[], some "Line", none, none⟩, .union [point]]
    let tagged : Value := .ofFields [(typeKey, .str "Point")]
    let defaulted (members : List Descriptor) : Descriptor :=
      .fixed ⟨[⟨"entry", .union members, false, none, some (.int 3)⟩], none, none, none⟩
    let nullEntry : Value := .ofFields [("entry", .null)]
    read Registry.empty (.int 1) (.union flagOrCount) = .ok (.bool true) ∧
    read Registry.empty (.int 1) (.union (flattened flagOrCount)) = .ok (.int 1) ∧
    ¬Outcome.Matches (read Registry.empty (.int 1) (.union flagOrCount))
      (read Registry.empty (.int 1) (.union (flattened flagOrCount))) ∧
    (∃ error, read Registry.empty tagged (.union lineOrPoint) = .error (.reply error)) ∧
    read Registry.empty tagged (.union (flattened lineOrPoint)) = .ok (.object []) ∧
    read Registry.empty nullEntry (defaulted countOrFlag) = .ok (.ofFields [("entry", .int 3)]) ∧
    read Registry.empty nullEntry (defaulted (flattened countOrFlag)) = .ok nullEntry := by
  refine ⟨rfl, rfl, fun isMatch => ?_, ⟨_, rfl⟩, rfl, rfl, rfl⟩
  have same : (.ok (.int 1) : Outcome Value) = .ok (.bool true) := Outcome.Matches.eq_of_ok isMatch
  cases same

end TypedReply
