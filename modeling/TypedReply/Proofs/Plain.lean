import TypedReply.Plain
import TypedReply.Proofs.Aligned
import TypedReply.Proofs.Value.Objects
import Mathlib.Data.List.Nodup

/-!
# Plain forms

The plain form of a list or an object is made of the plain forms of its parts, and that of an
instance holds its tag and, under their wire names, the plain forms of the fields that are not left
out.
-/

namespace TypedReply.Plain

open Value (entriesOf)

/-- The plain forms of items are aligned with them. -/
theorem plainItems_eq_ok_iff {items wires : List Value} :
    plainItems items = .ok wires ↔
      List.Forall₂ (fun item wire => plain item = .ok wire) items wires := by
  induction items generalizing wires with
  | nil => simp [plainItems, eq_comm]
  | cons item rest ih =>
      simp only [plainItems, bind_eq_ok_iff, List.forall₂_cons_left_iff, ih, Except.ok.injEq]
      constructor
      · rintro ⟨first, isFirst, others, aligned, rfl⟩
        exact ⟨first, others, isFirst, aligned, rfl⟩
      · rintro ⟨first, others, isFirst, aligned, rfl⟩
        exact ⟨first, isFirst, others, aligned, rfl⟩

/-- An entry has a plain form as another one, whose key can be a key. -/
def EntryPlain (entry pair : Value × Value) : Prop :=
  plain entry.1 = .ok pair.1 ∧ plain entry.2 = .ok pair.2 ∧ pair.1.unhashable? = none

theorem insert_eq_ok_iff {entries result : Value.Entries} {key value : Value} :
    insert entries key value = .ok result ↔
      key.unhashable? = none ∧ result = entries.insert key value := by
  unfold insert
  cases key.unhashable? with
  | none => simp [eq_comm]
  | some typeName => simp [Outcome.fault]

theorem plainEntries_eq_ok_iff {done result : Value.Entries} {entries : List (Value × Value)} :
    plainEntries done entries = .ok result ↔ ∃ pairs, List.Forall₂ EntryPlain entries pairs ∧
      result = pairs.foldl (fun entries pair => entries.insert pair.1 pair.2) done := by
  induction entries generalizing done with
  | nil => simp [plainEntries, eq_comm]
  | cons entry rest ih =>
      simp only [plainEntries, bind_eq_ok_iff, insert_eq_ok_iff, ih, List.forall₂_cons_left_iff]
      constructor
      · rintro ⟨key, isKey, value, isValue, _, ⟨hashable, rfl⟩, pairs, aligned, rfl⟩
        exact ⟨_, ⟨(key, value), pairs, ⟨isKey, isValue, hashable⟩, aligned, rfl⟩, rfl⟩
      · rintro ⟨_, ⟨pair, pairs, ⟨isKey, isValue, hashable⟩, aligned, rfl⟩, rfl⟩
        exact ⟨_, isKey, _, isValue, _, ⟨hashable, rfl⟩, pairs, aligned, rfl⟩

/-- The plain form of an object is that of the plain forms of its entries, set one after another. -/
theorem plain_object_eq_ok_iff {entries : Value.Entries} {wire : Value} :
    plain (.object entries) = .ok wire ↔ ∃ pairs, List.Forall₂ EntryPlain entries pairs ∧
      wire = .object (Value.Entries.ofPairs pairs) := by
  simp only [plain, bind_eq_ok_iff, plainEntries_eq_ok_iff, Except.ok.injEq]
  constructor
  · rintro ⟨_, ⟨pairs, aligned, rfl⟩, rfl⟩
    exact ⟨pairs, aligned, rfl⟩
  · rintro ⟨pairs, aligned, rfl⟩
    exact ⟨_, ⟨pairs, aligned, rfl⟩, rfl⟩

/-- The plain form of an object with text keys has the same keys. -/
theorem plain_ofFields {fields wires : Fields} (distinct : (fields.map Prod.fst).Nodup)
    (each : List.Forall₂ (fun field wire => field.1 = wire.1 ∧ plain field.2 = .ok wire.2) fields
      wires) : plain (.ofFields fields) = .ok (.ofFields wires) := by
  have entries (done : Fields) (distinct : ((done ++ fields).map Prod.fst).Nodup) :
      plainEntries (entriesOf done) (entriesOf fields) = .ok (entriesOf (done ++ wires)) := by
    induction each generalizing done with
    | nil => simp [entriesOf, plainEntries]
    | @cons field wire fields wires isFirst _ ih =>
        obtain ⟨name, value⟩ := field
        obtain ⟨other, held⟩ := wire
        obtain ⟨sameName, isPlain⟩ := isFirst
        obtain rfl : name = other := sameName
        dsimp only at isPlain
        have new : name ∉ done.map Prod.fst := by
          rw [List.map_append, List.nodup_append] at distinct
          intro isDone
          exact distinct.2.2 _ isDone _ (by simp) rfl
        rw [List.append_cons]
        rw [← ih (by simp_all) (done ++ [(name, held)]) (by simpa using distinct),
          ← insert_entriesOf new]
        simp only [entriesOf, List.map_cons, plainEntries, plain, isPlain, insert,
          Value.unhashable?, bind, Except.bind]
  have all := entries [] distinct
  rw [Value.ofFields_eq, plain]
  simp only [entriesOf, List.map_nil, List.nil_append] at all ⊢
  rw [all]
  rfl

/-- An object with text keys whose values have plain forms has one, which holds those under the same
keys. -/
theorem exists_plain_ofFields {fields : Fields} (distinct : (fields.map Prod.fst).Nodup)
    (each : ∀ field ∈ fields, ∃ wire, plain field.2 = .ok wire) :
    ∃ wires : Fields, plain (.ofFields fields) = .ok (.ofFields wires) ∧
      wires.map Prod.fst = fields.map Prod.fst ∧
      (∀ field ∈ fields, ∃ wire, plain field.2 = .ok wire ∧ wires.get? field.1 = some wire) ∧
      ∀ wire ∈ wires, ∃ field ∈ fields, plain field.2 = .ok wire.2 := by
  have exists_wire (field) (isField : field ∈ fields) : ∃ wire : String × Value,
      field.1 = wire.1 ∧ plain field.2 = .ok wire.2 := by
    obtain ⟨wire, isPlain⟩ := each field isField
    exact ⟨(field.1, wire), rfl, isPlain⟩
  obtain ⟨wires, aligned⟩ := exists_aligned exists_wire
  have names : wires.map Prod.fst = fields.map Prod.fst :=
    (map_eq_of_aligned aligned fun _ _ _ wired => wired.1).symm
  refine ⟨wires, plain_ofFields distinct aligned, names, fun field isField => ?_,
    fun wire isWire => ?_⟩
  · obtain ⟨wire, isWire, sameName, isPlain⟩ := exists_right_of_mem aligned isField
    exact ⟨wire.2, isPlain, sameName ▸ Fields.get?_of_mem (names ▸ distinct) isWire⟩
  · obtain ⟨field, isField, -, isPlain⟩ := exists_left_of_mem aligned isWire
    exact ⟨field, isField, isPlain⟩

/-! ## Fields of instances -/

/-- The fields of an instance that are not left out. -/
def written (fields : List (FieldTag × Value)) : List (FieldTag × Value) :=
  fields.filter fun field => !isOmitted field.1 field.2

theorem eq_null_or_mem_written {fields : List (FieldTag × Value)} {field : FieldTag × Value}
    (isField : field ∈ fields) : field.2 = .null ∨ field ∈ written fields := by
  cases omitted : isOmitted field.1 field.2 with
  | true =>
      rw [isOmitted, Bool.and_eq_true, Value.isNull_iff] at omitted
      exact .inl omitted.2
  | false =>
      right
      apply List.mem_filter.mpr
      exact ⟨isField, by rw [omitted]; rfl⟩

/-- A field is written as the plain form of its value under its wire name. -/
def FieldPlain (field : FieldTag × Value) (entry : String × Value) : Prop :=
  field.1.wireName = entry.1 ∧ plain field.2 = .ok entry.2

theorem plainFields_eq_ok_iff {done : Fields} {fields : List (FieldTag × Value)}
    {result : Value.Entries} : plainFields (entriesOf done) fields = .ok result ↔
      ∃ entries, List.Forall₂ FieldPlain (written fields) entries ∧
        result = entriesOf (done.putAll entries) := by
  induction fields generalizing done with
  | nil => simp [plainFields, written, Fields.putAll, eq_comm]
  | cons field rest ih =>
      obtain ⟨tag, value⟩ := field
      rw [plainFields, written, List.filter_cons]
      cases omitted : isOmitted tag value with
      | true =>
          simp only [if_true, Bool.not_true, Bool.false_eq_true, if_false]
          exact ih
      | false =>
          have isPut (wire : Value) : (entriesOf done).insert (.str tag.wireName) wire =
              entriesOf (done.put tag.wireName wire) := put_ofFields done tag.wireName wire
          simp only [bind_eq_ok_iff, isPut, ih, Bool.false_eq_true, if_false, Bool.not_false, if_true,
            List.forall₂_cons_left_iff]
          constructor
          · rintro ⟨wire, isPlain, entries, aligned, rfl⟩
            exact ⟨_, ⟨(tag.wireName, wire), entries, ⟨rfl, isPlain⟩, aligned, rfl⟩, rfl⟩
          · rintro ⟨_, ⟨⟨name, wire⟩, entries, ⟨rfl, isPlain⟩, aligned, rfl⟩, rfl⟩
            exact ⟨wire, isPlain, entries, aligned, rfl⟩

/-- The plain form of an instance is its tag and what is written of its fields, put one after another. -/
theorem plain_record_eq_ok_iff {tag : RecordTag} {fields : List (FieldTag × Value)} {wire : Value} :
    plain (.record tag fields) = .ok wire ↔
      ∃ entries, List.Forall₂ FieldPlain (written fields) entries ∧
        wire = .ofFields (Fields.putAll [(typeKey, .str (tagName tag))] entries) := by
  have fields_iff {result : Value.Entries} :=
    @plainFields_eq_ok_iff [(typeKey, .str (tagName tag))] fields result
  rw [plain]
  change (plainFields (entriesOf [(typeKey, .str (tagName tag))]) fields >>=
    fun entries => Except.ok (.object entries)) = .ok wire ↔ _
  simp only [bind_eq_ok_iff, fields_iff]
  constructor
  · rintro ⟨_, ⟨entries, aligned, rfl⟩, done⟩
    cases done
    exact ⟨entries, aligned, rfl⟩
  · rintro ⟨entries, aligned, rfl⟩
    exact ⟨_, ⟨entries, aligned, rfl⟩, rfl⟩

/-- The fields of an instance that are not left out are found under their wire names, beside what was
there before and in place of what went by the same name. -/
theorem exists_plainFields {fields : List (FieldTag × Value)}
    (distinct : (fields.map (·.1.wireName)).Nodup)
    (each : ∀ field ∈ fields, ∃ wire, plain field.2 = .ok wire) (done : Fields)
    (fresh : ∀ field ∈ fields, isOmitted field.1 field.2 = true →
      done.get? field.1.wireName = none) :
    ∃ entries : Fields, plainFields (entriesOf done) fields = .ok (entriesOf entries) ∧
      (∀ name, name ∉ fields.map (·.1.wireName) → entries.get? name = done.get? name) ∧
      ∀ field ∈ fields, ∀ wire, plain field.2 = .ok wire →
        entries.get? field.1.wireName = if isOmitted field.1 field.2 then none else some wire := by
  have exists_entry (field) (isWritten : field ∈ written fields) : ∃ entry : String × Value,
      FieldPlain field entry := by
    obtain ⟨wire, isPlain⟩ := each field (List.mem_filter.mp isWritten).1
    exact ⟨(field.1.wireName, wire), rfl, isPlain⟩
  obtain ⟨entries, aligned⟩ := exists_aligned exists_entry
  have names : entries.map Prod.fst = (written fields).map (·.1.wireName) :=
    (map_eq_of_aligned aligned fun _ _ _ isPlain => isPlain.1).symm
  have isSublist : (entries.map Prod.fst).Sublist (fields.map (·.1.wireName)) := by
    rw [names]
    exact List.filter_sublist.map _
  refine ⟨done.putAll entries, plainFields_eq_ok_iff.mpr ⟨entries, aligned, rfl⟩, ?_, ?_⟩
  · intro name absent
    exact Fields.get?_putAll_of_not_mem (fun isName => absent (isSublist.subset isName)) done
  · intro field isField wire isPlain
    rw [Fields.get?_putAll (distinct.sublist isSublist)]
    cases omitted : isOmitted field.1 field.2 with
    | true =>
        have absent : field.1.wireName ∉ entries.map Prod.fst := by
          rw [names]
          intro isName
          obtain ⟨other, isWritten, sameName⟩ := List.mem_map.mp isName
          obtain ⟨isOther, present⟩ := List.mem_filter.mp isWritten
          obtain rfl := List.inj_on_of_nodup_map distinct isOther isField sameName
          rw [omitted] at present
          cases present
        rw [Fields.get?_eq_none_of_not_mem absent, fresh field isField omitted]
        rfl
    | false =>
        have isWritten : field ∈ written fields :=
          List.mem_filter.mpr ⟨isField, by rw [omitted]; rfl⟩
        obtain ⟨⟨name, held⟩, isEntry, sameName, isHeld⟩ := exists_right_of_mem aligned isWritten
        cases isPlain.symm.trans isHeld
        rw [sameName, Fields.get?_of_mem (distinct.sublist isSublist) isEntry]
        rfl

/-- The plain form of an instance holds the tag of its class, under their wire names the plain forms of
the fields that are not left out, and nothing else. -/
theorem exists_plain_record (tag : RecordTag) {fields : List (FieldTag × Value)}
    (names : (typeKey :: fields.map (·.1.wireName)).Nodup)
    (each : ∀ field ∈ fields, ∃ wire, plain field.2 = .ok wire) :
    ∃ entries : Fields, plain (.record tag fields) = .ok (.ofFields entries) ∧
      entries.get? typeKey = some (.str (tagName tag)) ∧
      (∀ name, name ≠ typeKey → name ∉ fields.map (·.1.wireName) → entries.get? name = none) ∧
      ∀ field ∈ fields, ∀ wire, plain field.2 = .ok wire →
        entries.get? field.1.wireName = if isOmitted field.1 field.2 then none else some wire := by
  obtain ⟨freshNames, distinctNames⟩ := List.nodup_cons.mp names
  have fresh (field) (isField : field ∈ fields) :
      Fields.get? [(typeKey, .str (tagName tag))] field.1.wireName = none := by
    apply Fields.get?_eq_none_of_not_mem
    intro isTag
    have sameName : field.1.wireName = typeKey := List.mem_singleton.mp isTag
    exact freshNames (sameName ▸ List.mem_map_of_mem isField)
  obtain ⟨entries, areEntries, others, held⟩ :=
    exists_plainFields distinctNames each [(typeKey, .str (tagName tag))]
      fun field isField _ => fresh field isField
  refine ⟨entries, ?_, ?_, ?_, held⟩
  · rw [plain]
    exact bind_eq_ok_iff.mpr ⟨_, areEntries, rfl⟩
  · rw [others typeKey freshNames]
    simp [Fields.get?_cons]
  · intro name notTag notField
    rw [others name notField]
    apply Fields.get?_eq_none_of_not_mem
    exact fun isTag => notTag (List.mem_singleton.mp isTag)

/-- The fields of an instance that has a plain form have plain forms; those that are left out are
null. -/
theorem exists_plain_of_plain_record {tag : RecordTag} {fields : List (FieldTag × Value)}
    {wire : Value} (isPlain : plain (.record tag fields) = .ok wire) :
    ∀ field ∈ fields, ∃ wire, plain field.2 = .ok wire := by
  obtain ⟨entries, aligned, -⟩ := plain_record_eq_ok_iff.mp isPlain
  intro field isField
  rcases eq_null_or_mem_written isField with isNull | isWritten
  · rw [isNull]
    exact ⟨.null, rfl⟩
  · obtain ⟨entry, -, -, isEntry⟩ := exists_right_of_mem aligned isWritten
    exact ⟨entry.2, isEntry⟩

/-- Where no field of an instance is left out, its plain form holds those of the fields under their wire
names, be one of these even the key of the tag. -/
theorem exists_plain_of_present {tag : RecordTag} {fields : List (FieldTag × Value)}
    (distinct : (fields.map (·.1.wireName)).Nodup)
    (present : ∀ field ∈ fields, isOmitted field.1 field.2 = false)
    (each : ∀ field ∈ fields, ∃ wire, plain field.2 = .ok wire) :
    ∃ entries : Fields, plain (.record tag fields) = .ok (.ofFields entries) ∧
      ∀ field ∈ fields, ∀ wire, plain field.2 = .ok wire →
        entries.get? field.1.wireName = some wire := by
  obtain ⟨entries, areEntries, -, held⟩ :=
    exists_plainFields distinct each [(typeKey, .str (tagName tag))] fun field isField omitted => by
      cases (present field isField).symm.trans omitted
  refine ⟨entries, ?_, fun field isField wire isPlain => ?_⟩
  · rw [plain]
    exact bind_eq_ok_iff.mpr ⟨_, areEntries, rfl⟩
  · rw [held field isField wire isPlain, present field isField]
    rfl

/-! ## Plain forms of plain forms -/

/-- An object of different text keys and of values that are their own plain forms is its own plain
form. -/
theorem plain_ofFields_self {fields : Fields} (distinct : (fields.map Prod.fst).Nodup)
    (each : ∀ field ∈ fields, plain field.2 = .ok field.2) :
    plain (.ofFields fields) = .ok (.ofFields fields) :=
  plain_ofFields distinct (List.forall₂_same.mpr fun field isField => ⟨rfl, each field isField⟩)

/-- The plain form of an object with text keys is its own plain form if those of its values are. -/
theorem exists_settled_ofFields {fields : Fields} (distinct : (fields.map Prod.fst).Nodup)
    (each : ∀ field ∈ fields, ∃ wire, plain field.2 = .ok wire ∧ plain wire = .ok wire) :
    ∃ wire, plain (.ofFields fields) = .ok wire ∧ plain wire = .ok wire := by
  obtain ⟨wires, isPlain, names, -, ofWire⟩ := exists_plain_ofFields distinct
    fun field isField => (each field isField).imp fun _ settled => settled.1
  refine ⟨.ofFields wires, isPlain, plain_ofFields_self (names ▸ distinct) fun wire isWire => ?_⟩
  obtain ⟨field, isField, isPlain⟩ := ofWire wire isWire
  obtain ⟨own, isOwn, settled⟩ := each field isField
  cases isOwn.symm.trans isPlain
  exact settled

/-- The plain form of an instance is an object of values under different names, and what holds of its tag
and of the plain forms of its fields holds of all of them. -/
theorem exists_entries_of_plain_record {property : Value → Prop} {tag : RecordTag}
    {fields : List (FieldTag × Value)} (tagged : property (.str (tagName tag)))
    (each : ∀ field ∈ fields, ∀ wire, plain field.2 = .ok wire → property wire) {wire : Value}
    (isPlain : plain (.record tag fields) = .ok wire) :
    ∃ entries : Fields, wire = .ofFields entries ∧ (entries.map Prod.fst).Nodup ∧
      ∀ entry ∈ entries, property entry.2 := by
  obtain ⟨entries, aligned, rfl⟩ := plain_record_eq_ok_iff.mp isPlain
  refine ⟨_, rfl, Fields.nodup_putAll (by simp) entries, fun entry isEntry => ?_⟩
  rcases Fields.mem_or_mem_of_mem_putAll isEntry with isTag | isWritten
  · rw [List.mem_singleton.mp isTag]
    exact tagged
  · obtain ⟨field, isField, -, isPlain⟩ := exists_left_of_mem aligned isWritten
    exact each field (List.mem_filter.mp isField).1 entry.2 isPlain

end TypedReply.Plain
