import TypedReply.Proofs.Outcome
import TypedReply.Proofs.Plain
import TypedReply.Proofs.Value.PlainData

/-!
# Presentable values

A value is presentable if its members carry plain data and its keys are written as scalars. Its plain
form is then plain data, which has a JSON text and is its own plain form. Other values have no plain form
or one that is no plain data, unless one of their keys or fields is written over by a later one.
-/

namespace TypedReply

namespace Value

/-- A key that is written as a scalar. -/
def IsPlainKey : Value → Prop
  | .date _ => True
  | .datetime _ => True
  | .member _ _ carried => carried.IsScalar
  | key => key.IsScalar

/-- A value whose members, at any depth, carry plain data and whose keys are written as scalars. -/
inductive IsPresentable : Value → Prop where
  | scalar {value : Value} (isScalar : value.IsScalar) : IsPresentable value
  | date (d : Date) : IsPresentable (.date d)
  | datetime (t : DateTime) : IsPresentable (.datetime t)
  | member (tag : EnumTag) (name : String) {carried : Value} (isPlainData : carried.IsPlainData) :
      IsPresentable (.member tag name carried)
  | collection {value : Value} {items : List Value} (isCollection : value.elements? = some items)
      (each : ∀ item ∈ items, IsPresentable item) : IsPresentable value
  | object {entries : Entries} (keys : ∀ entry ∈ entries, entry.1.IsPlainKey)
      (each : ∀ entry ∈ entries, IsPresentable entry.2) : IsPresentable (.object entries)
  | record (tag : RecordTag) {fields : List (FieldTag × Value)}
      (each : ∀ field ∈ fields, IsPresentable field.2) : IsPresentable (.record tag fields)

/-- In the plain form of a value none of its keys and none of its fields takes the place of another, or
of the tag. -/
def KeepsContents : Value → Prop
  | .object entries => ∀ keys,
      List.Forall₂ (fun entry key => Plain.plain entry.1 = .ok key) entries keys → Apart keys
  | .record _ fields => (typeKey :: (Plain.written fields).map (·.1.wireName)).Nodup
  | _ => True

end Value

namespace Plain

variable {value wire : Value}

/-! ## Plain forms of plain data -/

theorem plain_scalar (isScalar : value.IsScalar) : plain value = .ok value := by
  cases value <;> first | rfl | exact isScalar.elim

theorem plain_collection_eq_ok_iff {items : List Value} (isCollection : value.elements? = some items) :
    plain value = .ok wire ↔
      ∃ wires, List.Forall₂ (fun item wire => plain item = .ok wire) items wires ∧
        wire = .list wires := by
  have isList : plain value = plainItems items >>= fun wires => .ok (.list wires) := by
    cases value <;> cases isCollection <;> rfl
  rw [isList, bind_eq_ok_iff]
  constructor
  · rintro ⟨wires, areWires, made⟩
    cases made
    exact ⟨wires, plainItems_eq_ok_iff.mp areWires, rfl⟩
  · rintro ⟨wires, aligned, rfl⟩
    exact ⟨wires, plainItems_eq_ok_iff.mpr aligned, rfl⟩

theorem plain_eq_self (isPlainData : value.IsPlainData) : plain value = .ok value := by
  induction isPlainData with
  | scalar isScalar => exact plain_scalar isScalar
  | list each ih =>
      rw [plain_collection_eq_ok_iff rfl]
      exact ⟨_, List.forall₂_same.mpr ih, rfl⟩
  | @object entries apart keys each ih =>
      rw [plain_object_eq_ok_iff]
      refine ⟨entries, List.forall₂_same.mpr ?_, ?_⟩
      · intro entry isEntry
        have isScalar := keys entry isEntry
        exact ⟨plain_scalar isScalar, ih entry isEntry, isScalar.unhashable?⟩
      · rw [Value.Entries.ofPairs_eq_self apart]

/-! ## Plain forms of presentable values -/

theorem exists_scalar_of_isPlainKey {key : Value} (isPlainKey : key.IsPlainKey) :
    ∃ wire, plain key = .ok wire ∧ wire.IsScalar := by
  cases key with
  | date d => exact ⟨_, rfl, trivial⟩
  | datetime t => exact ⟨_, rfl, trivial⟩
  | member tag name carried => exact ⟨carried, rfl, isPlainKey⟩
  | _ => exact ⟨_, plain_scalar isPlainKey, isPlainKey⟩

theorem exists_plainData (presentable : value.IsPresentable) :
    ∃ wire, plain value = .ok wire ∧ wire.IsPlainData := by
  induction presentable with
  | scalar isScalar => exact ⟨_, plain_scalar isScalar, .scalar isScalar⟩
  | date d => exact ⟨_, rfl, .scalar trivial⟩
  | datetime t => exact ⟨_, rfl, .scalar trivial⟩
  | member tag name isPlainData => exact ⟨_, rfl, isPlainData⟩
  | collection isCollection each ih =>
      obtain ⟨wires, aligned⟩ := exists_aligned ih
      refine ⟨.list wires, ?_, .list fun wire isWire => ?_⟩
      · rw [plain_collection_eq_ok_iff isCollection]
        exact ⟨wires, aligned.imp fun _ _ both => both.1, rfl⟩
      · obtain ⟨_, -, -, isPlainData⟩ := exists_left_of_mem aligned isWire
        exact isPlainData
  | @object entries keys each ih =>
      have exists_pair (entry) (isEntry : entry ∈ entries) : ∃ pair : Value × Value,
          EntryPlain entry pair ∧ pair.1.IsScalar ∧ pair.2.IsPlainData := by
        obtain ⟨key, isKey, isScalar⟩ := exists_scalar_of_isPlainKey (keys entry isEntry)
        obtain ⟨wire, isPlain, isPlainData⟩ := ih entry isEntry
        exact ⟨(key, wire), ⟨isKey, isPlain, isScalar.unhashable?⟩, isScalar, isPlainData⟩
      obtain ⟨pairs, aligned⟩ := exists_aligned exists_pair
      refine ⟨_, plain_object_eq_ok_iff.mpr ⟨pairs, aligned.imp fun _ _ both => both.1, rfl⟩, ?_⟩
      apply Value.isPlainData_ofPairs
      intro pair isPair
      obtain ⟨_, -, -, areData⟩ := exists_left_of_mem aligned isPair
      exact areData
  | @record tag fields each ih =>
      have exists_entry (field) (isWritten : field ∈ written fields) : ∃ entry : String × Value,
          FieldPlain field entry := by
        obtain ⟨wire, isPlain, -⟩ := ih field (List.mem_filter.mp isWritten).1
        exact ⟨(field.1.wireName, wire), rfl, isPlain⟩
      obtain ⟨entries, aligned⟩ := exists_aligned exists_entry
      have isPlain := (@plain_record_eq_ok_iff tag fields _).mpr ⟨entries, aligned, rfl⟩
      refine ⟨_, isPlain, ?_⟩
      obtain ⟨others, same, distinct, areData⟩ := @exists_entries_of_plain_record Value.IsPlainData
        tag fields (.scalar trivial) (fun field isField wire isWire => by
          obtain ⟨own, isOwn, isPlainData⟩ := ih field isField
          cases isOwn.symm.trans isWire
          exact isPlainData) _ isPlain
      rw [same]
      exact Value.isPlainData_ofFields distinct areData

/-! ## Other values -/

theorem isPlainKey_of_plain {key : Value} (isPlain : plain key = .ok wire) (isScalar : wire.IsScalar) :
    key.IsPlainKey := by
  have notList {items : List Value} (isCollection : key.elements? = some items) : False := by
    obtain ⟨wires, -, rfl⟩ := (plain_collection_eq_ok_iff isCollection).mp isPlain
    exact isScalar
  cases key with
  | date d => trivial
  | datetime t => trivial
  | list items | tuple items | set items | frozenset items => exact (notList rfl).elim
  | object entries =>
      obtain ⟨pairs, -, rfl⟩ := plain_object_eq_ok_iff.mp isPlain
      exact isScalar.elim
  | record tag fields =>
      obtain ⟨entries, -, rfl⟩ := plain_record_eq_ok_iff.mp isPlain
      exact isScalar.elim
  | _ =>
      cases isPlain
      exact isScalar

/-- The plain form of an object that keeps its contents has an entry for each of its entries. -/
theorem exists_pairs_of_kept {entries : Value.Entries} (keeps : (Value.object entries).KeepsContents)
    (isPlain : plain (.object entries) = .ok wire) :
    ∃ pairs, List.Forall₂ EntryPlain entries pairs ∧ wire = .object pairs := by
  obtain ⟨pairs, aligned, rfl⟩ := plain_object_eq_ok_iff.mp isPlain
  have apart : Value.Apart (pairs.map Prod.fst) :=
    keeps _ (List.forall₂_map_right_iff.mpr (aligned.imp fun _ _ isPlain => isPlain.1))
  rw [Value.Entries.ofPairs_eq_self apart]
  exact ⟨pairs, aligned, rfl⟩

/-- The plain form of an instance that keeps its contents has its tag and an entry for each field that is
not left out. -/
theorem exists_entries_of_kept {tag : RecordTag} {fields : List (FieldTag × Value)}
    (keeps : (Value.record tag fields).KeepsContents) (isPlain : plain (.record tag fields) = .ok wire) :
    ∃ entries, List.Forall₂ FieldPlain (written fields) entries ∧
      wire = .ofFields ((typeKey, .str (tagName tag)) :: entries) := by
  obtain ⟨entries, aligned, rfl⟩ := plain_record_eq_ok_iff.mp isPlain
  have names : entries.map Prod.fst = (written fields).map (·.1.wireName) :=
    (map_eq_of_aligned aligned fun _ _ _ isPlain => isPlain.1).symm
  have distinct : (typeKey :: entries.map Prod.fst).Nodup := names ▸ keeps
  obtain ⟨free, distinct⟩ := List.nodup_cons.mp distinct
  rw [Fields.putAll_eq_append distinct]
  · exact ⟨entries, aligned, rfl⟩
  · intro name isName isTag
    have isTypeKey : name = typeKey := List.mem_singleton.mp isTag
    rw [isTypeKey] at isName
    exact free isName

theorem isPresentable_of_plainData (keeps : ∀ part, value.Encloses part → part.KeepsContents)
    (isPlain : plain value = .ok wire) (isPlainData : wire.IsPlainData) : value.IsPresentable := by
  induction value using Value.induction_contents generalizing wire with
  | step value ih =>
      have ofPart {part wire : Value} (isPart : part ∈ value.contents) (isPlain : plain part = .ok wire)
          (isPlainData : wire.IsPlainData) : part.IsPresentable :=
        ih part isPart (fun inner encloses => keeps inner (.head isPart encloses)) isPlain isPlainData
      have ofItems {items : List Value} (isCollection : value.elements? = some items) :
          value.IsPresentable := by
        obtain ⟨wires, aligned, rfl⟩ := (plain_collection_eq_ok_iff isCollection).mp isPlain
        apply Value.IsPresentable.collection isCollection
        intro item isItem
        obtain ⟨wire, isWire, isPlain⟩ := exists_right_of_mem aligned isItem
        rw [← Value.contents_of_elements isCollection] at isItem
        exact ofPart isItem isPlain (isPlainData.item wire isWire)
      cases value with
      | date d => exact .date d
      | datetime t => exact .datetime t
      | member tag name carried =>
          cases isPlain
          exact .member tag name isPlainData
      | list items | tuple items | set items | frozenset items => exact ofItems rfl
      | object entries =>
          obtain ⟨pairs, aligned, rfl⟩ := exists_pairs_of_kept (keeps _ .refl) isPlain
          apply Value.IsPresentable.object
          · intro entry isEntry
            obtain ⟨pair, isPair, isKey, -⟩ := exists_right_of_mem aligned isEntry
            exact isPlainKey_of_plain isKey (isPlainData.entry pair isPair).1
          · intro entry isEntry
            obtain ⟨pair, isPair, -, isValue, -⟩ := exists_right_of_mem aligned isEntry
            exact ofPart (Value.mem_contents_object.mpr ⟨entry, isEntry, .inr rfl⟩) isValue
              (isPlainData.entry pair isPair).2
      | record tag fields =>
          obtain ⟨entries, aligned, rfl⟩ := exists_entries_of_kept (keeps _ .refl) isPlain
          apply Value.IsPresentable.record
          intro field isField
          rcases eq_null_or_mem_written isField with isNull | isWritten
          · rw [isNull]
            exact .scalar trivial
          · obtain ⟨entry, isEntry, -, isPlain⟩ := exists_right_of_mem aligned isWritten
            have isMade := Value.mem_entriesOf
              (List.mem_cons_of_mem (typeKey, .str (tagName tag)) isEntry)
            exact ofPart (List.mem_map_of_mem isField) isPlain (isPlainData.entry _ isMade).2
      | bytes data =>
          cases isPlain
          cases isPlainData with
          | scalar isScalar => exact isScalar.elim
      | _ => exact .scalar trivial

/-! ## Failures -/

/-- A failure to make an object because one of its keys cannot be one. -/
def IsUnhashable (failure : Failure) : Prop := ∃ typeName, failure = .fault (.unhashable typeName)

/-- Whatever there is a plain form of, an object fails for a key at most. -/
def FailsByKeys {α : Type} (outcome : Outcome α) : Prop := Meets outcome (fun _ => True) IsUnhashable

theorem FailsByKeys.bind {α β : Type} {outcome : Outcome α} {next : α → Outcome β}
    (fails : FailsByKeys outcome) (rest : ∀ value, FailsByKeys (next value)) :
    FailsByKeys (outcome >>= next) :=
  Meets.bind fails fun value _ => rest value

theorem failsByKeys_insert (entries : Value.Entries) (key held : Value) :
    FailsByKeys (insert entries key held) := by
  rw [insert]
  split
  next typeName _ => exact ⟨typeName, rfl⟩
  next => trivial

theorem failsByKeys_plainItems {items : List Value} (each : ∀ item ∈ items, FailsByKeys (plain item)) :
    FailsByKeys (plainItems items) := by
  induction items with
  | nil => trivial
  | cons item rest ih =>
      obtain ⟨first, others⟩ := List.forall_mem_cons.mp each
      rw [plainItems]
      apply first.bind
      intro wire
      apply (ih others).bind
      intro wires
      trivial

theorem failsByKeys_plainEntries {entries : Value.Entries}
    (each : ∀ entry ∈ entries, FailsByKeys (plain entry.1) ∧ FailsByKeys (plain entry.2))
    (done : Value.Entries) : FailsByKeys (plainEntries done entries) := by
  induction entries generalizing done with
  | nil => trivial
  | cons entry rest ih =>
      obtain ⟨first, others⟩ := List.forall_mem_cons.mp each
      rw [plainEntries]
      apply first.1.bind
      intro key
      apply first.2.bind
      intro held
      apply (failsByKeys_insert done key held).bind
      intro entries
      exact ih others entries

theorem failsByKeys_plainFields {fields : List (FieldTag × Value)}
    (each : ∀ field ∈ fields, FailsByKeys (plain field.2)) (done : Value.Entries) :
    FailsByKeys (plainFields done fields) := by
  induction fields generalizing done with
  | nil => trivial
  | cons field rest ih =>
      obtain ⟨first, others⟩ := List.forall_mem_cons.mp each
      rw [plainFields]
      split
      next => exact ih others done
      next =>
        apply first.bind
        intro wire
        exact ih others _

theorem failsByKeys_plain (value : Value) : FailsByKeys (plain value) := by
  induction value using Value.induction_contents with
  | step value ih =>
      cases value with
      | list items | tuple items | set items | frozenset items =>
          rw [plain]
          apply (failsByKeys_plainItems ih).bind
          intro wires
          trivial
      | object entries =>
          rw [plain]
          apply (failsByKeys_plainEntries ?_ []).bind
          · intro done
            trivial
          · intro entry isEntry
            constructor
            · exact ih _ (Value.mem_contents_object.mpr ⟨entry, isEntry, .inl rfl⟩)
            · exact ih _ (Value.mem_contents_object.mpr ⟨entry, isEntry, .inr rfl⟩)
      | record tag fields =>
          rw [plain]
          apply (failsByKeys_plainFields ?_ _).bind
          · intro done
            trivial
          · intro field isField
            exact ih _ (List.mem_map_of_mem isField)
      | _ => trivial

/-! ## Presentation -/

/-- Every presentable value has a plain form that is plain data, and JSON texts of every indentation. Of
the values that keep their contents only the presentable ones have plain data as a plain form. Where
there is no plain form, the plain form of a key cannot be a key. -/
theorem plainData_of_presentable (value : Value) :
    (value.IsPresentable → ∃ wire, plain value = .ok wire ∧ wire.IsPlainData ∧
        ∀ indent, ∃ json, text indent value = .ok json) ∧
      ((∀ part, value.Encloses part → part.KeepsContents) →
        ∀ wire, plain value = .ok wire → wire.IsPlainData → value.IsPresentable) ∧
      ∀ failure, plain value = .error failure → IsUnhashable failure := by
  refine ⟨?_, ?_, ?_⟩
  · intro presentable
    obtain ⟨wire, isPlain, isPlainData⟩ := exists_plainData presentable
    refine ⟨wire, isPlain, isPlainData, fun indent => ?_⟩
    rw [text, isPlain]
    apply Json.exists_text isPlainData
    cases indent <;> rfl
  · intro keeps wire isPlain isPlainData
    exact isPresentable_of_plainData keeps isPlain isPlainData
  · intro failure fails
    have failsByKeys := failsByKeys_plain value
    rwa [FailsByKeys, fails, meets_error] at failsByKeys

def mayDay : Date := ⟨2024, 5, 1, by decide⟩

def hostRole : Value := .member ⟨0, "Role", none⟩ "HOST" (.list [.str "host", .int 1])

/-- A meeting: its day, who is there, what is done at which time, and a note that is left out. The second
of the times is written as the first. -/
def meeting : Value :=
  .record ⟨.declared 0, "Meeting", [.base]⟩
    [(⟨"day", "day", false⟩, .date mayDay), (⟨"roles", "who", false⟩, .frozenset [hostRole, .null]),
     (⟨"times", "times", false⟩,
      .object [(.date mayDay, .tuple [.float .nan, .date mayDay]), (.str "2024-05-01", .bool true)]),
     (⟨"note", "note", true⟩, .null)]

theorem isPresentable_meeting : meeting.IsPresentable := by
  have isHost : hostRole.IsPresentable := by
    apply Value.IsPresentable.member
    apply Value.IsPlainData.list
    exact List.forall_mem_cons.mpr ⟨.scalar trivial, List.forall_mem_singleton.mpr (.scalar trivial)⟩
  have times : ∀ item ∈ [.float .nan, .date mayDay], Value.IsPresentable item :=
    List.forall_mem_cons.mpr ⟨.scalar trivial, List.forall_mem_singleton.mpr (.date mayDay)⟩
  apply Value.IsPresentable.record
  simp only [List.forall_mem_cons, List.not_mem_nil, false_imp_iff, implies_true, and_true]
  refine ⟨.date mayDay, .collection rfl ?_, .object ?_ ?_, .scalar trivial⟩
  · exact List.forall_mem_cons.mpr ⟨isHost, List.forall_mem_singleton.mpr (.scalar trivial)⟩
  · exact List.forall_mem_cons.mpr ⟨trivial, List.forall_mem_singleton.mpr trivial⟩
  · exact List.forall_mem_cons.mpr ⟨.collection rfl times, List.forall_mem_singleton.mpr
      (.scalar trivial)⟩

/-- A meeting is presented, whatever is written over in it. -/
theorem meeting_presented :
    meeting.IsPresentable ∧ ∃ wire, plain meeting = .ok wire ∧ wire.IsPlainData ∧
      ∀ indent, ∃ json, text indent meeting = .ok json :=
  ⟨isPresentable_meeting, (plainData_of_presentable meeting).1 isPresentable_meeting⟩

/-- A member that carries a date has the date for a plain form, which is no plain data and has no JSON
text; and there is no plain form of an object with a pair for a key, though a pair can be one. -/
theorem dates_carried_unpresented :
    (∃ value, plain (.member ⟨0, "Day", none⟩ "FIRST" (.date mayDay)) = .ok value ∧
        ¬value.IsPlainData ∧ text none (.member ⟨0, "Day", none⟩ "FIRST" (.date mayDay)) =
          .error (.fault (.notSerializable "date"))) ∧
      (Value.tuple [.int 1, .int 2]).unhashable? = none ∧
      plain (.object [(.tuple [.int 1, .int 2], .str "x")]) = .error (.fault (.unhashable "list")) := by
  refine ⟨⟨.date mayDay, rfl, ?_, rfl⟩, rfl, rfl⟩
  rintro ⟨isScalar⟩
  exact isScalar

/-! ## Stability -/

/-- The plain form of a presentable value, its keys in their order, is its own plain form. -/
theorem plain_plain (presentable : value.IsPresentable) :
    ∃ wire, plain value = .ok wire ∧ wire.IsPlainData ∧ plain wire = .ok wire := by
  obtain ⟨wire, isPlain, isPlainData⟩ := exists_plainData presentable
  exact ⟨wire, isPlain, isPlainData, plain_eq_self isPlainData⟩

/-- The plain form of a meeting is its own. -/
theorem meeting_stable :
    meeting.IsPresentable ∧
      ∃ wire, plain meeting = .ok wire ∧ wire.IsPlainData ∧ plain wire = .ok wire :=
  ⟨isPresentable_meeting, plain_plain isPresentable_meeting⟩

end Plain

end TypedReply
