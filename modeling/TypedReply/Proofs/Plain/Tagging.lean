import TypedReply.Proofs.Plain.Presentation
import TypedReply.Proofs.Reply.Unions
import Mathlib.Data.List.Perm.Subperm

/-!
# Tagged instances

However deep in a value an instance stands, it is written as an object that begins with the key of the
tag. The keys after it are the wire names of the fields that are not left out. Under the key of the tag
stands the name of the class, and under each wire name the value of its field, unless a later field goes
by the same key: what was written under a key is written over.
-/

namespace TypedReply

/-! ## Names that are put one after another -/

namespace Fields

theorem map_fst_putAll_cons (name : String) (value : Value) (more : Fields) :
    (putAll [(name, value)] more).map Prod.fst = (name :: more.map Prod.fst).eraseDups := by
  have others : (more.map Prod.fst).filter (fun other => decide (other ∉ [name])) =
      (more.map Prod.fst).filter fun other => !other == name := by
    apply List.filter_congr
    intro other _
    rw [Bool.eq_iff_iff]
    simp
  rw [map_fst_putAll, List.eraseDups_cons, ← others]
  rfl

theorem length_putAll_eq_iff {fields : Fields} (distinct : (fields.map Prod.fst).Nodup) (more : Fields) :
    (fields.putAll more).length = fields.length + more.length ↔
      (fields.map Prod.fst ++ more.map Prod.fst).Nodup := by
  constructor
  · intro sameLength
    -- Different names that are among those put, and as many as these, are all of them.
    have arePut : (fields.putAll more).map Prod.fst ⊆ fields.map Prod.fst ++ more.map Prod.fst :=
      fun name isName => List.mem_append.mpr (mem_map_fst_putAll.mp isName)
    have isSubperm := List.subperm_of_subset (nodup_putAll distinct more) arePut
    have perm := isSubperm.perm_of_length_le (by simp [sameLength])
    exact perm.nodup_iff.mp (nodup_putAll distinct more)
  · intro allDistinct
    obtain ⟨-, distinctMore, apart⟩ := List.nodup_append.mp allDistinct
    rw [putAll_eq_append distinctMore, List.length_append]
    intro name isMore isThere
    exact apart name isThere name isMore rfl

end Fields

/-! ## What an instance shows -/

/-- The fields of a class and the values that an instance holds in them, without those that are left out:
a null that is the default of its field. -/
def RecordClass.shown (cls : RecordClass) (values : List Value) : List (ClassField × Value) :=
  (cls.fields.zip values).filter fun entry => !(entry.1.presence.isNullDefault && entry.2.isNull)

/-- Entries show an instance of a class that holds some values. -/
structure RecordClass.ShownBy (cls : RecordClass) (values : List Value) (entries : Fields) : Prop where
  /-- The first key is that of the tag. The others are the wire names of the fields that are not left
  out, each in the place of the first field that goes by it. -/
  names : entries.map Prod.fst = (typeKey :: (cls.shown values).map (·.1.wireName)).eraseDups
  /-- The tag is that of the class, unless a field goes by its key. -/
  tagged : typeKey ∉ (cls.shown values).map (·.1.wireName) →
    entries.get? typeKey = some (.str (Plain.tagName cls.tag))
  /-- The value under a key is that of the last field that goes by it. -/
  held : ∀ earlier field value later, cls.shown values = earlier ++ (field, value) :: later →
    field.wireName ∉ later.map (·.1.wireName) →
      ∃ wire, Plain.plain value = .ok wire ∧ entries.get? field.wireName = some wire
  /-- The tag and the fields have an entry each exactly if they all go by different keys. -/
  complete : entries.length = (cls.shown values).length + 1 ↔
    (typeKey :: (cls.shown values).map (·.1.wireName)).Nodup

namespace Plain

variable {value part wire : Value} {cls : RecordClass} {values : List Value}

/-! ## Single instances -/

theorem written_holding (cls : RecordClass) (values : List Value) :
    written ((cls.fields.map (·.tag)).zip values) =
      (cls.shown values).map fun entry => (entry.1.tag, entry.2) := by
  rw [written, List.zip_map_left, List.filter_map]
  rfl

theorem exists_shownBy (isPlain : plain (cls.holding values) = .ok wire) :
    ∃ tag entries, wire = .ofFields ((typeKey, tag) :: entries) ∧
      cls.ShownBy values ((typeKey, tag) :: entries) := by
  obtain ⟨writes, aligned, rfl⟩ := plain_record_eq_ok_iff.mp isPlain
  rw [written_holding, List.forall₂_map_left_iff] at aligned
  have writtenNames : writes.map Prod.fst = (cls.shown values).map (·.1.wireName) :=
    (map_eq_of_aligned aligned fun _ _ _ isPlain => isPlain.1).symm
  have names : (Fields.putAll [(typeKey, .str (tagName cls.tag))] writes).map Prod.fst =
      (typeKey :: (cls.shown values).map (·.1.wireName)).eraseDups := by
    rw [Fields.map_fst_putAll_cons, writtenNames]
  have shownBy : cls.ShownBy values (Fields.putAll [(typeKey, .str (tagName cls.tag))] writes) := by
    constructor
    · exact names
    · intro free
      rw [Fields.get?_putAll_of_not_mem (writtenNames ▸ free)]
      exact Fields.get?_cons ..
    · intro earlier field value later split last
      rw [split] at aligned
      obtain ⟨first, ⟨name, held⟩, rest, rfl, ⟨rfl, isPlain⟩, others⟩ := exists_split_of_aligned aligned
      have laterNames : rest.map Prod.fst = later.map (·.1.wireName) :=
        (map_eq_of_aligned others fun _ _ _ isPlain => isPlain.1).symm
      exact ⟨held, isPlain, Fields.get?_putAll_of_last _ _ _ (laterNames ▸ last)⟩
    · rw [← writtenNames, aligned.length_eq, Nat.add_comm]
      exact @Fields.length_putAll_eq_iff [(typeKey, .str (tagName cls.tag))]
        (List.nodup_singleton _) writes
  generalize Fields.putAll [(typeKey, .str (tagName cls.tag))] writes = entries at names shownBy ⊢
  cases entries with
  | nil => simp [List.eraseDups_cons] at names
  | cons first rest =>
      obtain ⟨key, tag⟩ := first
      rw [List.map_cons, List.eraseDups_cons, List.cons.injEq] at names
      obtain rfl : key = typeKey := names.1
      exact ⟨tag, rest, rfl, shownBy⟩

/-! ## Instances at any depth -/

theorem exists_plain_of_content (isPlain : plain value = .ok wire) (isPart : part ∈ value.contents) :
    ∃ own, plain part = .ok own := by
  have ofItems {items : List Value} (isCollection : value.elements? = some items) :
      ∃ own, plain part = .ok own := by
    obtain ⟨wires, aligned, -⟩ := (plain_collection_eq_ok_iff isCollection).mp isPlain
    rw [Value.contents_of_elements isCollection] at isPart
    exact (exists_right_of_mem aligned isPart).imp fun _ isOwn => isOwn.2
  cases value with
  | list items | tuple items | set items | frozenset items => exact ofItems rfl
  | object entries =>
      obtain ⟨entry, isEntry, isPart⟩ := Value.mem_contents_object.mp isPart
      obtain ⟨pairs, aligned, -⟩ := plain_object_eq_ok_iff.mp isPlain
      obtain ⟨pair, -, isKey, isValue, -⟩ := exists_right_of_mem aligned isEntry
      rcases isPart with rfl | rfl
      · exact ⟨pair.1, isKey⟩
      · exact ⟨pair.2, isValue⟩
  | record tag fields =>
      obtain ⟨field, isField, rfl⟩ := List.mem_map.mp isPart
      exact exists_plain_of_plain_record isPlain field isField
  | _ => cases isPart

/-- The plain form of a value that keeps its contents is made of their plain forms, apart from nulls that
are left out. -/
theorem mem_contents_of_kept (keeps : value.KeepsContents) (isPlain : plain value = .ok wire)
    (isPart : part ∈ value.contents) {own : Value} (isOwn : plain part = .ok own) :
    part = .null ∨ own ∈ wire.contents := by
  have ofItems {items : List Value} (isCollection : value.elements? = some items) :
      own ∈ wire.contents := by
    obtain ⟨wires, aligned, rfl⟩ := (plain_collection_eq_ok_iff isCollection).mp isPlain
    rw [Value.contents_of_elements isCollection] at isPart
    obtain ⟨other, isOther, isPlain⟩ := exists_right_of_mem aligned isPart
    rwa [Except.ok.inj (isOwn.symm.trans isPlain)]
  cases value with
  | list items | tuple items | set items | frozenset items => exact .inr (ofItems rfl)
  | object entries =>
      obtain ⟨entry, isEntry, isPart⟩ := Value.mem_contents_object.mp isPart
      obtain ⟨pairs, aligned, rfl⟩ := exists_pairs_of_kept keeps isPlain
      obtain ⟨pair, isPair, isKey, isValue, -⟩ := exists_right_of_mem aligned isEntry
      right
      apply Value.mem_contents_object.mpr
      rcases isPart with rfl | rfl
      · exact ⟨pair, isPair, .inl (Except.ok.inj (isOwn.symm.trans isKey))⟩
      · exact ⟨pair, isPair, .inr (Except.ok.inj (isOwn.symm.trans isValue))⟩
  | record tag fields =>
      obtain ⟨field, isField, rfl⟩ := List.mem_map.mp isPart
      obtain ⟨entries, aligned, rfl⟩ := exists_entries_of_kept keeps isPlain
      rcases eq_null_or_mem_written isField with isNull | isWritten
      · exact .inl isNull
      · obtain ⟨entry, isEntry, -, isPlain⟩ := exists_right_of_mem aligned isWritten
        have isMade := Value.mem_entriesOf (List.mem_cons_of_mem (typeKey, .str (tagName tag)) isEntry)
        rw [Except.ok.inj (isOwn.symm.trans isPlain)]
        exact .inr (Value.mem_contents_object.mpr ⟨_, isMade, .inr rfl⟩)
  | _ => cases isPart

/-- What a value with a plain form encloses has plain forms. Where the value keeps its contents
throughout, its plain form encloses those, apart from nulls that are left out. -/
theorem exists_plain_of_encloses (encloses : value.Encloses part) (isPlain : plain value = .ok wire) :
    ∃ own, plain part = .ok own ∧
      ((∀ inner, value.Encloses inner → inner.KeepsContents) → part = .null ∨ wire.Encloses own) := by
  induction encloses using Relation.ReflTransGen.head_induction_on generalizing wire with
  | refl => exact ⟨wire, isPlain, fun _ => .inr .refl⟩
  | head isContent encloses ih =>
      obtain ⟨between, isBetween⟩ := exists_plain_of_content isPlain isContent
      obtain ⟨own, isOwn, kept⟩ := ih isBetween
      refine ⟨own, isOwn, fun keeps => ?_⟩
      rcases mem_contents_of_kept (keeps _ .refl) isPlain isContent isBetween with rfl | isContentOf
      · -- Null has no parts.
        rcases Relation.ReflTransGen.cases_head encloses with rfl | ⟨_, isPart, -⟩
        · exact .inl rfl
        · cases isPart
      · apply (kept fun inner encloses => keeps inner (.head isContent encloses)).imp_right
        exact .head isContentOf

/-- An instance that stands in a value with a plain form, at whatever depth, is shown by an object that
begins with the key of the tag. The plain form encloses that object, if none of the keys and fields of
the value, at any depth, takes the place of another one or of a tag. -/
theorem instances_shown (isPlain : plain value = .ok wire)
    (encloses : value.Encloses (cls.holding values)) :
    ∃ tag entries, plain (cls.holding values) = .ok (.ofFields ((typeKey, tag) :: entries)) ∧
      cls.ShownBy values ((typeKey, tag) :: entries) ∧
      ((∀ inner, value.Encloses inner → inner.KeepsContents) →
        wire.Encloses (.ofFields ((typeKey, tag) :: entries))) := by
  obtain ⟨own, isOwn, kept⟩ := exists_plain_of_encloses encloses isPlain
  obtain ⟨tag, entries, rfl, shownBy⟩ := exists_shownBy isOwn
  refine ⟨tag, entries, isOwn, shownBy, fun keeps => ?_⟩
  rcases kept keeps with isNull | encloses
  · cases isNull
  · exact encloses

/-- A class of memos: the body goes by another key, and the mark may be absent. -/
def memoClass : RecordClass :=
  ⟨.declared 0, "Memo", none, [.base],
    [⟨"body", some "text", .scalar .string, .required, none, .none⟩,
     ⟨"mark", none, .union [.scalar .int, .none], .default .null, none, .none⟩]⟩

def memo : Value := memoClass.holding [.str "Call back.", .null]

def memos : Value := .list [.object [(.date mayDay, memo)]]

/-- A memo in an object in a list is shown by what it is written as. -/
theorem memo_shown :
    ∃ wire, plain memos = .ok wire ∧ memos.Encloses memo ∧
      ∃ tag entries, plain memo = .ok (.ofFields ((typeKey, tag) :: entries)) ∧
        memoClass.ShownBy [.str "Call back.", .null] ((typeKey, tag) :: entries) ∧
        ((∀ inner, memos.Encloses inner → inner.KeepsContents) →
          wire.Encloses (.ofFields ((typeKey, tag) :: entries))) := by
  have isMemo : memo ∈ (Value.object [(.date mayDay, memo)]).contents :=
    List.mem_cons_of_mem _ List.mem_cons_self
  have encloses : memos.Encloses memo := .head List.mem_cons_self (.single isMemo)
  exact ⟨_, rfl, encloses, instances_shown rfl encloses⟩

/-- A class with a field that goes by the key of the tag. -/
def aliasedClass : RecordClass :=
  ⟨.declared 0, "Aliased", none, [.base],
    [⟨"kind", some typeKey, .scalar .string, .required, none, .none⟩]⟩

/-- A class of two fields that go by one key. -/
def twinClass : RecordClass :=
  ⟨.declared 1, "Twin", none, [.base],
    [⟨"a", some "x", .scalar .int, .required, none, .none⟩,
     ⟨"b", some "x", .scalar .int, .required, none, .none⟩]⟩

/-- The tag is written over by a field that goes by its key, and one field by another. -/
theorem names_written_over :
    plain (aliasedClass.holding [.str "zzz"]) = .ok (.ofFields [(typeKey, .str "zzz")]) ∧
      tagName aliasedClass.tag = "Aliased" ∧
      plain (twinClass.holding [.int 1, .int 1]) =
        .ok (.ofFields [(typeKey, .str "Twin"), ("x", .int 1)]) ∧
      (twinClass.shown [.int 1, .int 1]).length = 2 :=
  ⟨rfl, rfl, rfl, rfl⟩

end Plain

end TypedReply
