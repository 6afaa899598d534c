import TypedReply.Json.Text
import TypedReply.Proofs.Value.Distinct
import TypedReply.Proofs.Value.Objects
import Mathlib.Logic.Relation

/-!
# Plain data

Plain data is null, Booleans, numbers and texts, lists of plain data, and objects that hold plain data
under different scalar keys. All of it has a JSON text. Other values are made of parts as well: a value
encloses its items, its keys and values and the values of its fields, and whatever these enclose.
-/

namespace TypedReply

namespace Value

/-! ## Plain data -/

/-- Null, a Boolean, a number or a text. -/
def IsScalar : Value → Prop
  | .null => True
  | .bool _ => True
  | .int _ => True
  | .float _ => True
  | .str _ => True
  | _ => False

/-- A scalar, a list of plain data, or an object with different scalar keys and plain data under
them. -/
inductive IsPlainData : Value → Prop where
  | scalar {value : Value} (isScalar : value.IsScalar) : IsPlainData value
  | list {items : List Value} (each : ∀ item ∈ items, IsPlainData item) : IsPlainData (.list items)
  | object {entries : Entries} (apart : Apart entries.keys)
      (keys : ∀ entry ∈ entries, entry.1.IsScalar) (each : ∀ entry ∈ entries, IsPlainData entry.2) :
      IsPlainData (.object entries)

variable {value : Value}

theorem IsScalar.unhashable? (isScalar : value.IsScalar) : value.unhashable? = none := by
  cases value <;> first | rfl | exact isScalar.elim

theorem IsPlainData.item {items : List Value} (isPlainData : (Value.list items).IsPlainData) :
    ∀ item ∈ items, item.IsPlainData := by
  cases isPlainData with
  | scalar isScalar => exact isScalar.elim
  | list each => exact each

theorem IsPlainData.entry {entries : Entries} (isPlainData : (Value.object entries).IsPlainData) :
    ∀ entry ∈ entries, entry.1.IsScalar ∧ entry.2.IsPlainData := by
  cases isPlainData with
  | scalar isScalar => exact isScalar.elim
  | object apart keys each => exact fun entry isEntry => ⟨keys entry isEntry, each entry isEntry⟩

theorem mem_entriesOf {fields : Fields} {field : String × Value} (isField : field ∈ fields) :
    (.str field.1, field.2) ∈ entriesOf fields := List.mem_map.mpr ⟨field, isField, rfl⟩

theorem apart_texts {names : List String} (distinct : names.Nodup) : Apart (names.map .str) := by
  apply List.pairwise_map.mpr
  apply distinct.imp
  intro name other different
  simpa [same, sameScalar, number?, integer?, text?] using different

theorem isPlainData_ofFields {fields : Fields} (distinct : (fields.map Prod.fst).Nodup)
    (each : ∀ field ∈ fields, field.2.IsPlainData) : (ofFields fields).IsPlainData := by
  apply IsPlainData.object
  · show Apart (Entries.keys (entriesOf fields))
    rw [keys_entriesOf]
    exact apart_texts distinct
  · exact List.forall_mem_map.mpr fun _ _ => trivial
  · exact List.forall_mem_map.mpr each

/-- Pairs of scalar keys and plain data, set one after another, are plain data. -/
theorem isPlainData_ofPairs {pairs : List (Value × Value)}
    (each : ∀ pair ∈ pairs, pair.1.IsScalar ∧ pair.2.IsPlainData) :
    (object (Entries.ofPairs pairs)).IsPlainData := by
  have entries := Entries.forall_mem_ofPairs each
  apply IsPlainData.object
  · rw [Entries.keys_ofPairs]
    exact apart_distinct _
  · exact fun entry isEntry => (entries entry isEntry).1
  · exact fun entry isEntry => (entries entry isEntry).2

/-! ## Parts at any depth -/

/-- The items of a collection. -/
def elements? : Value → Option (List Value)
  | .list items => some items
  | .tuple items => some items
  | .set items => some items
  | .frozenset items => some items
  | _ => none

/-- The items of a collection, the keys and values of an object, or the values of an instance's
fields. What a member carries is no part of it. -/
def contents : Value → List Value
  | .object entries => entries.flatMap fun entry => [entry.1, entry.2]
  | .record _ fields => fields.map Prod.snd
  | value => value.elements?.getD []

/-- One value is the other, or a part of it at some depth. -/
def Encloses : Value → Value → Prop := Relation.ReflTransGen fun whole part => part ∈ whole.contents

theorem mem_contents_object {entries : Entries} {part : Value} :
    part ∈ (object entries).contents ↔ ∃ entry ∈ entries, part = entry.1 ∨ part = entry.2 := by
  simp [contents]

theorem contents_of_elements {items : List Value} (isCollection : value.elements? = some items) :
    value.contents = items := by
  cases value <;> cases isCollection <;> rfl

theorem sizeOf_lt_of_mem_contents {part : Value} (isPart : part ∈ value.contents) :
    sizeOf part < sizeOf value := by
  cases value with
  | object entries =>
      obtain ⟨⟨key, held⟩, isEntry, isPart⟩ := mem_contents_object.mp isPart
      have smaller := List.sizeOf_lt_of_mem isEntry
      simp only [Prod.mk.sizeOf_spec] at smaller
      rcases isPart with rfl | rfl <;> simp <;> omega
  | record tag fields =>
      obtain ⟨⟨name, held⟩, isField, rfl⟩ := List.mem_map.mp isPart
      have smaller := List.sizeOf_lt_of_mem isField
      simp only [Prod.mk.sizeOf_spec] at smaller
      simp
      omega
  | list items | tuple items | set items | frozenset items =>
      have smaller := List.sizeOf_lt_of_mem (show part ∈ items from isPart)
      simp
      omega
  | _ => cases isPart

/-- What holds of a value whenever it holds of what the value is made of holds of all values. -/
@[elab_as_elim]
theorem induction_contents {motive : Value → Prop}
    (step : ∀ value, (∀ part ∈ value.contents, motive part) → motive value) (value : Value) :
    motive value := by
  induction size : sizeOf value using Nat.strongRecOn generalizing value with
  | ind size ih =>
      subst size
      apply step
      intro part isPart
      exact ih _ (sizeOf_lt_of_mem_contents isPart) part rfl

end Value

/-! ## JSON texts -/

namespace Json

theorem writeItems_eq_mapM (style : Style) (depth : Nat) (items : List Value) :
    writeItems style depth items = items.mapM (write style depth) := by
  induction items with
  | nil => rfl
  | cons item rest ih =>
      rw [writeItems, ih, List.mapM_cons]
      rfl

theorem writeEntries_eq_map (style : Style) (depth : Nat) (entries : Value.Entries) :
    writeEntries style depth entries = entries.map fun entry =>
      (entry.1, write style depth entry.2) := by
  induction entries with
  | nil => rfl
  | cons entry rest ih => rw [writeEntries, ih, List.map_cons]

theorem exists_keyText {key : Value} (isScalar : key.IsScalar) : ∃ text, keyText key = .ok text := by
  cases key <;> first | exact ⟨_, rfl⟩ | exact isScalar.elim

theorem exists_write {value : Value} (isPlainData : value.IsPlainData) {style : Style}
    (unsorted : style.sortKeys = false) (depth : Nat) : ∃ text, write style depth value = .ok text := by
  induction isPlainData generalizing depth with
  | @scalar value isScalar => cases value <;> first | exact ⟨_, rfl⟩ | exact isScalar.elim
  | list each ih =>
      obtain ⟨texts, aligned⟩ := exists_aligned fun item isItem => ih item isItem (depth + 1)
      rw [write, writeItems_eq_mapM, mapM_eq_ok_iff.mpr aligned]
      exact ⟨_, rfl⟩
  | @object entries apart keys each ih =>
      have exists_part (entry) (isEntry : entry ∈ entries) : ∃ part : List Char,
          (do .ok ((← keyText entry.1) ++ style.colon ++ (← write style (depth + 1) entry.2))) =
            (.ok part : Outcome (List Char)) := by
        obtain ⟨key, isKey⟩ := exists_keyText (keys entry isEntry)
        obtain ⟨body, isBody⟩ := ih entry isEntry (depth + 1)
        rw [isKey, isBody]
        exact ⟨_, rfl⟩
      obtain ⟨parts, aligned⟩ := exists_aligned exists_part
      refine ⟨style.enclose depth '\x7b' '\x7d' parts, ?_⟩
      simp only [write, unsorted, writeEntries_eq_map]
      apply bind_eq_ok_iff.mpr
      refine ⟨_, rfl, bind_eq_ok_iff.mpr ⟨parts, ?_, rfl⟩⟩
      rw [mapM_eq_ok_iff, List.forall₂_map_left_iff]
      exact aligned

theorem exists_text {value : Value} (isPlainData : value.IsPlainData) {style : Style}
    (unsorted : style.sortKeys = false) : ∃ written, text style value = .ok written := by
  obtain ⟨written, isWritten⟩ := exists_write isPlainData unsorted 0
  rw [text, isWritten]
  exact ⟨_, rfl⟩

end Json

end TypedReply
