import TypedReply.Proofs.Numeric.Magnitude
import TypedReply.Proofs.Schema.Validity
import TypedReply.Proofs.Value.Distinct
import TypedReply.Proofs.Value.Objects
import TypedReply.Proofs.Value.Parts

/-!
# Tame values

A value can be a key unless it is a list, a set, an object or an instance, or a tuple with such an
item. In tame values only what can be a key is one, is in a set or is carried by a member, which may
be taken for what it carries, and every integer is short enough to be written. Plain data of such
integers is tame.
-/

namespace TypedReply

namespace Value

mutual

/-- Every key in a value can be one, and so can all that is in sets and carried by members. Every integer
can be written. -/
def IsTame : Value → Prop
  | .int n => Numeral.IsShort n
  | .member _ _ carried => carried.unhashable? = none ∧ IsTame carried
  | .list items => AreTame items
  | .tuple items => AreTame items
  | .set items => AreKeys items
  | .frozenset items => AreKeys items
  | .object entries => EntriesTame entries
  | .record _ fields => FieldsTame fields
  | _ => True
termination_by structural value => value

/-- Values that are tame. -/
def AreTame : List Value → Prop
  | [] => True
  | item :: items => IsTame item ∧ AreTame items
termination_by structural items => items

/-- Tame values that can be keys. -/
def AreKeys : List Value → Prop
  | [] => True
  | item :: items => (item.unhashable? = none ∧ IsTame item) ∧ AreKeys items
termination_by structural items => items

/-- Entries of tame keys that can be keys, and tame values. -/
def EntriesTame : List (Value × Value) → Prop
  | [] => True
  | (key, value) :: entries =>
    ((key.unhashable? = none ∧ IsTame key) ∧ IsTame value) ∧ EntriesTame entries
termination_by structural entries => entries

/-- Fields of tame values. -/
def FieldsTame : List (FieldTag × Value) → Prop
  | [] => True
  | (_, value) :: fields => IsTame value ∧ FieldsTame fields
termination_by structural fields => fields

end

def IsKey (value : Value) : Prop := value.unhashable? = none ∧ value.IsTame

/-- A tame value, which can be a key where one is asked for. -/
def Serves (asKey : Bool) (value : Value) : Prop := if asKey then value.IsKey else value.IsTame

@[simp]
theorem serves_true {value : Value} : value.Serves true ↔ value.IsKey := Iff.rfl

@[simp]
theorem serves_false {value : Value} : value.Serves false ↔ value.IsTame := Iff.rfl

theorem IsKey.serves {value : Value} (isKey : value.IsKey) (asKey : Bool) : value.Serves asKey := by
  cases asKey with
  | false => exact isKey.2
  | true => exact isKey

theorem Serves.isTame {value : Value} {asKey : Bool} (serves : value.Serves asKey) :
    value.IsTame := by
  cases asKey with
  | false => exact serves
  | true => exact serves.2

theorem IsTame.serves_self {value : Value} (tame : value.IsTame) :
    value.Serves value.unhashable?.isNone := by
  cases hashable : value.unhashable? with
  | none => exact ⟨hashable, tame⟩
  | some typeName => exact tame

/-! ## Values with parts -/

theorem areTame_iff {items : List Value} : AreTame items ↔ ∀ item ∈ items, item.IsTame := by
  induction items with
  | nil => simp [AreTame]
  | cons item items ih => simp [AreTame, ih]

theorem areKeys_iff {items : List Value} : AreKeys items ↔ ∀ item ∈ items, item.IsKey := by
  induction items with
  | nil => simp [AreKeys]
  | cons item items ih => simp [AreKeys, IsKey, ih]

@[simp]
theorem isTame_list {items : List Value} :
    (list items).IsTame ↔ ∀ item ∈ items, item.IsTame := areTame_iff

@[simp]
theorem isTame_tuple {items : List Value} :
    (tuple items).IsTame ↔ ∀ item ∈ items, item.IsTame := areTame_iff

@[simp]
theorem isTame_set {items : List Value} :
    (set items).IsTame ↔ ∀ item ∈ items, item.IsKey := areKeys_iff

@[simp]
theorem isTame_frozenset {items : List Value} :
    (frozenset items).IsTame ↔ ∀ item ∈ items, item.IsKey := areKeys_iff

@[simp]
theorem isTame_object {entries : Entries} :
    (object entries).IsTame ↔ ∀ entry ∈ entries, entry.1.IsKey ∧ entry.2.IsTame := by
  change EntriesTame entries ↔ _
  induction entries with
  | nil => simp [EntriesTame]
  | cons entry entries ih => simp [EntriesTame, ih, IsKey]

@[simp]
theorem isTame_record {tag : RecordTag} {fields : List (FieldTag × Value)} :
    (record tag fields).IsTame ↔ ∀ field ∈ fields, field.2.IsTame := by
  change FieldsTame fields ↔ _
  induction fields with
  | nil => simp [FieldsTame]
  | cons field fields ih => simp [FieldsTame, ih]

@[simp]
theorem isTame_member {tag : EnumTag} {name : String} {carried : Value} :
    (member tag name carried).IsTame ↔ carried.IsKey := Iff.rfl

theorem isKey_null : null.IsKey := ⟨rfl, trivial⟩

theorem isKey_str (text : String) : (str text).IsKey := ⟨rfl, trivial⟩

@[simp]
theorem unhashable?_tuple {items : List Value} :
    (tuple items).unhashable? = none ↔ ∀ item ∈ items, item.unhashable? = none := by
  rw [unhashable?]
  induction items with
  | nil => simp [unhashableItem?]
  | cons item items ih => simp [unhashableItem?, ih]

theorem serves_tuple {asKey : Bool} {items : List Value} :
    (tuple items).Serves asKey ↔ ∀ item ∈ items, item.Serves asKey := by
  cases asKey with
  | false => simp
  | true => simp [IsKey, forall_and]

theorem Serves.iterated {value : Value} {asKey : Bool} (serves : value.Serves asKey) :
    ∀ item ∈ value.iterated, item.Serves asKey := by
  have unusable {typeName : String} (isList : value.unhashable? = some typeName) :
      value.IsTame ∧ asKey = false := by
    cases asKey with
    | false => exact ⟨serves, rfl⟩
    | true => exact absurd (isList.symm.trans serves.1) (by simp)
  cases value with
  | list items =>
      obtain ⟨tame, rfl⟩ := unusable rfl
      exact isTame_list.mp tame
  | tuple items => exact serves_tuple.mp serves
  | set items => exact fun item isItem => (isTame_set.mp serves.isTame item isItem).serves asKey
  | frozenset items =>
      exact fun item isItem => (isTame_frozenset.mp serves.isTame item isItem).serves asKey
  | record tag fields =>
      obtain ⟨tame, rfl⟩ := unusable rfl
      intro item isItem
      obtain ⟨field, isField, rfl⟩ := List.mem_map.mp isItem
      exact isTame_tuple.mpr (List.forall_mem_cons.mpr
        ⟨trivial, List.forall_mem_singleton.mpr (isTame_record.mp tame field isField)⟩)
  | _ => exact fun _ isItem => nomatch isItem

theorem IsTame.entries {value : Value} (tame : value.IsTame) {entries : Entries}
    (isObject : value.entries? = some entries) :
    ∀ entry ∈ entries, entry.1.IsKey ∧ entry.2.IsTame := by
  obtain rfl := entries?_eq_some_iff.mp isObject
  exact isTame_object.mp tame

/-- Pairs of keys and tame values, set one after another, make a tame object. -/
theorem isTame_ofPairs {pairs : List (Value × Value)}
    (each : ∀ pair ∈ pairs, pair.1.IsKey ∧ pair.2.IsTame) :
    (object (Entries.ofPairs pairs)).IsTame :=
  isTame_object.mpr (Entries.forall_mem_ofPairs each)

/-! ## Plain data -/

theorem IsJson.isTame {value : Value} (json : value.IsJson (10 ^ Numeral.maxDigits)) :
    value.IsTame := by
  induction json with
  | int _ short => exact short
  | list _ ih => exact isTame_list.mpr ih
  | object _ _ ih =>
      refine isTame_object.mpr fun entry isEntry => ?_
      obtain ⟨field, isField, rfl⟩ := List.mem_map.mp isEntry
      exact ⟨isKey_str _, ih field isField⟩
  | _ => trivial

end Value

end TypedReply
