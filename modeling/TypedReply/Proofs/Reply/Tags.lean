import TypedReply.Proofs.Reply.Blame
import TypedReply.Proofs.Reply.Comparison
import TypedReply.Reference.Library

/-!
# Tagged replies

A tag names a record wherever the record stands among the members of a union. So a reply whose objects
are tagged where the members of a union are permuted is read as before, or refused as before.
-/

namespace TypedReply

open Read Descriptor

/-- The readings of one value against a descriptor and a reordered form of it. -/
def reordering (registry other : Registry) (permuted : List Descriptor → Prop)
    (corresponds : StructId → StructId → Prop) : Comparison where
  registry := registry
  other := other
  permuted := permuted
  corresponds := corresponds
  faults := True
  like value twin := value = twin
  gives value twin := value = twin
  keyed _ := True

variable {registry other : Registry} {permuted : List Descriptor → Prop}
variable {corresponds : StructId → StructId → Prop}

/-- Entries are read alike where their keys and values are. -/
theorem accord_readEntry {key element otherKey otherElement : Descriptor} {entry : Value × Value}
    (isKey : (reordering registry other permuted corresponds).AccordsAt entry.1 entry.1 key otherKey)
    (isValue : (reordering registry other permuted corresponds).AccordsAt entry.2 entry.2 element
      otherElement)
    (picked : entry.1.isObject = false →
      (reordering registry other permuted corresponds).PicksAlike entry.1 entry.1 key otherKey)
    (path : Path) :
    Accord True (fun pair twin => pair = twin)
      (readEntry key element path
        (Value.toPart (Read.read registry) entry.1, Value.toPart (Read.read registry) entry.2))
      (readEntry otherKey otherElement path
        (Value.toPart (Read.read other) entry.1, Value.toPart (Read.read other) entry.2)) := by
  rw [readEntry_toPart, readEntry_toPart]
  apply (isKey (path ++ [Path.key entry.1.display])).bind
  rintro newKey _ rfl
  apply (isValue (path ++ [Path.key entry.1.display])).bind
  rintro newValue _ rfl
  have sameKey : keyOf registry key entry.1 newKey = keyOf other otherKey entry.1 newKey := by
    unfold keyOf
    cases isObject : entry.1.isObject with
    | true => rw [Bool.not_true, Bool.false_and, Bool.false_and]
    | false => exact congrArg (fun isPicked => ReadKey.of isPicked newKey) (picked isObject)
  rw [sameKey]
  cases newKey.unhashable? with
  | none => exact .returned rfl
  | some typeName => exact .escaped trivial rfl rfl

/-- Readings of one value can be compared. -/
theorem reordering_isFair
    (tagUnions : ∀ members, permuted members → IsTagUnion registry.structs members)
    (correspond : Store.Correspond permuted corresponds registry.structs other.structs) :
    (reordering registry other permuted corresponds).IsFair where
  tagUnions := tagUnions
  correspond := correspond
  same := by
    rintro value _ rfl
    exact .refl value
  items := by
    rintro value _ rfl
    cases value.items? with
    | none => exact .none
    | some items => exact .some (List.forall₂_same.mpr fun item _ => rfl)
  get? := by
    rintro value _ rfl name
    cases value.get? name with
    | none => exact .none
    | some part => exact .some rfl
  scalar _ _ _ _ _ := .inr trivial
  kept isLike := isLike
  refl _ := rfl
  lists := by
    intro values others each
    exact congrArg Value.list (List.forall₂_eq_eq_eq ▸ each)
  records := by
    intro pairs others each
    have same : List.Forall₂ (· = ·) pairs others := by
      apply each.imp
      rintro ⟨key, value⟩ ⟨otherKey, otherValue⟩ ⟨name, rfl, rfl, rfl⟩
      rfl
    rw [List.forall₂_eq_eq_eq] at same
    exact congrArg (fun pairs => Value.object (Value.Entries.ofPairs pairs)) same
  maps := by
    intro entries others key element otherKey otherElement isLike _ _ keys picked values path
    cases isLike
    rw [readAt_eq, readAt_eq, Read.read, Read.read]
    have accords : Accord True (List.Forall₂ fun pair twin => pair = twin)
        (((Value.object entries).parts (Read.read registry)).entries.mapM
          (readEntry key element path))
        (((Value.object entries).parts (Read.read other)).entries.mapM
          (readEntry otherKey otherElement path)) := by
      apply Accord.mapM
      rw [Value.parts, Value.parts, List.forall₂_map_left_iff, List.forall₂_map_right_iff,
        List.forall₂_same]
      intro entry isEntry
      exact accord_readEntry (keys entry isEntry _ rfl) (values entry isEntry _ rfl)
        (picked entry isEntry _ rfl) path
    apply accords.map
    intro pairs others same
    rw [List.forall₂_eq_eq_eq] at same
    exact congrArg mapOf same

/-- A reply in which every object that comes to a union whose members are permuted has a tag is read as
the same value against a descriptor and a reordered form of it, or refused by both. Only unions of
records with names of their own, and null perhaps, are permuted, and no record has a class. -/
theorem tagged_reply_read_in_any_order
    (tagUnions : ∀ members, permuted members → IsTagUnion registry.structs members)
    (correspond : Store.Correspond permuted corresponds registry.structs other.structs)
    {descriptor reordered : Descriptor} (reorders : Reorders permuted corresponds descriptor reordered)
    (classless : descriptor.IsClassless registry.structs) {raw : Value}
    (tagged : ∀ members part, permuted members →
      ReachesUnion registry descriptor raw members part → part.isObject = true →
        isTagged part = true) :
    (∃ value, read registry raw descriptor = .ok value ∧ read other raw reordered = .ok value) ∨
      ∃ failure failed, read registry raw descriptor = .error failure ∧
        read other raw reordered = .error failed ∧ failure.isReply = failed.isReply := by
  have compares : (reordering registry other permuted corresponds).Compares raw descriptor
      reordered := by
    refine ⟨reorders, fun found reaches => ?_, tagged⟩
    exact ⟨classless found reaches, fun _ _ => trivial, fun _ _ _ => trivial⟩
  have accords := Comparison.agrees (reordering_isFair tagUnions correspond) raw raw rfl descriptor
    reordered compares []
  cases accords.cases_of_accord with
  | inl returned =>
      obtain ⟨value, _, reads, otherReads, rfl⟩ := returned
      exact .inl ⟨value, reads, otherReads⟩
  | inr failed => exact .inr failed

/-! ### Sums -/

/-- Every object in a value has a tag. -/
inductive Value.IsTaggedThroughout : Value → Prop where
  | parts {value : Value} (here : value.isObject = true → isTagged value = true)
      (items : ∀ item ∈ value.iterated, IsTaggedThroughout item)
      (keys : ∀ entries, value.entries? = some entries → ∀ entry ∈ entries,
        IsTaggedThroughout entry.1)
      (values : ∀ entries, value.entries? = some entries → ∀ entry ∈ entries,
        IsTaggedThroughout entry.2) : IsTaggedThroughout value

namespace Value.IsTaggedThroughout

variable {value : Value}

theorem here (tagged : value.IsTaggedThroughout) :
    value.isObject = true → Read.isTagged value = true := by
  cases tagged with
  | parts here => exact here

/-- What is under a name in a value whose objects have tags is such a value. -/
theorem part (tagged : value.IsTaggedThroughout) {entries : Value.Entries} {name : String}
    (isObject : value.entries? = some entries) {held : Value}
    (isHeld : entries.get? name = some held) : held.IsTaggedThroughout := by
  cases tagged with
  | parts _ _ _ values =>
      obtain ⟨key, isEntry⟩ := Value.Entries.exists_mem_of_get? isHeld
      exact values entries isObject _ isEntry

theorem next (tagged : value.IsTaggedThroughout) {descriptor next : Descriptor} {held : Value}
    (isNext : ReadsNext registry (descriptor, value) (next, held)) : held.IsTaggedThroughout := by
  cases isNext with
  | item isList isItem =>
      cases tagged with
      | parts _ items => exact items held (Value.iterated_of_items? isList ▸ isItem)
  | key isEntry =>
      cases tagged with
      | parts _ _ keys => exact keys _ rfl _ isEntry
  | value isEntry =>
      cases tagged with
      | parts _ _ _ values => exact values _ rfl _ isEntry
  | inner => exact tagged
  | member => exact tagged
  | field _ isPart => exact tagged.part rfl isPart

theorem reachesUnion (tagged : value.IsTaggedThroughout) {descriptor : Descriptor}
    {members : List Descriptor} {held : Value}
    (reaches : ReachesUnion registry descriptor value members held) :
    held.isObject = true → Read.isTagged held = true := by
  have reached {next : Descriptor × Value}
      (reaches : Relation.ReflTransGen (ReadsNext registry) (descriptor, value) next) :
      next.2.IsTaggedThroughout := by
    induction reaches with
    | refl => exact tagged
    | tail _ isNext known => exact known.next isNext
  cases reaches with
  | read reaches => exact (reached reaches).here
  | payload reaches _ _ isPart => exact ((reached reaches).part rfl isPart).here

theorem of_plain (noItems : value.iterated = []) (plain : value.entries? = none) :
    value.IsTaggedThroughout := by
  have noEntries {entries : Value.Entries} : value.entries? ≠ some entries := by
    rw [plain]
    exact nofun
  refine .parts ?_ (noItems ▸ List.forall_mem_nil _) (fun _ isObject => absurd isObject noEntries)
    fun _ isObject => absurd isObject noEntries
  intro isObject
  rw [Value.isObject, plain] at isObject
  cases isObject

theorem of_fields {fields : Fields} (tagged : (fields.get? typeKey).isSome = true)
    (each : ∀ field ∈ fields, field.2.IsTaggedThroughout) :
    (Value.ofFields fields).IsTaggedThroughout := by
  constructor
  · intro _
    rwa [Read.isTagged, Value.get?_ofFields]
  · exact List.forall_mem_nil _
  · intro entries isObject entry isEntry
    cases isObject
    obtain ⟨field, -, rfl⟩ := List.mem_map.mp isEntry
    exact .of_plain rfl rfl
  · intro entries isObject entry isEntry
    cases isObject
    obtain ⟨field, isField, rfl⟩ := List.mem_map.mp isEntry
    exact each field isField

end Value.IsTaggedThroughout

/-- Literals and sums, each side of a sum being either; the operator of a sum precedes its sides. -/
def sums (left right : List Descriptor) : Registry := { Registry.empty with structs :=
  [⟨"Literal", none, [⟨"value", .scalar .int, true, none, none⟩], none⟩,
    ⟨"Sum", none, [⟨"operator", .scalar .string, true, none, none⟩,
      ⟨"left", .union left, true, none, none⟩,
      ⟨"right", .union right, true, none, none⟩], none⟩] }

def literal (value : Int) : Value := .ofFields [("_type", .str "Literal"), ("value", .int value)]

/-- A sum whose operator is called like a literal. -/
def sumOf (left right : Value) : Value :=
  .ofFields [("_type", .str "Sum"), ("operator", .str "literal"), ("left", left), ("right", right)]

theorem literal_isTaggedThroughout (value : Int) : (literal value).IsTaggedThroughout := by
  apply Value.IsTaggedThroughout.of_fields rfl
  simp only [List.forall_mem_cons]
  exact ⟨.of_plain rfl rfl, .of_plain rfl rfl, List.forall_mem_nil _⟩

theorem sumOf_isTaggedThroughout {left right : Value} (isLeft : left.IsTaggedThroughout)
    (isRight : right.IsTaggedThroughout) : (sumOf left right).IsTaggedThroughout := by
  apply Value.IsTaggedThroughout.of_fields rfl
  simp only [List.forall_mem_cons]
  exact ⟨.of_plain rfl rfl, .of_plain rfl rfl, isLeft, isRight, List.forall_mem_nil _⟩

def sides : List Descriptor := [.struct 0, .struct 1]

/-- The sides of a sum, which may lack the right one. -/
def sidesOrNull : List Descriptor := [.struct 0, .struct 1, .null]

def sumsInOrder : Registry := sums sides sidesOrNull

def sumsInReverse : Registry := sums sides.reverse sidesOrNull.reverse

theorem sides_isTagUnion : IsTagUnion sumsInOrder.structs sides ∧
    IsTagUnion sumsInOrder.structs sidesOrNull :=
  ⟨⟨["Literal", "Sum"], by decide, rfl⟩, ⟨["Literal", "Sum"], by decide, rfl⟩⟩

theorem reorders_reverse {members : List Descriptor} (isPermuted : permuted members) :
    Reorders permuted (· = ·) (.union members) (.union members.reverse) :=
  .permuted isPermuted (List.reverse_perm members).symm
    (List.forall₂_same.mpr fun member _ => .refl member)

theorem sums_correspond : Store.Correspond (IsTagUnion sumsInOrder.structs) (· = ·)
    sumsInOrder.structs sumsInReverse.structs := by
  rintro id _ rfl
  match id with
  | 0 => exact ⟨rfl, rfl, .cons (.type (.refl _)) .nil⟩
  | 1 =>
      refine ⟨rfl, rfl, .cons (.type (.refl _)) (.cons (.type ?_) (.cons (.type ?_) .nil))⟩
      · exact reorders_reverse sides_isTagUnion.1
      · exact reorders_reverse sides_isTagUnion.2
  | _ + 2 => exact ⟨rfl, rfl, .nil⟩

def sumDescriptors : List Descriptor :=
  [.struct 1, .struct 0, .null, .scalar .int, .scalar .string, .union sides, .union sidesOrNull]

theorem sums_isClassless : (Descriptor.struct 1).IsClassless sumsInOrder.structs := by
  refine @Throughout.of_list _ _ _ sumDescriptors ?_ ?_ List.mem_cons_self
  · simp [sumDescriptors, sumsInOrder, sums, sides, sidesOrNull, Descriptor.parts, Descriptor.fields,
      Store.at]
  · simp [sumDescriptors, sumsInOrder, sums, Descriptor.record?, Store.at, Struct.view]

/-- A sum of sums is read as the same value in either order, though the field before the left side
always names a literal. -/
theorem sumOf_read_in_any_order :
    let raw := sumOf (sumOf (literal 1) (literal 2)) (sumOf (literal 3) .null)
    (Reorders (IsTagUnion sumsInOrder.structs) (· = ·) (.struct 1) (.struct 1) ∧
      Store.Correspond (IsTagUnion sumsInOrder.structs) (· = ·) sumsInOrder.structs
        sumsInReverse.structs ∧
      (Descriptor.struct 1).IsClassless sumsInOrder.structs ∧ raw.IsTaggedThroughout) ∧
    ∃ value, read sumsInOrder raw (.struct 1) = .ok value ∧
      read sumsInReverse raw (.struct 1) = .ok value := by
  intro raw
  have reorders : Reorders (IsTagUnion sumsInOrder.structs) (· = ·) (.struct 1) (.struct 1) :=
    .struct rfl
  have isTagged : raw.IsTaggedThroughout := by
    have isNull : Value.null.IsTaggedThroughout := .of_plain rfl rfl
    apply sumOf_isTaggedThroughout
    · apply sumOf_isTaggedThroughout <;> exact literal_isTaggedThroughout _
    · exact sumOf_isTaggedThroughout (literal_isTaggedThroughout 3) isNull
  refine ⟨⟨reorders, sums_correspond, sums_isClassless, isTagged⟩, ?_⟩
  cases tagged_reply_read_in_any_order (fun _ isUnion => isUnion) sums_correspond reorders
    sums_isClassless (fun _ _ _ reaches => isTagged.reachesUnion reaches) with
  | inl reads => exact reads
  | inr fails =>
      obtain ⟨failure, _, refuses, -⟩ := fails
      have reads : (read sumsInOrder raw (.struct 1)).isOk = true := by decide +kernel
      rw [refuses] at reads
      cases reads

end TypedReply
