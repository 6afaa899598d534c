import TypedReply.Proofs.Value.Distinct
import TypedReply.Reply.Read

/-!
# Keys that are read

Keys share a place in a map if they are equal or one choice. A key has a name only if it is a choice
that does not equal itself, so that keys without names share a place exactly if they are equal.
-/

namespace TypedReply

namespace Read

variable {registry : Registry} {descriptor : Descriptor} {raw value : Value}

/-- The key that a raw one is read as when its value is known: a choice, or otherwise. -/
def keyOf (registry : Registry) (descriptor : Descriptor) (raw value : Value) : ReadKey :=
  .of (!raw.isObject && picks (raw.toPart (read registry)) descriptor) value

/-- An entry is read by reading its key and its value. -/
theorem readEntry_toPart (key element : Descriptor) (path : Path) (entry : Value × Value) :
    readEntry key element path (entry.1.toPart (read registry), entry.2.toPart (read registry)) = (do
      let newKey ← readAt registry entry.1 key (path ++ [Path.key entry.1.display])
      let newValue ← readAt registry entry.2 element (path ++ [Path.key entry.1.display])
      match newKey.unhashable? with
      | some typeName => .fault (.unhashable typeName)
      | none => .ok (keyOf registry key entry.1 newKey, newValue)) := rfl

theorem keyOf_scalar (kind : ScalarKind) (raw value : Value) :
    keyOf registry (.scalar kind) raw value = ⟨value, none⟩ := by
  simp [keyOf, picks, ReadKey.of]

theorem keyOf_of_reflexive (reflexive : value.same value = true) :
    keyOf registry descriptor raw value = ⟨value, none⟩ := by
  simp [keyOf, ReadKey.of, reflexive]

variable {pairs : List (ReadKey × Value)}

/-- What holds of the keys and values that are read holds of the entries of their map. -/
theorem forall_mem_mapOf {isKey isValue : Value → Prop}
    (each : ∀ pair ∈ pairs, isKey pair.1.value ∧ isValue pair.2) :
    ∃ entries, mapOf pairs = .object entries ∧
      ∀ entry ∈ entries, isKey entry.1 ∧ isValue entry.2 :=
  ⟨_, rfl, List.forall_mem_map.mpr (@forall_mem_setAllBy _ _ ReadKey.same pairs (isKey ·.value)
    isValue each)⟩

theorem mapOf_of_nameless (nameless : ∀ pair ∈ pairs, pair.1.name = none) :
    mapOf pairs = .object (Value.Entries.ofPairs (pairs.map (Prod.map ReadKey.value id))) := by
  refine congrArg Value.object (setAllBy_map fun key isKey later _ => ?_)
  obtain ⟨pair, isPair, rfl⟩ := List.mem_map.mp isKey
  simp [ReadKey.same, nameless pair isPair]

theorem mapOf_nameless (pairs : List (Value × Value)) :
    mapOf (pairs.map (Prod.map (⟨·, none⟩) id)) = .object (Value.Entries.ofPairs pairs) := by
  rw [mapOf_of_nameless (List.forall_mem_map.mpr fun _ _ => rfl), List.map_map]
  exact congrArg (fun pairs => Value.object (Value.Entries.ofPairs pairs)) (List.map_id pairs)

end Read

end TypedReply
