import TypedReply.Proofs.Schema.Narrowing

/-!
# Documents

The document of a compiled schema is its root with the definitions mounted in it. Unless their key
is a keyword it is a schema itself, in which the definitions are one more table: what holds of every
node that is built holds wherever a schema stands in it.
-/

namespace TypedReply

variable {tables : List String} {condition : Fields → Prop}

theorem IsSchema.child {schema sub : Value} (isSchema : IsSchema tables condition schema)
    (isChild : schema.Child tables sub) : sub = .bool false ∨ IsSchema tables condition sub := by
  cases isSchema with
  | node fields _ _ isTable inTable items additional isList among =>
      cases isChild with
      | entry hasTable found isListed =>
          rw [Fields.get?_node] at found
          obtain ⟨table, isNode⟩ := isTable _ hasTable _ found
          cases isNode
          obtain ⟨entry, isEntry, rfl⟩ := List.mem_map.mp isListed
          exact .inr (inTable _ hasTable table found entry isEntry)
      | inside isKeyword found =>
          rw [Fields.get?_node] at found
          rcases isKeyword with rfl | rfl
          · exact .inr (items _ found)
          · exact or_iff_not_imp_left.mpr (additional _ found)
      | member found isMember =>
          rw [Fields.get?_node] at found
          exact .inr (among _ found _ isMember)

/-- What stands in a schema at any depth is a schema, or admits nothing. -/
theorem IsSchema.reaches {schema sub : Value} (isSchema : IsSchema tables condition schema)
    (reaches : Relation.ReflTransGen (Value.Child tables) schema sub) :
    sub = .bool false ∨ IsSchema tables condition sub := by
  induction reaches with
  | refl => exact .inr isSchema
  | tail _ isChild ih =>
      rcases ih with rfl | isSchema
      · cases isChild with
        | entry _ found | inside _ found | member found => cases found
      · exact isSchema.child isChild

variable {options : Options} {store : Store} {target : Descriptor} {compiled : Compiled}

/-- The document of a compiled schema is a schema whose tables are the properties and the
definitions. Its nodes meet every condition that the nodes that are built do, and that mounting
definitions keeps. -/
theorem isSchema_document (compiles : compile options store target = .ok compiled)
    (free : options.defsKey ∉ emittedKeywords)
    (permits : Compile.Permits options store (Descriptor.Reaches store target) condition)
    (mounts : ∀ {fields} definitions, condition fields →
      condition (fields.put options.defsKey definitions)) :
    IsSchema ["properties", options.defsKey] condition (compiled.document none) := by
  obtain ⟨⟨-, isSchema⟩, definitions, areDefinitions, -, each⟩ := Compile.good_of_compile
    (Compile.builds_isSchema (fun reaches isPart => reaches.tail isPart) permits) compiles
  obtain ⟨_, -, isCompiled⟩ := Compile.exists_pass_of_compile compiles
  obtain ⟨fields, isNode⟩ := isSchema.exists_fields
  have isKey : compiled.defsKey = options.defsKey := congrArg Compiled.defsKey isCompiled
  obtain ⟨root, table, key⟩ := compiled
  simp only at isNode areDefinitions isKey isSchema
  subst isNode areDefinitions isKey
  rw [document_eq_mounted]
  refine isSchema_mounted_of_meets free isSchema (fun entry isEntry => (each entry isEntry).1) ?_
  unfold mounted
  split
  · exact isSchema.meets
  · exact mounts _ isSchema.meets

end TypedReply
