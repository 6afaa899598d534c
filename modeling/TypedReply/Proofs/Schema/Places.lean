import TypedReply.Proofs.Schema.Inlining

/-!
# Places in a shape

A shape shows, at each of its positions, some node of the compiled schema or of a definition. Going
along both at once, one knows at each place which structs are written out around it and which names
are being expanded. The two differ: a struct that is written out where it is met is not expanded.
-/

namespace TypedReply

namespace Gemini

open Compile (saysNull)

/-! ## Shapes but for what is said of their places -/

/-- A value is a shape, but for whether it is nullable and how it is described. -/
def Agrees (shown shape : Value) : Prop :=
  ∀ name, name ≠ "nullable" ∧ name ≠ "description" → shown.get? name = shape.get? name

theorem Agrees.refl (shape : Value) : Agrees shape shape := fun _ _ => rfl

theorem Agrees.trans {first second third : Value} (agrees : Agrees first second)
    (agreesToo : Agrees second third) : Agrees first third :=
  fun name other => (agrees name other).trans (agreesToo name other)

theorem agrees_noted (nullable : Bool) (description : Option Value) (base : Fields) :
    Agrees (Fields.node (noted nullable description base)) (Fields.node base) := by
  intro name other
  rw [Fields.get?_node, Fields.get?_node, get?_noted_of_ne other]

/-- A reference is cut where only the bare object is shown for it. -/
def IsCut (shown : Value) : Prop := Agrees shown bareObject

/-! ## Places -/

/-- The struct whose body a node is: it is open, and its tag says the name. -/
def bodyOf (node : Value) : Option String :=
  if (node.get? "additionalProperties").isSome then none else tagOf node

/-- A node that stands directly in another, beside what shows it in the shape of the other: a
property, the items, the only alternative other than null, or one of several. -/
inductive Beside (node shown : Value) : Value → Value → Prop where
  | property {table shownTable : Value.Entries} {key inner innerShown : Value} {index : Nat}
      (noReference : node.get? "$ref" = none) (noAlternatives : node.get? "anyOf" = none)
      (declared : node.get? "properties" = some (.object table))
      (isInner : table[index]? = some (key, inner))
      (shownDeclared : shown.get? "properties" = some (.object shownTable))
      (isShown : shownTable[index]? = some (key, innerShown)) : Beside node shown inner innerShown
  | item {inner innerShown : Value}
      (noReference : node.get? "$ref" = none) (noAlternatives : node.get? "anyOf" = none)
      (found : node.get? "items" = some inner) (shownFound : shown.get? "items" = some innerShown) :
      Beside node shown inner innerShown
  | only {members : List Value} {single : Value}
      (noReference : node.get? "$ref" = none) (found : node.get? "anyOf" = some (.list members))
      (others : members.filter (!saysNull ·) = [single]) : Beside node shown single shown
  | alternative {members shownMembers : List Value} {inner innerShown : Value} {index : Nat}
      (noReference : node.get? "$ref" = none) (found : node.get? "anyOf" = some (.list members))
      (several : (members.filter (!saysNull ·)).length ≠ 1)
      (isInner : (members.filter (!saysNull ·))[index]? = some inner)
      (shownFound : shown.get? "anyOf" = some (.list shownMembers))
      (isShown : shownMembers[index]? = some innerShown) : Beside node shown inner innerShown

/-- A place in the shape of a compiled schema: the structs that are written out around it, the names
that are being expanded, the node there, and what is shown for it. -/
inductive Place (compiled : Compiled) (shaped : Value) :
    List String → List String → Value → Value → Prop where
  | root : Place compiled shaped [] ((tagOf compiled.schema).toList.filter compiled.definitions.has)
      compiled.schema shaped
  | inner {around expanding : List String} {node shown inner innerShown : Value}
      (place : Place compiled shaped around expanding node shown)
      (beside : Beside node shown inner innerShown) :
      Place compiled shaped ((bodyOf node).toList ++ around) expanding inner innerShown
  | definition {around expanding : List String} {node shown target : Value} {reference : String}
      (place : Place compiled shaped around expanding node shown)
      (isReference : node.get? "$ref" = some (.str reference))
      (defined : compiled.definitions.get? (Compile.refName reference) = some target)
      (free : Compile.refName reference ∉ expanding) :
      Place compiled shaped around (Compile.refName reference :: expanding) target shown

/-! ## What is shown at a place -/

/-- Several alternatives stand side by side in their base shape. -/
theorem IsBase.of_several {expand : String → Outcome Value} {others : List Value} {base : Fields}
    (isBase : IsBase expand others base) (several : others.length ≠ 1) :
    base = [("anyOf", .list (others.map (shapeImage expand)))] :=
  match others, isBase, several with
  | [_], _, several => absurd rfl several
  | [], isSeveral, _ => isSeveral
  | _ :: _ :: _, isSeveral, _ => isSeveral

variable {expand : String → Outcome Value} {node shown inner innerShown : Value}

/-- What stands in a node is shown by its own shape, where the shape of the node is shown. -/
theorem Beside.agrees (total : ∀ name, IsShape (expand name))
    (isSchema : IsSchema ["properties"] IsTextual node)
    (agrees : Agrees shown (shapeImage expand node))
    (beside : Beside node shown inner innerShown) :
    IsSchema ["properties"] IsTextual inner ∧ Agrees innerShown (shapeImage expand inner) := by
  obtain ⟨fields, rfl⟩ := isSchema.exists_fields
  cases beside with
  | property noReference noAlternatives declared isInner shownDeclared isShown =>
      simp only [Fields.get?_node] at noReference noAlternatives declared
      obtain ⟨shaped, image, shapes⟩ := image_plain total isSchema noReference noAlternatives
      obtain ⟨table, isTable, each⟩ := isSchema.table (List.mem_singleton_self _) declared
      cases isTable
      obtain ⟨⟨name, found⟩, isEntry, same⟩ := List.mem_map.mp (List.mem_of_getElem? isInner)
      cases same
      rw [agrees _ (by decide), image, Fields.get?_node, shapes.properties, declared]
        at shownDeclared
      cases shownDeclared
      change (List.map _ (Value.entriesOf table))[_]? = _ at isShown
      change (Value.entriesOf table)[_]? = _ at isInner
      rw [List.getElem?_map, isInner] at isShown
      cases isShown
      exact ⟨each _ isEntry, .refl _⟩
  | item noReference noAlternatives found shownFound =>
      simp only [Fields.get?_node] at noReference noAlternatives found
      obtain ⟨shaped, image, shapes⟩ := image_plain total isSchema noReference noAlternatives
      rw [agrees _ (by decide), image, Fields.get?_node, shapes.items, found] at shownFound
      obtain rfl := Option.some.inj shownFound
      exact ⟨isSchema.item found, .refl _⟩
  | only noReference found others =>
      simp only [Fields.get?_node] at noReference found
      obtain ⟨base, -, isBase, image⟩ := image_alternatives total isSchema noReference found
      obtain ⟨_, isList, each⟩ := isSchema.members found
      cases isList
      rw [others] at isBase
      rw [image] at agrees
      refine ⟨each inner (List.mem_of_mem_filter (p := (!saysNull ·)) (by simp [others])), ?_⟩
      exact isBase ▸ agrees.trans (agrees_noted _ _ base)
  | alternative noReference found several isInner shownFound isShown =>
      simp only [Fields.get?_node] at noReference found
      obtain ⟨base, -, isBase, image⟩ := image_alternatives total isSchema noReference found
      obtain ⟨_, isList, each⟩ := isSchema.members found
      cases isList
      refine ⟨each inner (List.mem_of_mem_filter (List.mem_of_getElem? isInner)), ?_⟩
      rw [agrees _ (by decide), image, Fields.get?_node, get?_noted_of_ne (by decide),
        isBase.of_several several] at shownFound
      simp only [Fields.get?_cons, if_true, Option.some.injEq, Value.list.injEq] at shownFound
      rw [← shownFound, List.getElem?_map, isInner] at isShown
      exact Option.some.inj isShown ▸ .refl _

/-- A property of a plain node is shown under its name. -/
theorem beside_property (total : ∀ name, IsShape (expand name))
    (isSchema : IsSchema ["properties"] IsTextual node)
    (agrees : Agrees shown (shapeImage expand node)) (noReference : node.get? "$ref" = none)
    (noAlternatives : node.get? "anyOf" = none) {table : Fields} {name : String}
    (declared : node.get? "properties" = some (Fields.node table))
    (found : table.get? name = some inner) :
    Beside node shown inner (shapeImage expand inner) ∧
      (shown.get? "properties").bind (·.get? name) = some (shapeImage expand inner) := by
  obtain ⟨fields, rfl⟩ := isSchema.exists_fields
  have isPlain := noReference
  have isSingle := noAlternatives
  have isDeclared := declared
  rw [Fields.get?_node] at isPlain isSingle isDeclared
  obtain ⟨shaped, image, shapes⟩ := image_plain total isSchema isPlain isSingle
  have shownDeclared : shown.get? "properties" =
      some (Fields.node (table.mapped fun _ => shapeImage expand)) := by
    rw [agrees _ (by decide), image, Fields.get?_node, shapes.properties, isDeclared,
      Option.map_some, shapedTable]
  obtain ⟨index, isEntry⟩ := List.mem_iff_getElem?.mp (Fields.mem_of_get? found)
  have isInner : (Value.entriesOf table)[index]? = some (.str name, inner) := by
    rw [Value.entriesOf, List.getElem?_map, isEntry]
    rfl
  have isShown : (Value.entriesOf (table.mapped fun _ => shapeImage expand))[index]? =
      some (.str name, shapeImage expand inner) := by
    rw [Value.entriesOf, Fields.mapped, List.map_map, List.getElem?_map, isEntry]
    rfl
  refine ⟨.property noReference noAlternatives declared isInner shownDeclared isShown, ?_⟩
  rw [shownDeclared, Option.bind_some, Fields.get?_node, Fields.get?_mapped, found, Option.map_some]

section Places

variable {compiled : Compiled} {shaped : Value} {around expanding : List String}
variable (isSchema : IsSchema ["properties"] IsTextual compiled.schema)
variable (schemas : ∀ name target, compiled.definitions.get? name = some target →
  IsSchema ["properties"] IsTextual target)

theorem isShape_replacement {definitions : Value.Entries}
    (schemas : ∀ name target, definitions.get? name = some target →
      IsSchema ["properties"] IsTextual target) (expanding : List String) (name : String) :
    IsShape (replacement definitions expanding name) := by
  rw [← expansion_eq_replacement (length_pending_le definitions expanding)]
  exact isShape_expansion schemas _ _ _

/-- A reference that can be expanded has the shape of its definition. -/
theorem image_reference (node : Fields) {reference : String} {target : Value}
    (isReference : node.get? "$ref" = some (.str reference))
    (defined : compiled.definitions.get? (Compile.refName reference) = some target)
    (free : Compile.refName reference ∉ expanding) :
    shapeImage (replacement compiled.definitions expanding) (Fields.node node) =
      shapeImage (replacement compiled.definitions (Compile.refName reference :: expanding))
        target := by
  have notInside : ¬expanding.contains (Compile.refName reference) = true := by simpa using free
  rw [shapeImage, shapeWith_reference isReference, replacement, defined]
  simp only [if_neg notInside, inlined_eq]
  rfl

/-- Any other reference has the shape of the bare object. -/
theorem image_reference_of_cut (node : Fields) {reference : String}
    (isReference : node.get? "$ref" = some (.str reference))
    (isBare : compiled.definitions.get? (Compile.refName reference) = none ∨
      Compile.refName reference ∈ expanding) :
    shapeImage (replacement compiled.definitions expanding) (Fields.node node) = bareObject := by
  rw [shapeImage, shapeWith_reference isReference, replacement]
  cases found : compiled.definitions.get? (Compile.refName reference) with
  | none => rfl
  | some target =>
      have inside : expanding.contains (Compile.refName reference) = true := by
        simpa [found] using isBare
      simp only [if_pos inside]

include isSchema schemas

/-- At every place stands a schema, and its shape while the names there are expanded is shown. -/
theorem Place.agrees (shapes : ofCompiled compiled = .ok shaped)
    (place : Place compiled shaped around expanding node shown) :
    IsSchema ["properties"] IsTextual node ∧
      Agrees shown (shapeImage (replacement compiled.definitions expanding) node) := by
  induction place with
  | root =>
      have bound := (length_pending_le compiled.definitions
        ((tagOf compiled.schema).toList.filter compiled.definitions.has)).trans (Nat.le_succ _)
      rw [ofCompiled_eq isSchema schemas, expansion_eq_replacement bound] at shapes
      exact ⟨isSchema, Except.ok.inj shapes ▸ .refl _⟩
  | inner _ beside ih => exact beside.agrees (isShape_replacement schemas _) ih.1 ih.2
  | definition _ isReference defined free ih =>
      obtain ⟨fields, rfl⟩ := ih.1.exists_fields
      rw [Fields.get?_node] at isReference
      rw [image_reference fields isReference defined free] at ih
      exact ⟨schemas _ _ defined, ih.2⟩

/-! ## Positions -/

omit isSchema schemas in
theorem IsCut.not_child {sub : Value} (isCut : IsCut shown) :
    ¬Value.Child ["properties"] shown sub := by
  intro isChild
  cases isChild with
  | entry isTable found =>
      obtain rfl := List.mem_singleton.mp isTable
      cases (isCut _ (by decide)).symm.trans found
  | inside isKeyword found =>
      rcases isKeyword with rfl | rfl <;> cases (isCut _ (by decide)).symm.trans found
  | member found => cases (isCut _ (by decide)).symm.trans found

omit isSchema schemas in
/-- What stands in the shape of several alternatives shows one of them. -/
theorem exists_alternative (total : ∀ name, IsShape (expand name))
    (isNode : IsSchema ["properties"] IsTextual node)
    (agrees : Agrees shown (shapeImage expand node)) (noReference : node.get? "$ref" = none)
    {members : List Value} (alternatives : node.get? "anyOf" = some (.list members))
    (several : (members.filter (!saysNull ·)).length ≠ 1)
    (isChild : Value.Child ["properties"] shown innerShown) :
    ∃ inner, Beside node shown inner innerShown := by
  obtain ⟨fields, rfl⟩ := isNode.exists_fields
  obtain ⟨base, -, isBase, image⟩ :=
    image_alternatives total isNode (by simpa using noReference) (by simpa using alternatives)
  have agrees := agrees.trans (image ▸ agrees_noted _ _ base)
  rw [isBase.of_several several] at agrees
  cases isChild with
  | entry isTable found =>
      obtain rfl := List.mem_singleton.mp isTable
      cases (agrees _ (by decide)).symm.trans found
  | inside isKeyword found =>
      rcases isKeyword with rfl | rfl <;> cases (agrees _ (by decide)).symm.trans found
  | member found isMember =>
      have shownFound := found
      cases (agrees _ (by decide)).symm.trans found
      obtain ⟨index, isShown⟩ := List.mem_iff_getElem?.mp isMember
      have isInner := isShown
      rw [List.getElem?_map, Option.map_eq_some_iff] at isInner
      obtain ⟨inner, isInner, -⟩ := isInner
      exact ⟨inner, .alternative noReference alternatives several isInner shownFound isShown⟩

omit isSchema schemas in
/-- What stands in the shape of a plain node shows one of its properties or its items. -/
theorem exists_part (total : ∀ name, IsShape (expand name))
    (isNode : IsSchema ["properties"] IsTextual node)
    (agrees : Agrees shown (shapeImage expand node)) (noReference : node.get? "$ref" = none)
    (noAlternatives : node.get? "anyOf" = none)
    (isChild : Value.Child ["properties"] shown innerShown) :
    ∃ inner, Beside node shown inner innerShown := by
  obtain ⟨fields, rfl⟩ := isNode.exists_fields
  obtain ⟨shaped, image, shapes⟩ :=
    image_plain total isNode (by simpa using noReference) (by simpa using noAlternatives)
  rw [image] at agrees
  have absent {name : String} (other : name ∉ plainKeywords) : shown.get? name = none := by
    have apart : name ≠ "nullable" ∧ name ≠ "description" := by
      constructor <;> exact ne_of_mem_of_not_mem (by decide) other |>.symm
    rw [agrees name apart, Fields.get?_node, shapes.get?_of_not_mem other]
  cases isChild with
  | entry isTable found isEntry =>
      obtain rfl := List.mem_singleton.mp isTable
      have shownFound := found
      rw [agrees _ (by decide), Fields.get?_node, shapes.properties] at found
      obtain ⟨value, declared, isTabled⟩ := Option.map_eq_some_iff.mp found
      obtain ⟨table, rfl, -⟩ := isNode.table (List.mem_singleton_self _) declared
      cases isTabled
      obtain ⟨index, isShown⟩ := List.mem_iff_getElem?.mp isEntry
      have isInner := isShown
      rw [List.getElem?_map, Option.map_eq_some_iff] at isInner
      obtain ⟨⟨key, inner⟩, isInner, rfl⟩ := isInner
      exact ⟨inner, .property noReference noAlternatives
        ((Fields.get?_node fields _).trans declared) isInner shownFound isShown⟩
  | inside isKeyword found =>
      rcases isKeyword with rfl | rfl
      · have shownFound := found
        rw [agrees _ (by decide), Fields.get?_node, shapes.items] at found
        obtain ⟨inner, isInner, -⟩ := Option.map_eq_some_iff.mp found
        exact ⟨inner, .item noReference noAlternatives (by simpa using isInner) shownFound⟩
      · rw [absent (by decide)] at found
        cases found
  | member found =>
      rw [absent (by decide)] at found
      cases found

theorem Place.exists_of_child (shapes : ofCompiled compiled = .ok shaped)
    (place : Place compiled shaped around expanding node shown)
    (isChild : Value.Child ["properties"] shown innerShown) :
    ∃ around expanding inner, Place compiled shaped around expanding inner innerShown := by
  -- The node may be a reference or a single alternative: the descent goes on until it is neither.
  have descent : ∀ call : List String × Value, ∀ around,
      Place compiled shaped around call.1 call.2 shown →
        ∃ around expanding inner, Place compiled shaped around expanding inner innerShown := by
    intro call
    induction call using (wellFounded_calls compiled.definitions).induction with
    | _ call ih =>
      intro around place
      obtain ⟨expanding, node⟩ := call
      obtain ⟨isNode, agrees⟩ := place.agrees isSchema schemas shapes
      obtain ⟨fields, rfl⟩ := isNode.exists_fields
      cases isReference : fields.get? "$ref" with
      | some value =>
          obtain ⟨reference, rfl⟩ := isNode.meets.reference value isReference
          have refers : (Fields.node fields).get? "$ref" = some (.str reference) := by
            simpa using isReference
          by_cases isBare : compiled.definitions.get? (Compile.refName reference) = none ∨
              Compile.refName reference ∈ expanding
          · rw [image_reference_of_cut fields isReference isBare] at agrees
            exact (IsCut.not_child agrees isChild).elim
          · obtain ⟨defined, free⟩ := not_or.mp isBare
            obtain ⟨target, defined⟩ := Option.ne_none_iff_exists'.mp defined
            exact ih _ (.definition refers defined free) around
              (.definition place refers defined free)
      | none =>
          have noReference : (Fields.node fields).get? "$ref" = none := by simpa using isReference
          have total := isShape_replacement schemas expanding
          cases alternatives : (Fields.node fields).get? "anyOf" with
          | none =>
              obtain ⟨inner, beside⟩ :=
                exists_part total isNode agrees noReference alternatives isChild
              exact ⟨_, _, inner, place.inner beside⟩
          | some value =>
              obtain ⟨members, rfl, -⟩ := isNode.members (by simpa using alternatives)
              by_cases isOne : (members.filter (!saysNull ·)).length = 1
              · obtain ⟨member, others⟩ := List.length_eq_one_iff.mp isOne
                have isMember := List.mem_of_mem_filter (p := (!saysNull ·))
                  (others ▸ List.mem_singleton_self member)
                exact ih _ (.part (.member alternatives isMember)) _
                  (place.inner (.only noReference alternatives others))
              · obtain ⟨inner, beside⟩ :=
                  exists_alternative total isNode agrees noReference alternatives isOne isChild
                exact ⟨_, _, inner, place.inner beside⟩
  exact descent (expanding, node) around place

/-- Every schema that stands in the shape is shown at some place. -/
theorem exists_place (shapes : ofCompiled compiled = .ok shaped)
    (reaches : Relation.ReflTransGen (Value.Child ["properties"]) shaped shown) :
    ∃ around expanding node, Place compiled shaped around expanding node shown := by
  induction reaches with
  | refl => exact ⟨_, _, _, .root⟩
  | tail _ isChild ih =>
      obtain ⟨_, _, _, place⟩ := ih
      exact place.exists_of_child isSchema schemas shapes isChild

end Places

end Gemini

end TypedReply
