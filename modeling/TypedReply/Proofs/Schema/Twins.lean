import TypedReply.Proofs.Schema.Likeness

/-!
# Twins

Two nodes are twins, in schemas that differ in how structs are shared, if they stand alike to null and
their shapes are alike. Every way of building a node makes twins of twins. Twins need not have the same
keywords: a shared struct is a reference and one that is written out is not, so one of them is widened
by an alternative and the other in its type.
-/

namespace TypedReply

namespace Gemini

open Compile (IsCompiled saysNull acceptsNull nullNode)

/-- Nodes that stand alike to null and have alike shapes. -/
structure Twins (expand other : String → Outcome Value) (node twin : Value) : Prop where
  compiled : IsCompiled node ∧ IsCompiled twin
  schemas : IsSchema ["properties"] IsTextual node ∧ IsSchema ["properties"] IsTextual twin
  null : node = nullNode ∧ twin = nullNode ∨ saysNull node = false ∧ saysNull twin = false
  accepts : acceptsNull node = acceptsNull twin
  alike : Alike (shapeImage expand node) (shapeImage other twin)

/-- The shapes of the nodes in two tables are alike, name by name. -/
def AlikeTables (expand other : String → Outcome Value) (table twinTable : Fields) : Prop :=
  ∀ name, Option.Rel (fun sub found => Alike (shapeImage expand sub) (shapeImage other found))
    (table.get? name) (twinTable.get? name)

/-- What is compiled by a sound way of building meets the conditions of shaping. -/
abbrev textual : Compile.Permits Options.defaults [] (fun _ => True) IsTextual :=
  permits_isTextual _ _ _

section Twins

variable {expand other : String → Outcome Value}
variable (total : ∀ name, IsShape (expand name)) (otherTotal : ∀ name, IsShape (other name))
variable {fields others : Fields} {node twin : Value}

/-! ## Plain nodes -/

theorem saysNull_node (fields : Fields) :
    saysNull (Fields.node fields) = (fields.get? "type").any (·.isText "null") := by
  rw [saysNull, Fields.get?_node]

section

include total otherTotal

/-- The shapes of plain nodes that say the same are alike where those of the nodes in them are. -/
theorem alike_image
    (schemas : IsSchema ["properties"] IsTextual (Fields.node fields) ∧
      IsSchema ["properties"] IsTextual (Fields.node others))
    (plain : ∀ name ∈ ["$ref", "anyOf"], fields.get? name = none ∧ others.get? name = none)
    (same : ∀ name ∈ scalarKeywords, fields.get? name = others.get? name)
    (items : Option.Rel (fun sub found => Alike (shapeImage expand sub) (shapeImage other found))
      (fields.get? "items") (others.get? "items"))
    (properties : Option.Rel (fun value found => ∃ table otherTable, value = Fields.node table ∧
        found = Fields.node otherTable ∧ (table.map Prod.fst).Nodup ∧
        (otherTable.map Prod.fst).Nodup ∧ AlikeTables expand other table otherTable)
      (fields.get? "properties") (others.get? "properties")) :
    Alike (shapeImage expand (Fields.node fields)) (shapeImage other (Fields.node others)) := by
  have noReference := plain "$ref" (by simp)
  have noAlternatives := plain "anyOf" (by simp)
  obtain ⟨shaped, isImage, shapes⟩ := image_plain total schemas.1 noReference.1 noAlternatives.1
  obtain ⟨otherShaped, isOther, otherShapes⟩ :=
    image_plain otherTotal schemas.2 noReference.2 noAlternatives.2
  rw [isImage, isOther]
  exact alike_plain shapes otherShapes same items properties

/-- Plain nodes of one type that have alike shapes are twins. -/
theorem twins_plain
    (compiled : IsCompiled (Fields.node fields) ∧ IsCompiled (Fields.node others))
    (schemas : IsSchema ["properties"] IsTextual (Fields.node fields) ∧
      IsSchema ["properties"] IsTextual (Fields.node others))
    (plain : ∀ name ∈ ["$ref", "anyOf"], fields.get? name = none ∧ others.get? name = none)
    (null : fields = others ∧ Fields.node fields = nullNode ∨ saysNull (Fields.node fields) = false)
    (same : ∀ name ∈ scalarKeywords, fields.get? name = others.get? name)
    (items : Option.Rel (fun sub found => Alike (shapeImage expand sub) (shapeImage other found))
      (fields.get? "items") (others.get? "items"))
    (properties : Option.Rel (fun value found => ∃ table otherTable, value = Fields.node table ∧
        found = Fields.node otherTable ∧ (table.map Prod.fst).Nodup ∧
        (otherTable.map Prod.fst).Nodup ∧ AlikeTables expand other table otherTable)
      (fields.get? "properties") (others.get? "properties")) :
    Twins expand other (Fields.node fields) (Fields.node others) := by
  have sameType := same "type" (by decide)
  have noAlternatives := plain "anyOf" (by simp)
  refine ⟨compiled, schemas, ?_, ?_, alike_image total otherTotal schemas plain same items properties⟩
  · rcases null with ⟨rfl, isNull⟩ | unsaid
    · exact .inl ⟨isNull, isNull⟩
    · refine .inr ⟨unsaid, ?_⟩
      rwa [saysNull_node, ← sameType, ← saysNull_node]
  · simp only [acceptsNull, Fields.get?_node, sameType, noAlternatives.1, noAlternatives.2]

/-- A plain node without nodes in it is its own twin. -/
theorem twins_leaf (compiled : IsCompiled (Fields.node fields))
    (schema : IsSchema ["properties"] IsTextual (Fields.node fields))
    (null : Fields.node fields = nullNode ∨ saysNull (Fields.node fields) = false)
    (leaf : ∀ name ∈ ["$ref", "anyOf", "items", "properties"], fields.get? name = none) :
    Twins expand other (Fields.node fields) (Fields.node fields) := by
  simp only [List.forall_mem_cons] at leaf
  obtain ⟨noReference, noAlternatives, noItems, noProperties, -⟩ := leaf
  apply twins_plain total otherTotal ⟨compiled, compiled⟩ ⟨schema, schema⟩
  · simp [noReference, noAlternatives]
  · exact null.imp_left fun isNull => ⟨rfl, isNull⟩
  · exact fun _ _ => rfl
  · rw [noItems]
    exact .none
  · rw [noProperties]
    exact .none

theorem twins_scalarNode (kind : ScalarKind) :
    Twins expand other (Compile.scalarNode kind) (Compile.scalarNode kind) := by
  have leaf {fields : Fields} (isNode : Compile.scalarNode kind = Fields.node fields)
      (unsaid : saysNull (Fields.node fields) = false)
      (leaf : ∀ name ∈ ["$ref", "anyOf", "items", "properties"], fields.get? name = none) :
      Twins expand other (Compile.scalarNode kind) (Compile.scalarNode kind) := by
    rw [isNode]
    exact twins_leaf total otherTotal (isNode ▸ Compile.isCompiled_scalarNode kind)
      (isNode ▸ Compile.isSchema_scalarNode textual kind) (.inr unsaid) leaf
  cases kind <;> exact leaf rfl (by decide) (by simp [Fields.get?_cons])

theorem twins_enumNode (type : EnumType) :
    Twins expand other (Compile.enumNode type) (Compile.enumNode type) := by
  obtain ⟨kinds, choices, isNode⟩ := Compile.exists_enumNode type
  rw [isNode]
  exact twins_leaf total otherTotal (isNode ▸ Compile.isCompiled_enumNode type)
    (isNode ▸ Compile.isSchema_enumNode textual trivial)
    (.inr (isNode ▸ Compile.saysNull_enumNode type)) (by simp [Fields.get?_cons])

theorem twins_nullNode : Twins expand other nullNode nullNode :=
  twins_leaf total otherTotal Compile.isCompiled_nullNode (Compile.isSchema_typeNode textual "null")
    (.inl rfl) (by simp [Fields.get?_cons])

/-- Arrays of twins are twins. -/
theorem Twins.array (twins : Twins expand other node twin) :
    Twins expand other (Fields.node [("type", .str "array"), ("items", node)])
      (Fields.node [("type", .str "array"), ("items", twin)]) := by
  apply twins_plain total otherTotal
  · exact ⟨Compile.isCompiled_arrayNode node, Compile.isCompiled_arrayNode twin⟩
  · exact ⟨Compile.isSchema_arrayNode textual twins.schemas.1,
      Compile.isSchema_arrayNode textual twins.schemas.2⟩
  · simp [Fields.get?_cons]
  · exact .inr (by simp [saysNull_node, Fields.get?_cons, Value.isText_str])
  · simp [scalarKeywords, Fields.get?_cons]
  · simp only [Fields.get?_cons]
    exact .some twins.alike
  · simp only [Fields.get?_cons]
    exact .none

theorem Twins.map {key otherKey : Value} (twins : Twins expand other node twin) :
    Twins expand other (Compile.mapNode key node) (Compile.mapNode otherKey twin) := by
  apply twins_plain total otherTotal
  · exact ⟨Compile.isCompiled_mapNode key node, Compile.isCompiled_mapNode otherKey twin⟩
  · exact ⟨Compile.isSchema_mapNode textual twins.schemas.1,
      Compile.isSchema_mapNode textual twins.schemas.2⟩
  · simp [Fields.get?_cons]
  · exact .inr (by simp [saysNull_node, Fields.get?_cons, Value.isText_str])
  · simp [scalarKeywords, Fields.get?_cons]
  · simp only [Fields.get?_cons]
    exact .none
  · simp only [Fields.get?_cons]
    exact .none

/-! ## Widening -/

theorem Twins.nullable (twins : Twins expand other node twin) :
    Twins expand other (Compile.nullable node) (Compile.nullable twin) := by
  rcases twins.null with ⟨rfl, rfl⟩ | ⟨notNull, twinNotNull⟩
  · have widened : Compile.nullable nullNode =
        Fields.node [("type", .list [.str "null", .str "null"])] := rfl
    have isCompiled := Compile.isCompiled_nullNode
    rw [widened]
    exact twins_leaf total otherTotal (widened ▸ Compile.isCompiled_nullable isCompiled)
      (widened ▸ isSchema_nullable isCompiled twins.schemas.1)
      (.inr (widened ▸ Compile.saysNull_nullable isCompiled)) (by simp [Fields.get?_cons])
  · obtain ⟨compiled, twinCompiled⟩ := twins.compiled
    obtain ⟨schema, twinSchema⟩ := twins.schemas
    refine ⟨⟨Compile.isCompiled_nullable compiled, Compile.isCompiled_nullable twinCompiled⟩,
      ⟨isSchema_nullable compiled schema, isSchema_nullable twinCompiled twinSchema⟩,
      .inr ⟨Compile.saysNull_nullable compiled, Compile.saysNull_nullable twinCompiled⟩, ?_, ?_⟩
    · rw [Compile.acceptsNull_nullable compiled, Compile.acceptsNull_nullable twinCompiled]
    · obtain ⟨shaped, marked, isShaped, isMarked, distinct, isNullable, same⟩ :=
        image_nullable total compiled schema notNull
      obtain ⟨otherShaped, otherMarked, isOtherShaped, isOtherMarked, otherDistinct, otherNullable,
        otherSame⟩ := image_nullable otherTotal twinCompiled twinSchema twinNotNull
      have alike := twins.alike
      rw [isShaped, isOtherShaped] at alike
      rw [isMarked, isOtherMarked]
      refine alike.reworded distinct otherDistinct fun name _ => ?_
      by_cases isName : name = "nullable"
      · exact .inl (by rw [isName, isNullable, otherNullable])
      · exact .inr ⟨same name isName, otherSame name isName⟩

/-! ## Alternatives -/

omit total otherTotal in
theorem Twins.saysNull_eq (twins : Twins expand other node twin) : saysNull node = saysNull twin := by
  rcases twins.null with ⟨rfl, rfl⟩ | ⟨notNull, twinNotNull⟩
  · rfl
  · rw [notNull, twinNotNull]

omit total otherTotal in
theorem any_saysNull_eq {members twinMembers : List Value}
    (each : List.Forall₂ (Twins expand other) members twinMembers) :
    members.any saysNull = twinMembers.any saysNull := by
  have same := map_eq_of_aligned each fun _ _ _ twins => twins.saysNull_eq
  simpa using congrArg (fun flags : List Bool => flags.any id) same

theorem twins_anyOf {members twinMembers : List Value}
    (each : List.Forall₂ (Twins expand other) members twinMembers) :
    Twins expand other (Fields.node [("anyOf", .list members)])
      (Fields.node [("anyOf", .list twinMembers)]) := by
  obtain ⟨areSchemas, areTwinSchemas⟩ := forall_of_aligned each fun _ _ twins => twins.schemas
  have schema := Compile.isSchema_anyOfNode textual areSchemas
  have twinSchema := Compile.isSchema_anyOfNode textual areTwinSchemas
  have accepts (members : List Value) : acceptsNull (Fields.node [("anyOf", .list members)]) =
      members.any saysNull := by
    simp [acceptsNull, Fields.get?_cons, Value.items?]
    rfl
  have declares (members : List Value) :
      Fields.get? [("anyOf", .list members)] "anyOf" = some (.list members) := by
    rw [Fields.get?_cons, if_pos rfl]
  refine ⟨⟨Compile.isCompiled_anyOfNode _, Compile.isCompiled_anyOfNode _⟩, ⟨schema, twinSchema⟩,
    .inr ⟨?_, ?_⟩, ?_, ?_⟩
  · simp [saysNull_node, Fields.get?_cons]
  · simp [saysNull_node, Fields.get?_cons]
  · rw [accepts, accepts, any_saysNull_eq each]
  · obtain ⟨base, distinct, isBase, isImage⟩ :=
      image_alternatives total schema (by simp [Fields.get?_cons]) (declares members)
    obtain ⟨twinBase, twinDistinct, isTwinBase, isTwinImage⟩ :=
      image_alternatives otherTotal twinSchema (by simp [Fields.get?_cons]) (declares twinMembers)
    rw [isImage, isTwinImage, any_saysNull_eq each]
    refine Alike.noted (alike_base ?_ isBase isTwinBase) distinct twinDistinct _ _ _
    refine (List.rel_filter (fun _ _ twins => ?_) each).imp fun _ _ twins => twins.alike
    simp only [twins.saysNull_eq]

/-- The nodes of unions of twins are twins. -/
theorem twins_unionNode {members twinMembers : List Value}
    (each : List.Forall₂ (Twins expand other) members twinMembers) (nilable : Bool) :
    Twins expand other (Compile.unionNode nilable members)
      (Compile.unionNode nilable twinMembers) := by
  match each with
  | .nil => exact twins_nullNode total otherTotal
  | .cons single .nil =>
      cases nilable with
      | false => exact single
      | true => exact single.nullable total otherTotal
  | .cons first (.cons second rest) =>
      refine twins_anyOf total otherTotal ?_
      refine List.rel_append (.cons first (.cons second rest)) ?_
      cases nilable with
      | false => exact .nil
      | true => exact .cons (twins_nullNode total otherTotal) .nil

/-! ## Records -/

omit otherTotal in
/-- The shape of a field's node is that of the widened node, apart from its description. -/
theorem image_fieldNode (isCompiled : IsCompiled node)
    (schema : IsSchema ["properties"] IsTextual node) (required : Bool)
    (description : Option String) :
    ∃ shaped described,
      shapeImage expand (if !required && !acceptsNull node then Compile.nullable node else node) =
        Fields.node shaped ∧
      shapeImage expand (Compile.fieldNode required description node) = Fields.node described ∧
      (described.map Prod.fst).Nodup ∧
      ∀ name ≠ "description", described.get? name = shaped.get? name := by
  obtain ⟨fields, widened, described⟩ :=
    Compile.exists_fieldNode isCompiled required description
  have widenedSchema : IsSchema ["properties"] IsTextual (Fields.node fields) := by
    rw [widened]
    split
    · exact isSchema_nullable isCompiled schema
    · exact schema
  rw [← widened]
  rcases described with plain | ⟨text, described⟩
  · obtain ⟨shaped, distinct, isShape⟩ := exists_shape total widenedSchema
    have isImage : shapeImage expand (Fields.node fields) = Fields.node shaped := by
      rw [shapeImage, isShape]
    exact ⟨shaped, shaped, isImage, plain ▸ isImage, distinct, fun _ _ => rfl⟩
  · rw [described]
    exact image_described total widenedSchema text

/-- The nodes of two fields have one name, and alike shapes. -/
structure TwinFields (expand other : String → Outcome Value) (field twin : String × Value) :
    Prop where
  name : field.1 = twin.1
  schemas : IsSchema ["properties"] IsTextual field.2 ∧ IsSchema ["properties"] IsTextual twin.2
  alike : Alike (shapeImage expand field.2) (shapeImage other twin.2)

/-- Twins stay alike as the nodes of a field, whatever the field says of null. -/
theorem Twins.field (twins : Twins expand other node twin) (name : String) (required : Bool)
    (description : Option String) : TwinFields expand other
      (name, Compile.fieldNode required description node)
      (name, Compile.fieldNode required description twin) := by
  obtain ⟨compiled, twinCompiled⟩ := twins.compiled
  obtain ⟨schema, twinSchema⟩ := twins.schemas
  refine ⟨rfl, ⟨Compile.isSchema_fieldNode textual compiled schema required description,
    Compile.isSchema_fieldNode textual twinCompiled twinSchema required description⟩, ?_⟩
  have widened : Twins expand other
      (if !required && !acceptsNull node then Compile.nullable node else node)
      (if !required && !acceptsNull twin then Compile.nullable twin else twin) := by
    rw [twins.accepts]
    split
    · exact twins.nullable total otherTotal
    · exact twins
  obtain ⟨shaped, described, isShaped, isDescribed, distinct, same⟩ :=
    image_fieldNode total compiled schema required description
  obtain ⟨otherShaped, otherDescribed, isOtherShaped, isOtherDescribed, otherDistinct, otherSame⟩ :=
    image_fieldNode otherTotal twinCompiled twinSchema required description
  have alike := widened.alike
  rw [isShaped, isOtherShaped] at alike
  rw [isDescribed, isOtherDescribed]
  exact alike.reworded distinct otherDistinct fun name notDescription =>
    .inr ⟨same name notDescription, otherSame name notDescription⟩

theorem alike_tagNode (name : String) :
    Alike (shapeImage expand (Compile.tagNode name)) (shapeImage other (Compile.tagNode name)) := by
  have schema := Compile.isSchema_tagNode textual name
  apply alike_image total otherTotal ⟨schema, schema⟩
  · simp [Fields.get?_cons]
  · exact fun _ _ => rfl
  · simp only [Fields.get?_cons]
    exact .none
  · simp only [Fields.get?_cons]
    exact .none

end

/-- Putting the nodes of fields that are alike into alike tables leaves them alike. -/
theorem AlikeTables.putAll {table twinTable nodes twinNodes : Fields}
    (alike : AlikeTables expand other table twinTable)
    (each : List.Forall₂ (TwinFields expand other) nodes twinNodes) :
    AlikeTables expand other (table.putAll nodes) (twinTable.putAll twinNodes) := by
  induction each generalizing table twinTable with
  | nil => exact alike
  | @cons field twin rest twinRest twins _ ih =>
      have putOne : AlikeTables expand other (table.put field.1 field.2)
          (twinTable.put twin.1 twin.2) := by
        intro name
        rw [Fields.get?_put, Fields.get?_put, twins.name]
        split
        · exact .some twins.alike
        · exact alike name
      exact ih putOne

section

include total otherTotal

/-- Nodes that declare properties, and are closed and described in the same way, are twins where the
properties have alike shapes. -/
theorem twins_declaring {table twinTable rest : Fields} {required : Value}
    (isNode : node = Fields.node (("type", .str "object") :: ("properties", Fields.node table) ::
      ("required", required) :: rest))
    (isTwin : twin = Fields.node (("type", .str "object") :: ("properties", Fields.node twinTable) ::
      ("required", required) :: rest))
    (few : (rest.map Prod.fst).Sublist ["additionalProperties", "description"])
    (compiled : IsCompiled node ∧ IsCompiled twin)
    (schemas : IsSchema ["properties"] IsTextual node ∧ IsSchema ["properties"] IsTextual twin)
    (distinct : (table.map Prod.fst).Nodup) (twinDistinct : (twinTable.map Prod.fst).Nodup)
    (alike : AlikeTables expand other table twinTable) : Twins expand other node twin := by
  have absent (name : String) (other : name ∉ ["additionalProperties", "description"]) :
      Fields.get? rest name = none :=
    Fields.get?_eq_none_of_not_mem fun isName => other (few.subset isName)
  subst isNode isTwin
  apply twins_plain total otherTotal compiled schemas
  · simp [Fields.get?_cons, absent]
  · exact .inr (by simp [saysNull_node, Fields.get?_cons, Value.isText_str])
  · simp [scalarKeywords, Fields.get?_cons]
  · simp only [Fields.get?_cons, absent "items" (by decide)]
    exact .none
  · simp only [Fields.get?_cons]
    exact .some ⟨table, twinTable, rfl, rfl, distinct, twinDistinct, alike⟩

theorem alike_tagged (name : String) : AlikeTables expand other
    [(typeKey, Compile.tagNode name)] [(typeKey, Compile.tagNode name)] := by
  intro found
  by_cases isTag : found = typeKey
  · simp only [Fields.get?_cons, isTag, if_true]
    exact .some (alike_tagNode total otherTotal name)
  · simp only [Fields.get?_cons, isTag, if_false]
    exact .none

/-- Structs whose fields are twins are twins. -/
theorem twins_structNode (options : Options) (struct : Struct) {nodes twinNodes : Fields}
    (each : List.Forall₂ (TwinFields expand other) nodes twinNodes)
    (names : nodes.map Prod.fst = struct.fields.map (·.name)) :
    Twins expand other (Compile.structNode options struct nodes)
      (Compile.structNode options struct twinNodes) := by
  have twinNames := (map_eq_of_aligned each fun _ _ _ twins => twins.name).symm.trans names
  have permits := permits_isTextual options [] fun _ => True
  apply twins_declaring total otherTotal rfl rfl
  · split <;> simp
  · exact ⟨Compile.isCompiled_structNode options struct nodes,
      Compile.isCompiled_structNode options struct twinNodes⟩
  · obtain ⟨areSchemas, areTwinSchemas⟩ := forall_of_aligned each fun _ _ twins => twins.schemas
    exact ⟨Compile.isSchema_structNode permits struct names areSchemas,
      Compile.isSchema_structNode permits struct twinNames areTwinSchemas⟩
  · exact Fields.nodup_putAll (by simp) _
  · exact Fields.nodup_putAll (by simp) _
  · exact (alike_tagged total otherTotal struct.name).putAll each

/-- Fixed records whose fields are twins are twins. -/
theorem twins_recordNode (record : FixedRecord) {nodes twinNodes : Fields}
    (each : List.Forall₂ (TwinFields expand other) nodes twinNodes)
    (names : nodes.map Prod.fst = record.fields.map (·.name)) :
    Twins expand other
      (Compile.recordNode record.name record.description (record.fields.map (·.name)) nodes)
      (Compile.recordNode record.name record.description (record.fields.map (·.name)) twinNodes) := by
  have twinNames := (map_eq_of_aligned each fun _ _ _ twins => twins.name).symm.trans names
  obtain ⟨fields, name, cls, description⟩ := record
  apply twins_declaring total otherTotal rfl rfl
  · cases Compile.nonEmpty description <;> simp
  · exact ⟨Compile.isCompiled_recordNode _ _ _ nodes,
      Compile.isCompiled_recordNode _ _ _ twinNodes⟩
  · obtain ⟨areSchemas, areTwinSchemas⟩ := forall_of_aligned each fun _ _ twins => twins.schemas
    exact ⟨Compile.isSchema_recordNode textual ⟨fields, name, cls, description⟩ names areSchemas,
      Compile.isSchema_recordNode textual ⟨fields, name, cls, description⟩ twinNames
        areTwinSchemas⟩
  · exact Fields.nodup_putAll (by cases name <;> simp) _
  · exact Fields.nodup_putAll (by cases name <;> simp) _
  · cases name with
    | none => exact AlikeTables.putAll (fun _ => .none) each
    | some name => exact (alike_tagged total otherTotal name).putAll each

end

end Twins

end Gemini

end TypedReply
