import TypedReply.Proofs.Schema.Shaping
import TypedReply.Proofs.Value.KeyOrder

/-!
# Alike shapes

Two shapes are alike if nothing but descriptions and the order of keys tells them apart. The shapes of
two nodes are alike where the nodes have the same keywords and the shapes of the nodes in them are
alike; widening both by null, or describing either, keeps them alike.
-/

namespace TypedReply

namespace Gemini

open Value (SameUpToOrder rel_map rel_refl)
open Compile (saysNull)

/-- A shape without the descriptions of its nodes. -/
def undescribed (shape : Value) : Value :=
  shape.rebuilt ["properties"] (Value.Entries.erase · "description")

/-- What stands under a keyword of a shape, without descriptions. -/
def undescribedPart (keyword : String) (value : Value) : Value :=
  value.rebuiltPart ["properties"] (Value.Entries.erase · "description") keyword

/-- Nothing but descriptions and the order of keys tells two shapes apart. -/
def Alike (shape other : Value) : Prop := (undescribed shape).SameUpToOrder (undescribed other)

variable {fields others shaped otherShaped : Fields}

theorem Alike.refl (shape : Value) : Alike shape shape := SameUpToOrder.refl _

theorem undescribed_node (fields : Fields) : undescribed (Fields.node fields) =
    Fields.node ((fields.mapped undescribedPart).filter fun field => field.1 != "description") := by
  rw [undescribed, Value.rebuilt_node, erase_entriesOf]
  rfl

theorem get?_undescribed (fields : Fields) (name : String) :
    Fields.get? ((fields.mapped undescribedPart).filter fun field => field.1 != "description") name =
      if name = "description" then none else (fields.get? name).map (undescribedPart name) := by
  rw [Fields.get?_filter_ne, Fields.get?_mapped]

/-- What alike shapes hold under a keyword is the same without descriptions. -/
theorem Alike.get? (alike : Alike (Fields.node fields) (Fields.node others)) {name : String}
    (notDescription : name ≠ "description") :
    Option.Rel SameUpToOrder ((fields.get? name).map (undescribedPart name))
      ((others.get? name).map (undescribedPart name)) := by
  rw [Alike, undescribed_node, undescribed_node] at alike
  simpa only [get?_undescribed, if_neg notDescription] using SameUpToOrder.get? alike name

/-- Shapes are alike that hold the same without descriptions under every keyword. -/
theorem alike_node (distinct : (fields.map Prod.fst).Nodup)
    (othersDistinct : (others.map Prod.fst).Nodup)
    (each : ∀ name ≠ "description", Option.Rel SameUpToOrder
      ((fields.get? name).map (undescribedPart name))
      ((others.get? name).map (undescribedPart name))) :
    Alike (Fields.node fields) (Fields.node others) := by
  have nodup {fields : Fields} (distinct : (fields.map Prod.fst).Nodup) :
      (((fields.mapped undescribedPart).filter fun field => field.1 != "description").map
        Prod.fst).Nodup := by
    refine (List.Sublist.map _ List.filter_sublist).nodup ?_
    rwa [Fields.map_fst_mapped]
  rw [Alike, undescribed_node, undescribed_node]
  refine .object (nodup distinct) (nodup othersDistinct) fun name => ?_
  rw [get?_undescribed, get?_undescribed]
  split
  · exact .none
  next notDescription => exact each name notDescription

/-- Alike shapes stay alike when they are worded otherwise in the same way. -/
theorem Alike.reworded (alike : Alike (Fields.node fields) (Fields.node others))
    (distinct : (shaped.map Prod.fst).Nodup) (othersDistinct : (otherShaped.map Prod.fst).Nodup)
    (same : ∀ name ≠ "description", shaped.get? name = otherShaped.get? name ∨
      shaped.get? name = fields.get? name ∧ otherShaped.get? name = others.get? name) :
    Alike (Fields.node shaped) (Fields.node otherShaped) := by
  refine alike_node distinct othersDistinct fun name notDescription => ?_
  rcases same name notDescription with same | ⟨isFirst, isSecond⟩
  · rw [same]
    exact rel_refl _
  · rw [isFirst, isSecond]
    exact alike.get? notDescription

/-- Tables of shapes are the same without descriptions where the shapes in them are alike. -/
theorem same_table {table others : Fields} (distinct : (table.map Prod.fst).Nodup)
    (othersDistinct : (others.map Prod.fst).Nodup)
    (each : ∀ name, Option.Rel Alike (table.get? name) (others.get? name)) :
    SameUpToOrder (undescribedPart "properties" (Fields.node table))
      (undescribedPart "properties" (Fields.node others)) := by
  have part (table : Fields) : undescribedPart "properties" (Fields.node table) =
      Fields.node (table.mapped fun _ => undescribed) := by
    rw [undescribedPart, Value.rebuiltPart_of_table (List.mem_singleton_self _),
      Value.rebuiltTable_node]
    rfl
  rw [part, part]
  apply SameUpToOrder.object
  · rwa [Fields.map_fst_mapped]
  · rwa [Fields.map_fst_mapped]
  · intro name
    rw [Fields.get?_mapped, Fields.get?_mapped]
    exact rel_map (f := undescribed) (g := undescribed) (fun _ _ alike => alike) (each name)

theorem alike_anyOf {members others : List Value} (each : List.Forall₂ Alike members others) :
    Alike (Fields.node [("anyOf", .list members)]) (Fields.node [("anyOf", .list others)]) := by
  have part (members : List Value) : undescribedPart "anyOf" (.list members) =
      .list (members.map undescribed) := by
    rw [undescribedPart, Value.rebuiltPart_of_members (by simp), Value.rebuiltMembers_list]
    rfl
  refine alike_node (by simp) (by simp) fun name _ => ?_
  by_cases isMembers : name = "anyOf"
  · simp only [isMembers, Fields.get?_cons, if_true, Option.map_some, part]
    exact .some (.list (List.forall₂_map_left_iff.mpr (List.forall₂_map_right_iff.mpr each)))
  · simp only [Fields.get?_cons, isMembers, if_false]
    exact .none

/-! ## Plain nodes -/

def plainKeywords : List String :=
  ["type", "nullable", "description", "format", "enum", "properties", "required", "items"]

/-- What a plain node requires, with its type, constant, choices and format. -/
def scalarKeywords : List String := ["type", "const", "enum", "format", "required"]

theorem ShapesTo.get?_of_not_mem {image : Value → Value} (shapes : ShapesTo image fields shaped)
    {name : String} (unknown : name ∉ plainKeywords) : shaped.get? name = none :=
  Fields.get?_eq_none_of_not_mem fun isName => unknown (shapes.known name isName)

/-- What is kept of two plain nodes is the same under the keywords that do not come from what tells
the nodes apart, their types and descriptions. -/
theorem ShapesTo.get?_eq {image : Value → Value} (shapes : ShapesTo image fields shaped)
    (otherShapes : ShapesTo image others otherShaped)
    (same : ∀ name, name ≠ "type" → name ≠ "description" → others.get? name = fields.get? name)
    {name : String} (notType : name ≠ "type") (notNullable : name ≠ "nullable")
    (notDescription : name ≠ "description") : otherShaped.get? name = shaped.get? name := by
  by_cases isKeyword : name ∈ plainKeywords
  · simp only [plainKeywords, List.mem_cons, notType, notNullable, notDescription, false_or, or_false,
      List.not_mem_nil] at isKeyword
    rcases isKeyword with rfl | rfl | rfl | rfl | rfl
    · rw [otherShapes.format, shapes.format, same _ notType notDescription]
    · rw [otherShapes.enum, shapes.enum, same "const" (by decide) (by decide),
        same _ notType notDescription]
    · rw [otherShapes.properties, shapes.properties, same _ notType notDescription]
    · rw [otherShapes.required, shapes.required, same "properties" (by decide) (by decide),
        same _ notType notDescription]
    · rw [otherShapes.items, shapes.items, same _ notType notDescription]
  · rw [otherShapes.get?_of_not_mem isKeyword, shapes.get?_of_not_mem isKeyword]

/-- What is kept of two plain nodes is the same under the keywords that do not hold nodes, where what
the nodes say there is the same and either declares properties if the other does. -/
theorem ShapesTo.get?_eq_of_scalar {image otherImage : Value → Value}
    (shapes : ShapesTo image fields shaped) (otherShapes : ShapesTo otherImage others otherShaped)
    (same : ∀ name ∈ scalarKeywords, fields.get? name = others.get? name)
    (declaring : (fields.get? "properties").isSome = (others.get? "properties").isSome)
    {name : String} (notDescription : name ≠ "description") (notProperties : name ≠ "properties")
    (notItems : name ≠ "items") : shaped.get? name = otherShaped.get? name := by
  by_cases isKeyword : name ∈ plainKeywords
  · simp only [scalarKeywords, List.forall_mem_cons] at same
    obtain ⟨sameType, sameConstant, sameEnum, sameFormat, sameRequired, -⟩ := same
    simp only [plainKeywords, List.mem_cons, notDescription, notProperties, notItems, false_or,
      or_false, List.not_mem_nil] at isKeyword
    rcases isKeyword with rfl | rfl | rfl | rfl | rfl
    · rw [shapes.type, otherShapes.type, sameType]
    · rw [shapes.nullable, otherShapes.nullable, sameType]
    · rw [shapes.format, otherShapes.format, sameFormat]
    · rw [shapes.enum, otherShapes.enum, sameConstant, sameEnum]
    · rw [shapes.required, otherShapes.required, declaring, sameRequired]
  · rw [shapes.get?_of_not_mem isKeyword, otherShapes.get?_of_not_mem isKeyword]

/-- The shapes of plain nodes are alike where the nodes say the same, and the shapes of the nodes in
them are alike. -/
theorem alike_plain {image otherImage : Value → Value} (shapes : ShapesTo image fields shaped)
    (otherShapes : ShapesTo otherImage others otherShaped)
    (same : ∀ name ∈ scalarKeywords, fields.get? name = others.get? name)
    (items : Option.Rel (fun sub other => Alike (image sub) (otherImage other))
      (fields.get? "items") (others.get? "items"))
    (properties : Option.Rel (fun value other => ∃ table otherTable, value = Fields.node table ∧
        other = Fields.node otherTable ∧ (table.map Prod.fst).Nodup ∧
        (otherTable.map Prod.fst).Nodup ∧
        ∀ name, Option.Rel (fun sub other => Alike (image sub) (otherImage other))
          (table.get? name) (otherTable.get? name))
      (fields.get? "properties") (others.get? "properties")) :
    Alike (Fields.node shaped) (Fields.node otherShaped) := by
  refine alike_node shapes.distinct otherShapes.distinct fun name notDescription => ?_
  by_cases isProperties : name = "properties"
  · rw [isProperties, shapes.properties, otherShapes.properties, Option.map_map, Option.map_map]
    refine rel_map ?_ properties
    rintro _ _ ⟨table, otherTable, rfl, rfl, distinct, othersDistinct, each⟩
    rw [Function.comp, Function.comp, shapedTable, shapedTable]
    apply same_table
    · rwa [Fields.map_fst_mapped]
    · rwa [Fields.map_fst_mapped]
    · intro name
      rw [Fields.get?_mapped, Fields.get?_mapped]
      exact rel_map (f := image) (g := otherImage) (fun _ _ alike => alike) (each name)
  by_cases isItems : name = "items"
  · have part (value : Value) : undescribedPart "items" value = undescribed value :=
      Value.rebuiltPart_of_inside (by simp) (.inl rfl) value
    rw [isItems, shapes.items, otherShapes.items, Option.map_map, Option.map_map]
    refine rel_map (f := undescribedPart "items" ∘ image) (g := undescribedPart "items" ∘ otherImage)
      (fun sub other alike => ?_) items
    rw [Function.comp, Function.comp, part, part]
    exact alike
  have declaring : (fields.get? "properties").isSome = (others.get? "properties").isSome := by
    generalize fields.get? "properties" = value at properties
    generalize others.get? "properties" = other at properties
    cases properties <;> rfl
  rw [shapes.get?_eq_of_scalar otherShapes same declaring notDescription isProperties isItems]
  exact rel_refl _

/-! ## Alternatives -/

section Alternatives

variable {expand other : String → Outcome Value}

theorem IsBase.unique {members : List Value} {base again : Fields}
    (isBase : IsBase expand members base) (isAgain : IsBase expand members again) : base = again := by
  match members with
  | [single] => exact Fields.node_inj.mp (isBase.symm.trans isAgain)
  | [] => exact isBase.trans isAgain.symm
  | first :: second :: rest => exact isBase.trans isAgain.symm

/-- The base shapes of alternatives are alike where the alternatives are one by one. -/
theorem alike_base {members others : List Value} {base otherBase : Fields}
    (each : List.Forall₂ (fun member found =>
      Alike (shapeImage expand member) (shapeImage other found)) members others)
    (isBase : IsBase expand members base) (isOtherBase : IsBase other others otherBase) :
    Alike (Fields.node base) (Fields.node otherBase) := by
  have several : Alike (Fields.node [("anyOf", .list (members.map (shapeImage expand)))])
      (Fields.node [("anyOf", .list (others.map (shapeImage other)))]) :=
    alike_anyOf (List.forall₂_map_left_iff.mpr (List.forall₂_map_right_iff.mpr each))
  match each with
  | .nil =>
      obtain rfl : base = [("anyOf", .list [])] := isBase
      obtain rfl : otherBase = [("anyOf", .list [])] := isOtherBase
      exact .refl _
  | .cons single .nil =>
      rw [← (isBase : shapeImage expand _ = _), ← (isOtherBase : shapeImage other _ = _)]
      exact single
  | .cons _ (.cons _ _) =>
      rw [(isBase : base = _), (isOtherBase : otherBase = _)]
      exact several

/-- Alike base shapes stay alike when both are marked, and whatever describes them. -/
theorem Alike.noted (alike : Alike (Fields.node fields) (Fields.node others))
    (distinct : (fields.map Prod.fst).Nodup) (othersDistinct : (others.map Prod.fst).Nodup)
    (nullable : Bool) (description otherDescription : Option Value) :
    Alike (Fields.node (Gemini.noted nullable description fields))
      (Fields.node (Gemini.noted nullable otherDescription others)) := by
  refine alike.reworded (nodup_noted distinct _ _) (nodup_noted othersDistinct _ _) ?_
  intro name notDescription
  by_cases isNullable : name = "nullable"
  · cases nullable with
    | true => exact .inl (by rw [isNullable, get?_nullable_noted, get?_nullable_noted]; rfl)
    | false => exact .inr (by simp [isNullable, get?_nullable_noted])
  · have other : name ≠ "nullable" ∧ name ≠ "description" := ⟨isNullable, notDescription⟩
    exact .inr ⟨get?_noted_of_ne other, get?_noted_of_ne other⟩

end Alternatives

/-! ## Widening and describing -/

theorem isSchema_nullable {node : Value} (isCompiled : Compile.IsCompiled node)
    (isSchema : IsSchema ["properties"] IsTextual node) :
    IsSchema ["properties"] IsTextual (Compile.nullable node) :=
  Compile.isSchema_nullable (permits_isTextual Options.defaults [] fun _ => True) isCompiled isSchema

section Rewording

variable {expand : String → Outcome Value} (total : ∀ name, IsShape (expand name))
include total

/-- The shape of a widened node is that of the node, marked as nullable. -/
theorem image_nullable {node : Value} (isCompiled : Compile.IsCompiled node)
    (isSchema : IsSchema ["properties"] IsTextual node) (notNull : saysNull node = false) :
    ∃ shaped marked, shapeImage expand node = Fields.node shaped ∧
      shapeImage expand (Compile.nullable node) = Fields.node marked ∧
      (marked.map Prod.fst).Nodup ∧ marked.get? "nullable" = some (.bool true) ∧
      ∀ name ≠ "nullable", marked.get? name = shaped.get? name := by
  have widened := isSchema_nullable isCompiled isSchema
  obtain ⟨fields, rfl⟩ := isCompiled.named
  by_cases single : ∃ name, fields.get? "type" = some (.str name)
  · obtain ⟨type, isType⟩ := single
    obtain ⟨-, noAlternatives, noReference⟩ := isCompiled.bare type (by simpa using isType)
    simp only [Fields.get?_node] at noAlternatives noReference
    have other : type ≠ "null" := by
      rintro rfl
      simp [saysNull, isType, Value.isText_str] at notNull
    rw [Compile.nullable_of_single isType] at widened ⊢
    have same {name : String} (notType : name ≠ "type") :
        Fields.get? (("type", .list [.str type, .str "null"]) ::
          fields.filter fun field => field.1 != "type") name = fields.get? name := by
      rw [Fields.get?_cons, if_neg notType, Fields.get?_filter_ne, if_neg notType]
    obtain ⟨shaped, isImage, shapes⟩ := image_plain total isSchema noReference noAlternatives
    obtain ⟨marked, isMarked, marks⟩ := image_plain total widened
      ((same (by decide)).trans noReference) ((same (by decide)).trans noAlternatives)
    refine ⟨shaped, marked, isImage, isMarked, marks.distinct, ?_, fun name notNullable => ?_⟩
    · rw [marks.nullable]
      simp [Fields.get?_cons, shapeType_widened other]
    · by_cases sameType : name = "type"
      · rw [sameType, marks.type, shapes.type, isType, Fields.get?_cons, if_pos rfl,
          shapeType_widened other]
        rfl
      · by_cases isDescription : name = "description"
        · rw [isDescription, marks.description, shapes.description, same (by decide)]
        · exact shapes.get?_eq marks (fun _ notType _ => same notType) sameType notNullable
            isDescription
  · rw [Compile.nullable_of_other fun name typed => single ⟨name, by simpa using typed⟩] at widened ⊢
    have members : Fields.get? [("anyOf", .list [Fields.node fields, Compile.nullNode])] "anyOf" =
        some (.list [Fields.node fields, Compile.nullNode]) := by
      rw [Fields.get?_cons, if_pos rfl]
    obtain ⟨base, distinct, isBase, isImage⟩ :=
      image_alternatives total widened (by simp [Fields.get?_cons]) members
    have isNull : saysNull Compile.nullNode = true := by decide
    simp only [List.filter_cons, notNull, isNull, List.any_cons, List.any_nil, Bool.not_true,
      Bool.not_false, Bool.or_true, Bool.or_false, if_true, List.filter_nil] at isBase isImage
    refine ⟨base, _, isBase, isImage, nodup_noted distinct _ _, get?_nullable_noted, ?_⟩
    intro name notNullable
    simp [noted, Fields.get?_cons, Fields.get?_put, notNullable]

/-- The shape of a described node is that of the node, apart from its description. -/
theorem image_described (isSchema : IsSchema ["properties"] IsTextual (Fields.node fields))
    (text : String) :
    ∃ shaped described, shapeImage expand (Fields.node fields) = Fields.node shaped ∧
      shapeImage expand (Fields.node (fields.put "description" (.str text))) =
        Fields.node described ∧
      (described.map Prod.fst).Nodup ∧
      ∀ name ≠ "description", described.get? name = shaped.get? name := by
  have described := Compile.isSchema_described
    (permits_isTextual Options.defaults [] fun _ => True) isSchema text
  have same {name : String} (other : name ≠ "description") :
      (fields.put "description" (.str text)).get? name = fields.get? name := by
    rw [Fields.get?_put, if_neg other]
  cases isReference : fields.get? "$ref" with
  | some value =>
      obtain ⟨reference, rfl⟩ := isSchema.meets.reference value isReference
      obtain ⟨shaped, distinct, isShape⟩ := exists_shape total isSchema
      refine ⟨shaped, shaped, by rw [shapeImage, isShape], ?_, distinct, fun _ _ => rfl⟩
      rw [shapeWith_reference isReference] at isShape
      rw [shapeImage, shapeWith_reference ((same (by decide)).trans isReference), isShape]
  | none =>
      have noReference := (same (by decide)).trans isReference
      cases alternatives : fields.get? "anyOf" with
      | some value =>
          obtain ⟨members, rfl, -⟩ := isSchema.members alternatives
          obtain ⟨base, -, isBase, isImage⟩ :=
            image_alternatives total isSchema isReference alternatives
          obtain ⟨again, distinct, isAgain, isDescribed⟩ :=
            image_alternatives total described noReference ((same (by decide)).trans alternatives)
          obtain rfl := isBase.unique isAgain
          refine ⟨_, _, isImage, isDescribed, nodup_noted distinct _ _, ?_⟩
          intro name notDescription
          by_cases isNullable : name = "nullable"
          · rw [isNullable, get?_nullable_noted, get?_nullable_noted]
          · have other : name ≠ "nullable" ∧ name ≠ "description" := ⟨isNullable, notDescription⟩
            rw [get?_noted_of_ne other, get?_noted_of_ne other]
      | none =>
          obtain ⟨shaped, isImage, shapes⟩ := image_plain total isSchema isReference alternatives
          obtain ⟨again, isDescribed, describes⟩ :=
            image_plain total described noReference ((same (by decide)).trans alternatives)
          refine ⟨shaped, again, isImage, isDescribed, describes.distinct, ?_⟩
          intro name notDescription
          by_cases isType : name = "type"
          · rw [isType, describes.type, shapes.type, same (by decide)]
          · by_cases isNullable : name = "nullable"
            · rw [isNullable, describes.nullable, shapes.nullable, same (by decide)]
            · exact shapes.get?_eq describes (fun _ _ other => same other) isType isNullable
                notDescription

end Rewording

end Gemini

end TypedReply
