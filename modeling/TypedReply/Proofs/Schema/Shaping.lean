import TypedReply.Proofs.Schema.Shape

/-!
# Shaping schemas

Every schema has a shape where references are expanded into shapes: no node of a compiled schema is
one that shaping stumbles over. The shape of a node then follows from the shapes of the nodes in it,
one equation for each of the three kinds of nodes.
-/

namespace TypedReply

namespace Gemini

/-- The constant and the reference of a node are texts. -/
structure IsTextual (fields : Fields) : Prop where
  constant : ∀ value, fields.get? "const" = some value → ∃ text, value = .str text
  reference : ∀ value, fields.get? "$ref" = some value → ∃ text, value = .str text

/-- The constants and references that are compiled are texts. -/
theorem permits_isTextual (options : Options) (store : Store) (reached : Descriptor → Prop) :
    Compile.Permits options store reached IsTextual where
  typed _ constant noReference := ⟨constant, by simp [noReference]⟩
  enum type fields _ isNode := by
    obtain ⟨kinds, choices, isEnum⟩ := Compile.exists_enumNode type
    obtain rfl := Fields.node_inj.mp (isNode.symm.trans isEnum)
    constructor <;> simp [Fields.get?_cons]
  ref id _ := by constructor <;> simp [Fields.get?_cons]
  described text textual := by
    constructor <;> simp only [Fields.get?_put, if_neg (by decide : "const" ≠ "description"),
      if_neg (by decide : "$ref" ≠ "description")]
    · exact textual.constant
    · exact textual.reference

/-- A shape is there, and names each of its keywords once. -/
def IsShape (shape : Outcome Value) : Prop :=
  ∃ shaped, (shaped.map Prod.fst).Nodup ∧ shape = .ok (Fields.node shaped)

theorem IsShape.eq_image {expand : String → Outcome Value} {node : Value}
    (isShape : IsShape (shapeWith expand node)) :
    shapeWith expand node = .ok (shapeImage expand node) := by
  obtain ⟨shaped, -, isShape⟩ := isShape
  rw [shapeImage, isShape]

/-- The base shape of alternatives other than null: a single one is the node itself. -/
def IsBase (expand : String → Outcome Value) : List Value → Fields → Prop
  | [single], base => shapeImage expand single = Fields.node base
  | several, base => base = [("anyOf", .list (several.map (shapeImage expand)))]

variable {expand : String → Outcome Value} {fields : Fields}

theorem exists_isBase {others : List Value}
    (each : ∀ member ∈ others, IsShape (shapeWith expand member)) :
    ∃ base, (base.map Prod.fst).Nodup ∧ IsBase expand others base ∧
      shapeOthers expand others = .ok (Fields.node base) := by
  have all : others.mapM (shapeWith expand) = .ok (others.map (shapeImage expand)) :=
    mapM_eq_ok_map fun member isMember => (each member isMember).eq_image
  match others with
  | [single] =>
      obtain ⟨shaped, distinct, isShape⟩ := each single List.mem_cons_self
      exact ⟨shaped, distinct, by rw [IsBase, shapeImage, isShape], isShape⟩
  | [] => exact ⟨[("anyOf", .list [])], by simp, rfl, rfl⟩
  | first :: second :: rest =>
      exact ⟨[("anyOf", .list _)], by simp, rfl, bind_eq_ok_iff.mpr ⟨_, all, rfl⟩⟩

theorem nodup_noted {base : Fields} (distinct : (base.map Prod.fst).Nodup) (nullable : Bool)
    (description : Option Value) : ((noted nullable description base).map Prod.fst).Nodup := by
  have flagged : ((if nullable then base.put "nullable" (.bool true) else base).map
      Prod.fst).Nodup := by
    split
    · exact Fields.nodup_put distinct _ _
    · exact distinct
  unfold noted
  cases description with
  | none => exact flagged
  | some description =>
      change ((if description.isTruthy then _ else _ : Fields).map Prod.fst).Nodup
      split
      · exact Fields.nodup_put flagged _ _
      · exact flagged

theorem exists_shape (total : ∀ name, IsShape (expand name)) {schema : Value}
    (isSchema : IsSchema ["properties"] IsTextual schema) : IsShape (shapeWith expand schema) := by
  induction isSchema with
  | node fields regular meets isTable _ isItem _ isList isMember inTable items _ among =>
      cases isReference : fields.get? "$ref" with
      | some value =>
          obtain ⟨reference, rfl⟩ := meets.reference value isReference
          rw [shapeWith_reference isReference]
          exact total _
      | none =>
          cases alternatives : fields.get? "anyOf" with
          | some value =>
              obtain ⟨members, rfl⟩ := isList value alternatives
              obtain ⟨base, distinct, -, isBase⟩ := exists_isBase fun member isOther =>
                among members alternatives member (List.mem_of_mem_filter
                  (p := fun member => !Compile.saysNull member) isOther)
              have nodes : ∀ member ∈ members, member.isObject = true := fun member among =>
                (isMember members alternatives member among).isObject
              exact ⟨_, nodup_noted distinct _ _,
                shapeWith_alternatives isReference alternatives nodes isBase⟩
          | none =>
              refine ⟨_, (shapesTo_plain (shapeImage expand) fields).distinct, ?_⟩
              apply shapeWith_plain isReference alternatives
              · intro value declared
                obtain ⟨table, rfl⟩ := isTable "properties" (List.mem_singleton_self _) value declared
                refine ⟨table, rfl, fun entry isEntry => ?_⟩
                exact (inTable "properties" (by simp) table declared entry isEntry).eq_image
              · intro value requires
                obtain ⟨names, -, rfl, -⟩ := regular.required value requires
                exact ⟨_, rfl⟩
              · exact fun sub isSub => ⟨(isItem sub isSub).isObject, (items sub isSub).eq_image⟩

/-- What a reference is expanded to is a shape where the definitions are schemas. -/
theorem isShape_expansion {definitions : Value.Entries}
    (schemas : ∀ name target, definitions.get? name = some target →
      IsSchema ["properties"] IsTextual target) (fuel : Nat) (expanding : List String)
    (name : String) : IsShape (expansion definitions fuel expanding name) := by
  have bare : IsShape (.ok bareObject) := ⟨_, by simp, rfl⟩
  induction fuel generalizing expanding name with
  | zero => exact bare
  | succ fuel ih =>
      rw [expansion]
      cases found : definitions.get? name with
      | none => exact bare
      | some definition =>
          change IsShape (if _ then _ else _)
          split
          · exact bare
          · rw [shape_eq]
            exact exists_shape (ih _) (schemas name definition found)

/-- A compiled schema has the shape of its root, which is expanded by its own name if it has one. -/
theorem ofCompiled_eq {compiled : Compiled}
    (isSchema : IsSchema ["properties"] IsTextual compiled.schema)
    (schemas : ∀ name target, compiled.definitions.get? name = some target →
      IsSchema ["properties"] IsTextual target) :
    ofCompiled compiled = .ok (shapeImage (expansion compiled.definitions
      (compiled.definitions.length + 1)
      ((tagOf compiled.schema).toList.filter compiled.definitions.has)) compiled.schema) := by
  refine bind_eq_ok_iff.mpr ⟨_, rootName_eq (fun _ => IsTextual.constant) isSchema, ?_⟩
  rw [shape_eq]
  exact (exists_shape (isShape_expansion schemas _ _) isSchema).eq_image

section Image

variable (total : ∀ name, IsShape (expand name))
variable (isSchema : IsSchema ["properties"] IsTextual (Fields.node fields))
include total isSchema

/-- The shape of alternatives is that of those other than null, marked and described. -/
theorem image_alternatives {members : List Value} (noReference : fields.get? "$ref" = none)
    (areMembers : fields.get? "anyOf" = some (.list members)) :
    ∃ base, (base.map Prod.fst).Nodup ∧
      IsBase expand (members.filter (!Compile.saysNull ·)) base ∧
      shapeImage expand (Fields.node fields) =
        Fields.node (noted (members.any Compile.saysNull) (fields.get? "description") base) := by
  obtain ⟨_, ⟨⟩, each⟩ := isSchema.members areMembers
  obtain ⟨base, distinct, isBase, shapes⟩ := exists_isBase fun member isOther =>
    exists_shape total (each member (List.mem_of_mem_filter
      (p := fun member => !Compile.saysNull member) isOther))
  refine ⟨base, distinct, isBase, ?_⟩
  have nodes : ∀ member ∈ members, member.isObject = true :=
    fun member isMember => (each member isMember).isObject
  rw [shapeImage, shapeWith_alternatives noReference areMembers nodes shapes]

/-- The shape of a plain node keeps its keywords, with the shapes of the nodes under them. -/
theorem image_plain (noReference : fields.get? "$ref" = none)
    (noAlternatives : fields.get? "anyOf" = none) :
    ∃ shaped, shapeImage expand (Fields.node fields) = Fields.node shaped ∧
      ShapesTo (shapeImage expand) fields shaped := by
  refine ⟨_, ?_, shapesTo_plain (shapeImage expand) fields⟩
  rw [shapeImage, shapeWith_plain noReference noAlternatives]
  · intro value declared
    obtain ⟨table, rfl, each⟩ := isSchema.table (List.mem_singleton_self _) declared
    exact ⟨table, rfl, fun entry isEntry => (exists_shape total (each entry isEntry)).eq_image⟩
  · intro value requires
    obtain ⟨names, -, rfl, -⟩ := isSchema.isRegular.required value requires
    exact ⟨_, rfl⟩
  · intro sub isSub
    have inner := isSchema.item isSub
    exact ⟨inner.isObject, (exists_shape total inner).eq_image⟩

end Image

end Gemini

end TypedReply
