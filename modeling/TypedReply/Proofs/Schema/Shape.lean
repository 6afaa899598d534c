import TypedReply.Proofs.Schema.Rebuilding
import TypedReply.Proofs.Value.Parts
import TypedReply.Schema.Gemini
import Mathlib.Data.List.TakeWhile

/-!
# The shapes of nodes

What Gemini's shaping makes of a node follows from what it makes of the nodes in it: a reference
takes the shape of what it is expanded to, alternatives are shaped apart from null, and any other
node keeps its keywords, with its type collapsed and its constant listed.
-/

namespace TypedReply

namespace Gemini

open Value (Seen toPart)
open Compile (saysNull)

/-- The shape of a node where references are expanded in some way. -/
def shapeWith (expand : String → Outcome Value) (node : Value) : Outcome Value :=
  node.foldDeep (shapeStep expand) ()

/-- The shape of a node that has one. -/
def shapeImage (expand : String → Outcome Value) (node : Value) : Value :=
  match shapeWith expand node with
  | .ok shaped => shaped
  | .error _ => .null

variable {expand : String → Outcome Value} {fields : Fields}

theorem shapeWith_object (expand : String → Outcome Value) (entries : Value.Entries) :
    shapeWith expand (.object entries) = shapeStep expand (.object entries)
      ((Value.object entries).parts (Seen.make (shapeStep expand))) () := by
  rw [shapeWith, Value.foldDeep, Value.fold_eq]
  rfl

theorem get?_parts_object (expand : String → Outcome Value) (fields : Fields) (name : String) :
    ((Fields.node fields).parts (Seen.make (shapeStep expand))).get? name =
      (fields.get? name).map (toPart (Seen.make (shapeStep expand))) := by
  rw [Fields.node, Value.ofFields_eq, Value.get?_parts, Value.get?_entriesOf]

/-! ## References -/

/-- A reference takes the shape of what its last part is expanded to. -/
theorem shapeWith_reference {reference : String}
    (isReference : fields.get? "$ref" = some (.str reference)) :
    shapeWith expand (Fields.node fields) = expand (Compile.refName reference) := by
  rw [Fields.node, Value.ofFields_eq, shapeWith_object]
  simp only [shapeStep, Value.get?_entriesOf, isReference]
  rfl

/-! ## Alternatives -/

theorem alternatives_list (expand : String → Outcome Value) (members : List Value) :
    alternatives (toPart (Seen.make (shapeStep expand)) (.list members)) =
      .ok (members.map fun member => (member, fun _ => shapeWith expand member)) := by
  rw [toPart, alternatives]
  simp only [Value.fold_list, Seen.make, List.map_map]
  rfl

theorem isNullNode_eq {member : Value} (isObject : member.isObject = true) :
    isNullNode member = .ok (saysNull member) := by
  cases member with
  | object entries => rfl
  | _ => cases isObject

theorem splitNull_map (shape : Value → Shaper) {members : List Value}
    (nodes : ∀ member ∈ members, member.isObject = true) :
    splitNull (members.map fun member => (member, shape member)) =
      .ok ((members.filter (!saysNull ·)).map shape, members.any saysNull) := by
  induction members with
  | nil => rfl
  | cons member rest ih =>
      rw [List.map_cons, splitNull, isNullNode_eq (nodes member List.mem_cons_self),
        ih fun other isOther => nodes other (List.mem_cons_of_mem _ isOther)]
      cases isNull : saysNull member <;> simp [isNull, bind, Except.bind]

/-- The shape of alternatives other than null: a single one is the node itself. -/
def shapeOthers (expand : String → Outcome Value) : List Value → Outcome Value
  | [single] => shapeWith expand single
  | several => do .ok (Fields.node [("anyOf", .list (← several.mapM (shapeWith expand)))])

/-- The shape of alternatives, marked as nullable and described as their node says. -/
def noted (nullable : Bool) (description : Option Value) (fields : Fields) : Fields :=
  let flagged := if nullable then fields.put "nullable" (.bool true) else fields
  match description with
  | some description =>
    if description.isTruthy then flagged.put "description" description else flagged
  | none => flagged

theorem get?_noted_of_ne {nullable : Bool} {description : Option Value} {name : String}
    (other : name ≠ "nullable" ∧ name ≠ "description") :
    (noted nullable description fields).get? name = fields.get? name := by
  unfold noted
  cases nullable <;> cases description <;> simp [Fields.get?_put, other]
  all_goals split <;> simp [Fields.get?_put, other]

theorem get?_nullable_noted {nullable : Bool} {description : Option Value} :
    (noted nullable description fields).get? "nullable" =
      if nullable then some (.bool true) else fields.get? "nullable" := by
  unfold noted
  cases nullable <;> cases description <;> simp
  all_goals split <;> simp [Fields.get?_put]

theorem entriesOf_noted (nullable : Bool) (description : Option Value) (fields : Fields) :
    (let flagged := if nullable then (Value.entriesOf fields).put "nullable" (.bool true)
        else Value.entriesOf fields
     match description with
      | some description =>
        if description.isTruthy then flagged.put "description" description else flagged
      | none => flagged) = Value.entriesOf (noted nullable description fields) := by
  cases nullable with
  | false =>
      cases description with
      | none => rfl
      | some description => cases isShown : description.isTruthy <;> simp [noted, isShown, put_ofFields]
  | true =>
      cases description with
      | none => simp [noted, put_ofFields]
      | some description => cases isShown : description.isTruthy <;> simp [noted, isShown, put_ofFields]

theorem shapeWith_alternatives {members : List Value} (noReference : fields.get? "$ref" = none)
    (areMembers : fields.get? "anyOf" = some (.list members))
    (nodes : ∀ member ∈ members, member.isObject = true) {base : Fields}
    (isBase : shapeOthers expand (members.filter (!saysNull ·)) = .ok (Fields.node base)) :
    shapeWith expand (Fields.node fields) =
      .ok (Fields.node (noted (members.any saysNull) (fields.get? "description") base)) := by
  have parts := get?_parts_object expand fields "anyOf"
  rw [areMembers, Option.map_some, Fields.node, Value.ofFields_eq] at parts
  rw [Fields.node, Value.ofFields_eq, shapeWith_object]
  simp only [shapeStep, Value.get?_entriesOf, noReference, Option.bind_none, parts]
  unfold shapeAlternatives
  rw [alternatives_list]
  refine bind_eq_ok_iff.mpr ⟨_, rfl, ?_⟩
  refine bind_eq_ok_iff.mpr ⟨_, splitNull_map _ nodes, ?_⟩
  rw [← Value.get?_entriesOf fields "description"]
  have done := congrArg (fun entries => (Except.ok (Value.object entries) : Outcome Value))
    (entriesOf_noted (members.any saysNull) ((Value.entriesOf fields).get? "description") base)
  generalize members.filter (!saysNull ·) = others at isBase
  cases others with
  | nil =>
      obtain rfl := Fields.node_inj.mp (Except.ok.inj isBase)
      exact done
  | cons first rest =>
      cases rest with
      | nil => exact bind_eq_ok_iff.mpr ⟨_, isBase, done⟩
      | cons second rest =>
          obtain ⟨shapes, areShapes, isNode⟩ := bind_eq_ok_iff.mp isBase
          obtain rfl := Fields.node_inj.mp (Except.ok.inj isNode)
          have same : ((first :: second :: rest).map fun member (_ : Unit) =>
                shapeWith expand member).mapM (fun shape => shape ()) =
              (first :: second :: rest).mapM (shapeWith expand) := List.mapM_map
          exact bind_eq_ok_iff.mpr ⟨shapes, same.trans areShapes, done⟩

/-! ## Plain nodes -/

/-- The shape of a plain node, keyword by keyword. -/
structure ShapesTo (image : Value → Value) (fields shaped : Fields) : Prop where
  distinct : (shaped.map Prod.fst).Nodup
  type : shaped.get? "type" = (shapeType (fields.get? "type")).get? "type"
  nullable : shaped.get? "nullable" = (shapeType (fields.get? "type")).get? "nullable"
  description : shaped.get? "description" = fields.get? "description"
  format : shaped.get? "format" = fields.get? "format"
  enum : shaped.get? "enum" = ((fields.get? "const").map fun value => .list [value]).or
    (fields.get? "enum")
  properties : shaped.get? "properties" = (fields.get? "properties").map fun table =>
    .object (((table.entries?).getD []).map fun entry => (entry.1, image entry.2))
  required : shaped.get? "required" =
    if (fields.get? "properties").isSome then fields.get? "required" else none
  items : shaped.get? "items" = (fields.get? "items").map image
  known : ∀ name ∈ shaped.map Prod.fst, name ∈ ["type", "nullable", "description", "format", "enum",
    "properties", "required", "items"]

theorem get?_kept (fields : Fields) (keyword name : String) :
    (kept (Value.entriesOf fields) keyword).get? name =
      if name = keyword then fields.get? keyword else none := by
  unfold kept
  rw [Value.get?_entriesOf]
  cases fields.get? keyword <;> simp [Fields.get?_cons]

/-- The named values that the properties of a node are shaped to, with what is required. -/
def shapedProperties (image : Value → Value) (fields : Fields) : Fields :=
  match fields.get? "properties" with
  | some table =>
    ("properties", .object (((table.entries?).getD []).map fun entry => (entry.1, image entry.2))) ::
      ((fields.get? "required").map fun names => ("required", names)).toList
  | none => []

/-- The properties of a node are shaped where each of them is. -/
theorem shapeProperties_eq {image : Value → Value}
    (properties : ∀ value, fields.get? "properties" = some value → ∃ table, value = Fields.node table ∧
      ∀ entry ∈ table, shapeWith expand entry.2 = .ok (image entry.2))
    (required : ∀ value, fields.get? "required" = some value → ∃ names, value = .list names) :
    shapeProperties (Value.entriesOf fields)
        ((Fields.node fields).parts (Seen.make (shapeStep expand))) =
      .ok (shapedProperties image fields) := by
  unfold shapeProperties shapedProperties
  rw [get?_parts_object, Value.get?_entriesOf]
  cases found : fields.get? "properties" with
  | none => rfl
  | some value =>
      obtain ⟨table, rfl, each⟩ := properties value found
      have parts : (toPart (Seen.make (shapeStep expand)) (Fields.node table)).result.entries =
          (Value.entriesOf table).map fun entry =>
            (entry.1, entry.2, fun _ => shapeWith expand entry.2) := by
        rw [toPart, Fields.node, Value.ofFields_eq, Value.fold_object, Seen.make, List.map_map]
        rfl
      have shaped : ((Value.entriesOf table).map fun entry =>
            (entry.1, entry.2, (fun _ => shapeWith expand entry.2 : Shaper))).mapM
          (fun entry => do .ok (entry.1, ← entry.2.2 ())) =
            (.ok ((Value.entriesOf table).map fun entry => (entry.1, image entry.2)) :
              Outcome Value.Entries) := by
        rw [List.mapM_map]
        apply mapM_eq_ok_map
        intro entry isEntry
        obtain ⟨field, isField, rfl⟩ := List.mem_map.mp isEntry
        simp only [Function.comp, each field isField]
        rfl
      rw [Option.map_some]
      rw [← parts] at shaped
      refine bind_eq_ok_iff.mpr ⟨_, shaped, ?_⟩
      cases requires : fields.get? "required" with
      | none => rfl
      | some value =>
          obtain ⟨names, rfl⟩ := required value requires
          rfl

/-- The items of a node are shaped where the node of an item is. -/
theorem shapeItems_eq {image : Value → Value}
    (items : ∀ value, fields.get? "items" = some value → value.isObject = true ∧
      shapeWith expand value = .ok (image value)) :
    shapeItems ((Fields.node fields).parts (Seen.make (shapeStep expand))) =
      .ok ((fields.get? "items").map fun value => ("items", image value)).toList := by
  unfold shapeItems
  rw [get?_parts_object]
  cases found : fields.get? "items" with
  | none => rfl
  | some value =>
      obtain ⟨isObject, shaped⟩ := items value found
      cases value with
      | object entries => exact bind_eq_ok_iff.mpr ⟨_, shaped, rfl⟩
      | _ => cases isObject

/-- The keywords that a plain node keeps. -/
def shapedKeywords (fields : Fields) : Fields :=
  (shapeType (fields.get? "type") ++
      keptKeywords.flatMap (kept (Value.entriesOf fields))).putAll
    ((fields.get? "const").map fun value => ("enum", Value.list [value])).toList

/-- A plain node is shaped where the nodes in it are. -/
theorem shapeWith_plain {image : Value → Value} (noReference : fields.get? "$ref" = none)
    (noAlternatives : fields.get? "anyOf" = none)
    (properties : ∀ value, fields.get? "properties" = some value → ∃ table, value = Fields.node table ∧
      ∀ entry ∈ table, shapeWith expand entry.2 = .ok (image entry.2))
    (required : ∀ value, fields.get? "required" = some value → ∃ names, value = .list names)
    (items : ∀ value, fields.get? "items" = some value → value.isObject = true ∧
      shapeWith expand value = .ok (image value)) :
    shapeWith expand (Fields.node fields) = .ok (Fields.node (shapedKeywords fields ++
      shapedProperties image fields ++
        ((fields.get? "items").map fun value => ("items", image value)).toList)) := by
  have parts := get?_parts_object expand fields "anyOf"
  rw [noAlternatives, Option.map_none, Fields.node, Value.ofFields_eq] at parts
  rw [Fields.node, Value.ofFields_eq, shapeWith_object]
  simp only [shapeStep, Value.get?_entriesOf, noReference, Option.bind_none, parts]
  unfold shapePlain
  refine bind_eq_ok_iff.mpr ⟨_, shapeProperties_eq properties required, ?_⟩
  refine bind_eq_ok_iff.mpr ⟨_, shapeItems_eq items, ?_⟩
  simp only [shapedKeywords, Value.get?_entriesOf]
  cases fields.get? "const" <;> rfl

theorem shapeType_sublist (kinds : Option Value) :
    ((shapeType kinds).map Prod.fst).Sublist ["type", "nullable"] := by
  unfold shapeType
  split
  · simp only [flag]
    split <;> simp
  · simp
  · simp
  · simp

/-- A type beside null is kept, and null becomes a flag. -/
theorem shapeType_widened {name : String} (other : name ≠ "null") :
    shapeType (some (.list [.str name, .str "null"])) =
      [("type", .str name), ("nullable", .bool true)] := by
  simp [shapeType, flag, Value.isText_str, other]

theorem kept_sublist (node : Value.Entries) (keyword : String) :
    ((kept node keyword).map Prod.fst).Sublist [keyword] := by
  unfold kept
  split <;> simp

theorem get?_shapeType_of_ne (kinds : Option Value) {name : String}
    (other : name ≠ "type" ∧ name ≠ "nullable") : (shapeType kinds).get? name = none :=
  Fields.get?_eq_none_of_not_mem fun isName => by
    have isKeyword := (shapeType_sublist kinds).subset isName
    simp [other] at isKeyword

theorem get?_shapedKeywords (fields : Fields) (name : String) :
    (shapedKeywords fields).get? name =
      (if name = "enum" then (fields.get? "const").map fun value => .list [value] else none).or
        (((shapeType (fields.get? "type")).get? name).or
          (if name ∈ keptKeywords then fields.get? name else none)) := by
  unfold shapedKeywords
  have distinct : ((((fields.get? "const").map fun value =>
      ("enum", Value.list [value])).toList).map Prod.fst).Nodup := by
    cases fields.get? "const" <;> simp
  rw [Fields.get?_putAll distinct]
  congr 1
  · cases fields.get? "const" <;> simp [Fields.get?_cons]
  · rw [Fields.get?_append]
    congr 1
    simp only [keptKeywords, List.flatMap_cons, List.flatMap_nil, List.append_nil,
      Fields.get?_append, get?_kept, List.mem_cons, List.not_mem_nil, or_false]
    by_cases isDescription : name = "description"
    · simp [isDescription]
    · by_cases isFormat : name = "format"
      · simp [isFormat]
      · by_cases isEnum : name = "enum" <;> simp [isDescription, isFormat, isEnum]

theorem keptBase_sublist (fields : Fields) :
    ((shapeType (fields.get? "type") ++ keptKeywords.flatMap (kept (Value.entriesOf fields))).map
      Prod.fst).Sublist ["type", "nullable", "description", "format", "enum"] := by
  have keywords (keyword : String) := kept_sublist (Value.entriesOf fields) keyword
  simp only [keptKeywords, List.flatMap_cons, List.flatMap_nil, List.append_nil, List.map_append]
  exact (shapeType_sublist _).append
    ((keywords "description").append ((keywords "format").append (keywords "enum")))

theorem nodup_shapedKeywords (fields : Fields) :
    ((shapedKeywords fields).map Prod.fst).Nodup :=
  Fields.nodup_putAll ((keptBase_sublist fields).nodup (by decide)) _

theorem shapedKeywords_subset (fields : Fields) :
    (shapedKeywords fields).map Prod.fst ⊆ ["type", "nullable", "description", "format", "enum"] := by
  intro name isName
  rcases Fields.mem_map_fst_putAll.mp isName with isKept | isConstant
  · exact (keptBase_sublist fields).subset isKept
  · cases found : fields.get? "const" with
    | none => simp [found] at isConstant
    | some value =>
        obtain rfl : name = "enum" := by simpa [found] using isConstant
        decide

theorem shapedProperties_sublist (image : Value → Value) (fields : Fields) :
    ((shapedProperties image fields).map Prod.fst).Sublist ["properties", "required"] := by
  unfold shapedProperties
  split
  · cases fields.get? "required" <;> simp
  · simp

theorem get?_shapedProperties (image : Value → Value) (fields : Fields) (name : String) :
    (shapedProperties image fields).get? name =
      if name = "properties" then (fields.get? "properties").map fun table =>
        .object (((table.entries?).getD []).map fun entry => (entry.1, image entry.2))
      else if name = "required" ∧ (fields.get? "properties").isSome then fields.get? "required"
      else none := by
  unfold shapedProperties
  cases fields.get? "properties" with
  | none => simp
  | some table => cases fields.get? "required" <;> simp [Fields.get?_cons]

/-- The properties that are declared by a table are shaped one by one. -/
theorem shapedTable (image : Value → Value) (table : Fields) :
    .object ((((Fields.node table).entries?).getD []).map fun entry => (entry.1, image entry.2)) =
      Fields.node (table.mapped fun _ => image) := by
  rw [Fields.node, Fields.node, Value.ofFields_eq, Value.ofFields_eq, Fields.mapped, Value.entriesOf,
    Value.entriesOf, List.map_map]
  change Value.object (List.map _ (List.map _ table)) = _
  rw [List.map_map]
  rfl

/-- What is made of a plain node, keyword by keyword. -/
theorem shapesTo_plain (image : Value → Value) (fields : Fields) :
    ShapesTo image fields (shapedKeywords fields ++ shapedProperties image fields ++
      ((fields.get? "items").map fun value => ("items", image value)).toList) := by
  have items : ((((fields.get? "items").map fun value =>
      ("items", image value)).toList).map Prod.fst).Sublist ["items"] := by
    cases fields.get? "items" <;> simp
  have getItems (name : String) : Fields.get? (((fields.get? "items").map fun value =>
      ("items", image value)).toList) name =
        if name = "items" then (fields.get? "items").map image else none := by
    cases fields.get? "items" <;> simp [Fields.get?_cons]
  constructor
  case known =>
    intro name isName
    rw [List.map_append, List.map_append, List.mem_append, List.mem_append] at isName
    rcases isName with (isKeyword | isProperty) | isItem
    · exact (by decide : ["type", "nullable", "description", "format", "enum"] ⊆ _)
        (shapedKeywords_subset fields isKeyword)
    · exact (by decide : ["properties", "required"] ⊆ _)
        ((shapedProperties_sublist image fields).subset isProperty)
    · exact (by decide : ["items"] ⊆ _) (items.subset isItem)
  case distinct =>
    have rest := ((shapedProperties_sublist image fields).append items)
    rw [List.append_assoc, List.map_append, List.map_append, List.nodup_append]
    refine ⟨nodup_shapedKeywords fields, rest.nodup (by decide), ?_⟩
    rintro name isKeyword _ isRest rfl
    exact (by decide : ∀ name ∈ ["type", "nullable", "description", "format", "enum"],
      name ∉ ["properties", "required"] ++ ["items"]) name (shapedKeywords_subset fields isKeyword)
        (rest.subset isRest)
  all_goals
    simp [Fields.get?_append, get?_shapedKeywords, get?_shapedProperties, getItems, keptKeywords,
      get?_shapeType_of_ne]

/-! ## Definitions -/

/-- What a reference is expanded to. -/
def expansion (definitions : Value.Entries) : Nat → List String → String → Outcome Value
  | 0, _, _ => .ok bareObject
  | fuel + 1, expanding, name =>
    match definitions.get? name with
    | some definition =>
      if expanding.contains name then .ok bareObject
      else shape definitions fuel (name :: expanding) definition
    | none => .ok bareObject

theorem shape_eq (definitions : Value.Entries) (fuel : Nat) (expanding : List String)
    (node : Value) : shape definitions fuel expanding node =
      shapeWith (expansion definitions fuel expanding) node := by
  cases fuel <;> rfl

theorem refName_append (key name : String) :
    Compile.refName ("#/" ++ key ++ "/" ++ name) = Compile.refName name := by
  have reversed : ("#/" ++ key ++ "/" ++ name).toList.reverse =
      name.toList.reverse ++ '/' :: ("#/" ++ key).toList.reverse := by
    simp
  rw [Compile.refName, Compile.refName, reversed, List.takeWhile_append]
  split
  next all =>
    rw [(List.takeWhile_prefix _).eq_of_length all]
    simp
  next => rfl

theorem refName_of_unslashed {name : String} (unslashed : '/' ∉ name.toList) :
    Compile.refName name = name := by
  have whole : name.toList.reverse.takeWhile (· != '/') = name.toList.reverse := by
    rw [List.takeWhile_eq_self_iff]
    intro char isChar
    rw [bne_iff_ne]
    rintro rfl
    exact unslashed (List.mem_reverse.mp isChar)
  rw [Compile.refName, whole]
  simp

/-! ## The root -/

def tagOf (node : Value) : Option String :=
  (((node.get? "properties").bind (·.get? typeKey)).bind (·.get? "const")).bind Value.text?

theorem member_node (name : String) (fields : Fields) :
    member name (Fields.node fields) = .ok ((fields.get? name).getD (.object [])) := by
  rw [← Value.get?_entriesOf]
  rfl

/-- The definition that a root is has the name that its tag says, if there is one of this name. -/
theorem rootName_eq {condition : Fields → Prop} {compiled : Compiled}
    (constant : ∀ fields, condition fields → ∀ value, fields.get? "const" = some value →
      ∃ text, value = .str text)
    (isSchema : IsSchema ["properties"] condition compiled.schema) :
    rootName compiled = .ok ((tagOf compiled.schema).toList.filter compiled.definitions.has) := by
  obtain ⟨schema, definitions, key⟩ := compiled
  simp only at isSchema
  cases isSchema with
  | node fields _ _ isTable inTable =>
      refine bind_eq_ok_iff.mpr ⟨_, member_node _ _, ?_⟩
      simp only [tagOf, Fields.get?_node]
      cases declared : fields.get? "properties" with
      | none => rfl
      | some value =>
          obtain ⟨table, rfl⟩ := isTable "properties" (List.mem_singleton_self _) value declared
          refine bind_eq_ok_iff.mpr ⟨_, member_node _ _, ?_⟩
          cases isTag : table.get? typeKey with
          | none =>
              simp only [Option.bind_some, Fields.get?_node, isTag]
              rfl
          | some tag =>
              have isSchema := inTable "properties" (List.mem_singleton_self _) table declared
                (typeKey, tag) (Fields.mem_of_get? isTag)
              obtain ⟨inner, rfl⟩ := isSchema.exists_fields
              have entries : (Fields.node inner).entries? = some (Value.entriesOf inner) := rfl
              simp only [isTag, Option.getD_some, entries, Option.bind_some, Fields.get?_node,
                Value.get?_entriesOf]
              cases found : inner.get? "const" with
              | none => rfl
              | some value =>
                  obtain ⟨text, rfl⟩ := constant inner isSchema.meets value found
                  cases isDefined : definitions.has text <;>
                    simp [bind, Except.bind, Value.unhashable?, Value.text?, isDefined]

end Gemini

end TypedReply
