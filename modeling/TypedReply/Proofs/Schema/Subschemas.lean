import TypedReply.Proofs.Schema.Nodes

/-!
# The schemas in a schema

Schemas stand under the keywords of a schema: the properties of an object, the items of a list, the
further values of an object and the alternatives. Names of properties are no keywords. What marks a
schema, such as the reference that it is, is collected over all positions; widening a node by null
and describing it change neither what stands in it nor what marks it.
-/

namespace TypedReply

namespace Value

mutual

/-- The schemas in a schema, itself first, each as often as it stands there. -/
def subschemas : Value → List Value
  | .object entries => .object entries :: subschemasUnder entries
  | value => [value]
termination_by structural value => value

/-- The schemas under the keywords of a schema. -/
def subschemasUnder : List (Value × Value) → List Value
  | [] => []
  | (keyword, value) :: entries =>
    (if keyword.isText "properties" then propertySchemas value
      else if keyword.isText "items" || keyword.isText "additionalProperties" then
        subschemas value
      else if keyword.isText "anyOf" then alternativeSchemas value
      else []) ++ subschemasUnder entries
termination_by structural entries => entries

/-- The schemas in the properties of a schema. -/
def propertySchemas : Value → List Value
  | .object entries => subschemasOfEntries entries
  | _ => []
termination_by structural value => value

/-- The schemas in the alternatives of a schema. -/
def alternativeSchemas : Value → List Value
  | .list items => subschemasOfItems items
  | _ => []
termination_by structural value => value

/-- The schemas in named schemas. -/
def subschemasOfEntries : List (Value × Value) → List Value
  | [] => []
  | (_, value) :: entries => subschemas value ++ subschemasOfEntries entries
termination_by structural entries => entries

/-- The schemas in a list of schemas. -/
def subschemasOfItems : List Value → List Value
  | [] => []
  | value :: values => subschemas value ++ subschemasOfItems values
termination_by structural values => values

end

theorem subschemasOfItems_eq (values : List Value) :
    subschemasOfItems values = values.flatMap subschemas := by
  induction values with
  | nil => rfl
  | cons value values ih => simp [subschemasOfItems, ih]

theorem propertySchemas_ofFields (fields : Fields) :
    (ofFields fields).propertySchemas = fields.flatMap fun field => field.2.subschemas := by
  rw [ofFields_eq, propertySchemas]
  induction fields with
  | nil => rfl
  | cons field fields ih => simp_all [entriesOf, subschemasOfEntries]

end Value

namespace Fields

/-- The schemas under a keyword. -/
def under (keyword : String) (value : Value) : List Value :=
  if keyword = "properties" then value.propertySchemas
  else if keyword = "items" ∨ keyword = "additionalProperties" then value.subschemas
  else if keyword = "anyOf" then value.alternativeSchemas
  else []

theorem subschemas_node (fields : Fields) :
    (node fields).subschemas = node fields :: fields.flatMap fun field => under field.1 field.2 := by
  rw [node, Value.ofFields_eq, Value.subschemas]
  congr 1
  induction fields with
  | nil => rfl
  | cons field fields ih =>
      obtain ⟨keyword, value⟩ := field
      simp only [Value.entriesOf, List.map_cons, Value.subschemasUnder, List.flatMap_cons] at ih ⊢
      rw [ih]
      simp [under, Value.isText, Value.text?]

end Fields

/-! ## Marks -/

variable {α : Type}

def marks (mark : Value → Option α) (schema : Value) : List α := schema.subschemas.filterMap mark

/-- What marks the schemas under the keywords of a node. -/
def marksUnder (mark : Value → Option α) (fields : Fields) : List α :=
  fields.flatMap fun field => (Fields.under field.1 field.2).filterMap mark

theorem marksUnder_cons (mark : Value → Option α) (field : String × Value) (fields : Fields) :
    marksUnder mark (field :: fields) =
      (Fields.under field.1 field.2).filterMap mark ++ marksUnder mark fields := rfl

/-- A schema is marked by its properties and its reference alone. -/
structure IsMark (mark : Value → Option α) : Prop where
  empty : mark (Fields.node []) = none
  same : ∀ fields others : Fields, fields.get? "properties" = others.get? "properties" →
    fields.get? "$ref" = others.get? "$ref" → mark (Fields.node fields) = mark (Fields.node others)
  closed : mark (.bool false) = none

variable {mark : Value → Option α}

theorem marks_node (mark : Value → Option α) (fields : Fields) :
    marks mark (Fields.node fields) =
      (mark (Fields.node fields)).toList ++ marksUnder mark fields := by
  rw [marks, Fields.subschemas_node, marksUnder, ← List.filterMap_flatMap]
  cases found : mark (Fields.node fields) <;> simp [found]

namespace IsMark

/-- A node without properties that is no reference is unmarked. -/
theorem unmarked (isMark : IsMark mark) {fields : Fields}
    (noProperties : fields.get? "properties" = none) (noReference : fields.get? "$ref" = none) :
    mark (Fields.node fields) = none :=
  (isMark.same fields [] noProperties noReference).trans isMark.empty

end IsMark

namespace Compile

variable (isMark : IsMark mark)
include isMark

theorem marks_typeNode (name : String) : marks mark (typeNode name) = [] := by
  rw [typeNode, marks_node, isMark.unmarked (by simp [Fields.get?_cons]) (by simp [Fields.get?_cons])]
  simp [marksUnder, Fields.under]

theorem marks_nullNode : marks mark nullNode = [] := marks_typeNode isMark "null"

theorem marks_scalarNode (kind : ScalarKind) : marks mark (scalarNode kind) = [] := by
  have formatted (format : String) : marks mark
      (Fields.node [("type", .str "string"), ("format", .str format)]) = [] := by
    rw [marks_node, isMark.unmarked (by simp [Fields.get?_cons]) (by simp [Fields.get?_cons])]
    simp [marksUnder, Fields.under]
  cases kind with
  | date => exact formatted "date"
  | datetime => exact formatted "date-time"
  | _ => exact marks_typeNode isMark _

theorem marks_enumNode (type : EnumType) : marks mark (enumNode type) = [] := by
  unfold enumNode
  split <;>
  · rw [marks_node, isMark.unmarked (by simp [Fields.get?_cons]) (by simp [Fields.get?_cons])]
    simp [marksUnder, Fields.under]

theorem marks_arrayNode (element : Value) :
    marks mark (Fields.node [("type", .str "array"), ("items", element)]) = marks mark element := by
  rw [marks_node, isMark.unmarked (by simp [Fields.get?_cons]) (by simp [Fields.get?_cons])]
  simp [marksUnder, Fields.under, marks]

theorem marks_mapNode (key element : Value) :
    marks mark (mapNode key element) = marks mark element := by
  rw [mapNode, marks_node,
    isMark.unmarked (by simp [Fields.get?_cons]) (by simp [Fields.get?_cons])]
  simp [marksUnder, Fields.under, marks]

theorem marks_anyOfNode (alternatives : List Value) :
    marks mark (Fields.node [("anyOf", .list alternatives)]) =
      alternatives.flatMap (marks mark) := by
  rw [marks_node, isMark.unmarked (by simp [Fields.get?_cons]) (by simp [Fields.get?_cons])]
  have under : Fields.under "anyOf" (.list alternatives) = alternatives.flatMap Value.subschemas := by
    simp [Fields.under, Value.alternativeSchemas, Value.subschemasOfItems_eq]
  simp only [marksUnder, List.flatMap_cons, List.flatMap_nil, List.append_nil, under,
    List.filterMap_flatMap, Option.toList_none, List.nil_append]
  rfl

theorem marks_nullable {node : Value} (isCompiled : IsCompiled node) :
    marks mark (nullable node) = marks mark node := by
  obtain ⟨fields, rfl⟩ := isCompiled.named
  by_cases single : ∃ name, fields.get? "type" = some (.str name)
  · obtain ⟨name, single⟩ := single
    have kept : marksUnder mark (fields.filter fun field => field.1 != "type") =
        marksUnder mark fields := by
      clear isCompiled single
      induction fields with
      | nil => rfl
      | cons field fields ih =>
          obtain ⟨keyword, value⟩ := field
          by_cases isType : keyword = "type"
          · subst isType
            simpa [marksUnder_cons, Fields.under] using ih
          · simpa [marksUnder_cons, isType] using ih
    rw [nullable_of_single single, marks_node, marks_node, isMark.same _ fields
      (by simp [Fields.get?_cons, Fields.get?_filter_ne])
      (by simp [Fields.get?_cons, Fields.get?_filter_ne]), ← kept]
    simp [marksUnder, Fields.under]
  · rw [nullable_of_other fun name typed => single ⟨name, by simpa using typed⟩,
      marks_anyOfNode isMark]
    simp [marks_nullNode isMark]

theorem marks_unionNode {nodes : List Value} (compiled : ∀ node ∈ nodes, IsCompiled node)
    (nilable : Bool) : marks mark (unionNode nilable nodes) = nodes.flatMap (marks mark) := by
  match nodes with
  | [] => simpa [unionNode] using marks_nullNode isMark
  | [single] =>
      cases nilable with
      | false => simp [unionNode]
      | true => simp [unionNode, marks_nullable isMark (compiled single List.mem_cons_self)]
  | first :: second :: rest =>
      cases nilable <;> simp [unionNode, marks_anyOfNode isMark, marks_nullNode isMark]

theorem marks_described (fields : Fields) (description : Value) :
    marks mark (Fields.node (fields.put "description" description)) =
      marks mark (Fields.node fields) := by
  have kept : marksUnder mark (fields.put "description" description) = marksUnder mark fields := by
    induction fields with
    | nil => simp [Fields.put, marksUnder, Fields.under]
    | cons field fields ih =>
        obtain ⟨keyword, value⟩ := field
        by_cases same : keyword = "description"
        · simp [Fields.put, same, marksUnder, Fields.under]
        · simp_all [Fields.put, marksUnder]
  rw [marks_node, marks_node, kept,
    isMark.same _ fields (by simp [Fields.get?_put]) (by simp [Fields.get?_put])]

theorem marks_fieldNode {node : Value} (isCompiled : IsCompiled node) (required : Bool)
    (description : Option String) :
    marks mark (fieldNode required description node) = marks mark node := by
  obtain ⟨fields, widened, described⟩ := exists_fieldNode isCompiled required description
  have undescribed : marks mark (fieldNode required description node) =
      marks mark (Fields.node fields) := by
    rcases described with plain | ⟨text, described⟩
    · rw [plain]
    · rw [described, marks_described isMark]
  rw [undescribed, widened]
  split
  · exact marks_nullable isMark isCompiled
  · rfl

theorem marks_tagNode (name : String) : marks mark (tagNode name) = [] := by
  rw [tagNode, marks_node, isMark.unmarked (by simp [Fields.get?_cons]) (by simp [Fields.get?_cons])]
  simp [marksUnder, Fields.under]

omit isMark in
theorem marks_refNode (options : Options) (name : String) :
    marks mark (refNode options name) = (mark (refNode options name)).toList := by
  rw [refNode, marks_node]
  simp [marksUnder, Fields.under]

omit isMark in
/-- The properties of a record are marked as the nodes of its fields are. -/
theorem marks_properties (tag : Option String) {fields : Fields}
    (distinct : (fields.map Prod.fst).Nodup) (free : typeKey ∉ fields.map Prod.fst)
    (tagged : ∀ name, marks mark (tagNode name) = []) :
    ((Fields.node (Fields.putAll (tag.toList.map fun name => (typeKey, tagNode name))
      fields)).propertySchemas).filterMap mark = fields.flatMap fun field => marks mark field.2 := by
  rw [Fields.putAll_eq_append distinct]
  · simp only [Fields.node, Value.propertySchemas_ofFields,
      List.flatMap_append, List.filterMap_append, List.filterMap_flatMap]
    cases tag with
    | none => rfl
    | some name =>
        have tagged : List.filterMap mark (tagNode name).subschemas = [] := tagged name
        simp only [Option.toList_some, List.map_cons, List.map_nil, List.flatMap_cons,
          List.flatMap_nil, List.append_nil, tagged, List.nil_append]
        rfl
  · intro name isField isTag
    obtain rfl : name = typeKey := by cases tag <;> simp_all
    exact free isField

omit isMark in
/-- What marks the properties of a record marks the node of one of its fields. Of fields with one
name the last counts, so not every field need be found there. -/
theorem exists_mem_of_mem_marks_properties (tag : Option String) {fields : Fields} {found : α}
    (tagged : ∀ name, marks mark (tagNode name) = [])
    (isFound : found ∈ ((Fields.node (Fields.putAll (tag.toList.map fun name =>
      (typeKey, tagNode name)) fields)).propertySchemas).filterMap mark) :
    ∃ field ∈ fields, found ∈ marks mark field.2 := by
  rw [Fields.node, Value.propertySchemas_ofFields, List.filterMap_flatMap, List.mem_flatMap]
    at isFound
  obtain ⟨entry, isEntry, isFound⟩ := isFound
  cases Fields.mem_or_mem_of_mem_putAll isEntry with
  | inl isTag =>
      obtain ⟨name, -, rfl⟩ := List.mem_map.mp isTag
      have isFound : found ∈ marks mark (tagNode name) := isFound
      rw [tagged] at isFound
      cases isFound
  | inr isField => exact ⟨entry, isField, isFound⟩

omit isMark in
/-- The node of a struct is marked itself and in its properties. -/
theorem marks_structNode_eq (options : Options) (struct : Struct) (fields : Fields) :
    marks mark (structNode options struct fields) =
      (mark (structNode options struct fields)).toList ++
        (Fields.node (Fields.putAll [(typeKey, tagNode struct.name)] fields)).propertySchemas.filterMap
          mark := by
  unfold structNode
  rw [marks_node]
  congr 1
  cases options.structDescriptions <;> simp [marksUnder, Fields.under]

theorem marks_structNode (options : Options) (struct : Struct) {fields : Fields}
    (distinct : (fields.map Prod.fst).Nodup) (free : typeKey ∉ fields.map Prod.fst) :
    marks mark (structNode options struct fields) =
      (mark (structNode options struct fields)).toList ++
        fields.flatMap fun field => marks mark field.2 := by
  rw [marks_structNode_eq, ← marks_properties (some struct.name) distinct free (marks_tagNode isMark)]
  rfl

theorem mem_marks_structNode (options : Options) (struct : Struct) {fields : Fields} {found : α}
    (isFound : found ∈ marks mark (structNode options struct fields)) :
    mark (structNode options struct fields) = some found ∨
      ∃ field ∈ fields, found ∈ marks mark field.2 := by
  rw [marks_structNode_eq, List.mem_append, Option.mem_toList] at isFound
  apply isFound.imp_right
  exact exists_mem_of_mem_marks_properties (some struct.name) (marks_tagNode isMark)

/-- The node of a fixed record is marked itself and in its properties. -/
theorem marks_recordNode_eq (name description : Option String) (names : List String)
    (fields : Fields) :
    marks mark (recordNode name description names fields) =
      (mark (recordNode name description names fields)).toList ++
        (Fields.node (Fields.putAll (name.toList.map fun name => (typeKey, tagNode name))
          fields)).propertySchemas.filterMap mark := by
  have closed : List.filterMap mark (Value.bool false).subschemas = [] := by
    simp [Value.subschemas, isMark.closed]
  unfold recordNode
  rw [marks_node]
  congr 1
  cases name <;> cases nonEmpty description <;> simp [marksUnder, Fields.under, closed]

theorem marks_recordNode (name description : Option String) (names : List String) {fields : Fields}
    (distinct : (fields.map Prod.fst).Nodup) (free : typeKey ∉ fields.map Prod.fst) :
    marks mark (recordNode name description names fields) =
      (mark (recordNode name description names fields)).toList ++
        fields.flatMap fun field => marks mark field.2 := by
  rw [marks_recordNode_eq isMark, marks_properties name distinct free (marks_tagNode isMark)]

theorem mem_marks_recordNode (name description : Option String) (names : List String)
    {fields : Fields} {found : α}
    (isFound : found ∈ marks mark (recordNode name description names fields)) :
    mark (recordNode name description names fields) = some found ∨
      ∃ field ∈ fields, found ∈ marks mark field.2 := by
  rw [marks_recordNode_eq isMark, List.mem_append, Option.mem_toList] at isFound
  apply isFound.imp_right
  exact exists_mem_of_mem_marks_properties name (marks_tagNode isMark)

end Compile

end TypedReply
