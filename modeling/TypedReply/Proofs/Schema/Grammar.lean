import TypedReply.Proofs.Schema.Building

/-!
# The grammar of compiled schemas

What is compiled is built of nodes whose keywords are known and differ, in which schemas stand as
the entries of tables, as items, as further values and as alternatives, and which require no property
that they do not declare. A pass over schemas can follow this grammar.
-/

namespace TypedReply

/-- The keywords of compiled schemas: those that say something about values, and the annotations. -/
def emittedKeywords : List String := keywordNames ++ ["description", "format"]

/-- The keywords of a node are known and differ, and what it requires is declared. -/
structure IsRegular (tables : List String) (fields : Fields) : Prop where
  distinct : (fields.map Prod.fst).Nodup
  known : ∀ name ∈ fields.map Prod.fst, name ∈ emittedKeywords ∨ name ∈ tables
  required : ∀ value, fields.get? "required" = some value →
    ∃ (names : List String) (table : Fields), value = .list (names.map .str) ∧
      fields.get? "properties" = some (Fields.node table) ∧ names ⊆ table.map Prod.fst

/-- A schema whose tables of schemas stand under some names, and all of whose nodes meet a
condition. -/
inductive IsSchema (tables : List String) (condition : Fields → Prop) : Value → Prop where
  | node (fields : Fields) (regular : IsRegular tables fields) (meets : condition fields)
      (isTable : ∀ name ∈ tables, ∀ value, fields.get? name = some value →
        ∃ table, value = Fields.node table)
      (inTable : ∀ name ∈ tables, ∀ table, fields.get? name = some (Fields.node table) →
        ∀ entry ∈ table, IsSchema tables condition entry.2)
      (items : ∀ sub, fields.get? "items" = some sub → IsSchema tables condition sub)
      (additional : ∀ sub, fields.get? "additionalProperties" = some sub → sub ≠ .bool false →
        IsSchema tables condition sub)
      (isList : ∀ value, fields.get? "anyOf" = some value → ∃ members, value = .list members)
      (among : ∀ members, fields.get? "anyOf" = some (.list members) →
        ∀ member ∈ members, IsSchema tables condition member) :
      IsSchema tables condition (Fields.node fields)

theorem Fields.node_inj {fields others : Fields} : node fields = node others ↔ fields = others :=
  Value.ofFields_inj

namespace IsSchema

variable {tables : List String} {condition : Fields → Prop} {fields : Fields}

theorem exists_fields {schema : Value} (isSchema : IsSchema tables condition schema) :
    ∃ fields, schema = Fields.node fields := by
  cases isSchema with
  | node fields => exact ⟨fields, rfl⟩

theorem isObject {schema : Value} (isSchema : IsSchema tables condition schema) :
    schema.isObject = true := by
  obtain ⟨fields, rfl⟩ := isSchema.exists_fields
  rfl

theorem isRegular (isSchema : IsSchema tables condition (Fields.node fields)) :
    IsRegular tables fields := by
  generalize isNode : Fields.node fields = node at isSchema
  cases isSchema with
  | node others regular =>
      obtain rfl := Fields.node_inj.mp isNode
      exact regular

theorem meets (isSchema : IsSchema tables condition (Fields.node fields)) : condition fields := by
  generalize isNode : Fields.node fields = node at isSchema
  cases isSchema with
  | node others regular meets =>
      obtain rfl := Fields.node_inj.mp isNode
      exact meets

/-- What stands in the tables of a node are schemas. -/
theorem table {name : String} {value : Value}
    (isSchema : IsSchema tables condition (Fields.node fields)) (isName : name ∈ tables)
    (found : fields.get? name = some value) : ∃ table, value = Fields.node table ∧
      ∀ entry ∈ table, IsSchema tables condition entry.2 := by
  generalize isNode : Fields.node fields = node at isSchema
  cases isSchema with
  | node others _ _ isTable inTable =>
      obtain rfl := Fields.node_inj.mp isNode
      obtain ⟨table, rfl⟩ := isTable name isName value found
      exact ⟨table, rfl, inTable name isName table found⟩

theorem item {sub : Value} (isSchema : IsSchema tables condition (Fields.node fields))
    (found : fields.get? "items" = some sub) : IsSchema tables condition sub := by
  generalize isNode : Fields.node fields = node at isSchema
  cases isSchema with
  | node others _ _ _ _ items =>
      obtain rfl := Fields.node_inj.mp isNode
      exact items sub found

/-- The alternatives of a node are schemas. -/
theorem members {value : Value} (isSchema : IsSchema tables condition (Fields.node fields))
    (found : fields.get? "anyOf" = some value) : ∃ members, value = .list members ∧
      ∀ member ∈ members, IsSchema tables condition member := by
  generalize isNode : Fields.node fields = node at isSchema
  cases isSchema with
  | node others _ _ _ _ _ _ isList among =>
      obtain rfl := Fields.node_inj.mp isNode
      obtain ⟨members, rfl⟩ := isList value found
      exact ⟨members, rfl, among members found⟩

/-- A weaker condition is met where a condition is. -/
theorem imp {weaker : Fields → Prop} {schema : Value} (implies : ∀ fields, condition fields →
    weaker fields) (isSchema : IsSchema tables condition schema) :
    IsSchema tables weaker schema := by
  induction isSchema with
  | node fields regular meets isTable _ _ _ isList _ inTable items additional among =>
      exact node fields regular (implies fields meets) isTable inTable items additional isList among

/-- A node under whose keywords there are no schemas. -/
theorem leaf (regular : IsRegular tables fields) (meets : condition fields)
    (withoutTables : ∀ name ∈ tables, fields.get? name = none)
    (withoutItems : fields.get? "items" = none)
    (withoutFurther : fields.get? "additionalProperties" = none)
    (withoutMembers : fields.get? "anyOf" = none) :
    IsSchema tables condition (Fields.node fields) := by
  apply node fields regular meets
  · intro name isName value found
    simp [withoutTables name isName] at found
  · intro name isName table found
    simp [withoutTables name isName] at found
  · simp [withoutItems]
  · simp [withoutFurther]
  · simp [withoutMembers]
  · simp [withoutMembers]

/-- A node stays one when it is worded otherwise, with the same schemas under its keywords. -/
theorem reworded {others : Fields} (isSchema : IsSchema tables condition (Fields.node fields))
    (distinct : (others.map Prod.fst).Nodup)
    (known : ∀ name ∈ others.map Prod.fst, name ∈ emittedKeywords ∨ name ∈ tables)
    (meets : condition others)
    (same : ∀ name, name ∈ tables ∨ name = "properties" ∨ name = "required" ∨ name = "items" ∨
      name = "additionalProperties" ∨ name = "anyOf" → others.get? name = fields.get? name) :
    IsSchema tables condition (Fields.node others) := by
  generalize isNode : Fields.node fields = rest at isSchema
  cases isSchema with
  | node found regular _ isTable inTable items additional isList among =>
      obtain rfl := Fields.node_inj.mp isNode
      have properties := same "properties" (by simp)
      have sameTable (name) (isName : name ∈ tables) := same name (.inl isName)
      apply node others
      · refine ⟨distinct, known, ?_⟩
        rw [properties, same "required" (by simp)]
        exact regular.required
      · exact meets
      · intro name isName
        rw [sameTable name isName]
        exact isTable name isName
      · intro name isName
        rw [sameTable name isName]
        exact inTable name isName
      · rw [same "items" (by simp)]
        exact items
      · rw [same "additionalProperties" (by simp)]
        exact additional
      · rw [same "anyOf" (by simp)]
        exact isList
      · rw [same "anyOf" (by simp)]
        exact among

/-- Tables may stand under more names, as long as no keyword of a node is one of them. -/
theorem widened {more : List String} {schema : Value} (subset : tables ⊆ more)
    (fresh : ∀ name ∈ more, name ∈ tables ∨ name ∉ emittedKeywords)
    (isSchema : IsSchema tables condition schema) : IsSchema more condition schema := by
  induction isSchema with
  | node fields regular meets isTable _ _ _ isList _ inTable items additional among =>
      have absent (name : String) (isMore : name ∈ more) (isNew : name ∉ tables) :
          fields.get? name = none := by
        apply Fields.get?_eq_none_of_not_mem
        intro isName
        exact (regular.known name isName).elim ((fresh name isMore).resolve_left isNew) isNew
      apply node fields _ meets _ _ items additional isList among
      · exact ⟨regular.distinct, fun name isName =>
          (regular.known name isName).imp_right fun isTable => subset isTable, regular.required⟩
      · intro name isMore value found
        by_cases isOld : name ∈ tables
        · exact isTable name isOld value found
        · simp [absent name isMore isOld] at found
      · intro name isMore table found
        by_cases isOld : name ∈ tables
        · exact inTable name isOld table found
        · simp [absent name isMore isOld] at found

end IsSchema

namespace Compile

/-- A condition on nodes that all but enumerations and references meet, and those that are reached
do. -/
structure Permits (options : Options) (store : Store) (reached : Descriptor → Prop)
    (condition : Fields → Prop) : Prop where
  typed : ∀ {fields : Fields}, (∀ kinds, fields.get? "type" = some kinds →
      ∃ name, kinds = .str name ∨ kinds = .list [.str name, .str "null"]) →
    (∀ value, fields.get? "const" = some value → ∃ text, value = .str text) →
    fields.get? "$ref" = none → condition fields
  enum : ∀ type fields, reached (.enum type) → enumNode type = Fields.node fields →
    condition fields
  ref : ∀ id, reached (.struct id) →
    condition [("$ref", .str (options.refPrefix ++ (store.at id).name))]
  described : ∀ {fields : Fields} text, condition fields →
    condition (fields.put "description" (.str text))

variable {options : Options} {store : Store} {reached : Descriptor → Prop}
variable {condition : Fields → Prop} (permits : Permits options store reached condition)
include permits

theorem isSchema_typeNode (name : String) : IsSchema ["properties"] condition (typeNode name) := by
  apply IsSchema.leaf
  · constructor <;> simp [Fields.get?_cons, emittedKeywords, keywordNames]
  · exact permits.typed (by simp [Fields.get?_cons]) (by simp [Fields.get?_cons]) rfl
  all_goals simp [Fields.get?_cons]

theorem isSchema_scalarNode (kind : ScalarKind) :
    IsSchema ["properties"] condition (scalarNode kind) := by
  have formatted (format : String) : IsSchema ["properties"] condition
      (Fields.node [("type", .str "string"), ("format", .str format)]) := by
    apply IsSchema.leaf
    · constructor <;> simp [Fields.get?_cons, emittedKeywords, keywordNames]
    · exact permits.typed (by simp [Fields.get?_cons]) (by simp [Fields.get?_cons]) rfl
    all_goals simp [Fields.get?_cons]
  cases kind with
  | date => exact formatted "date"
  | datetime => exact formatted "date-time"
  | _ => exact isSchema_typeNode permits _

omit permits in
theorem exists_enumNode (type : EnumType) :
    ∃ kinds choices, enumNode type = Fields.node [("type", kinds), ("enum", choices)] := by
  unfold enumNode
  split <;> exact ⟨_, _, rfl⟩

theorem isSchema_enumNode {type : EnumType} (isReached : reached (.enum type)) :
    IsSchema ["properties"] condition (enumNode type) := by
  obtain ⟨kinds, choices, isNode⟩ := exists_enumNode type
  have meets := permits.enum type _ isReached isNode
  rw [isNode]
  apply IsSchema.leaf
  · constructor <;> simp [Fields.get?_cons, emittedKeywords, keywordNames]
  · exact meets
  all_goals simp [Fields.get?_cons]

theorem isSchema_arrayNode {inner : Value} (isSchema : IsSchema ["properties"] condition inner) :
    IsSchema ["properties"] condition
      (Fields.node [("type", .str "array"), ("items", inner)]) := by
  apply IsSchema.node
  · constructor <;> simp [Fields.get?_cons, emittedKeywords, keywordNames]
  · exact permits.typed (by simp [Fields.get?_cons]) (by simp [Fields.get?_cons]) rfl
  all_goals simp [Fields.get?_cons, isSchema]

theorem isSchema_mapNode {key value : Value}
    (isSchema : IsSchema ["properties"] condition value) :
    IsSchema ["properties"] condition (mapNode key value) := by
  apply IsSchema.node
  · constructor <;> simp [Fields.get?_cons, emittedKeywords, keywordNames]
  · exact permits.typed (by simp [Fields.get?_cons]) (by simp [Fields.get?_cons]) rfl
  all_goals simp [Fields.get?_cons, isSchema]

theorem isSchema_anyOfNode {members : List Value}
    (each : ∀ member ∈ members, IsSchema ["properties"] condition member) :
    IsSchema ["properties"] condition (Fields.node [("anyOf", .list members)]) := by
  apply IsSchema.node
  · constructor <;> simp [Fields.get?_cons, emittedKeywords, keywordNames]
  · exact permits.typed (by simp [Fields.get?_cons]) (by simp [Fields.get?_cons]) rfl
  all_goals simp [Fields.get?_cons]
  exact each

theorem isSchema_nullable {node : Value} (isCompiled : IsCompiled node)
    (isSchema : IsSchema ["properties"] condition node) :
    IsSchema ["properties"] condition (nullable node) := by
  obtain ⟨fields, rfl⟩ := isCompiled.named
  by_cases single : ∃ name, fields.get? "type" = some (.str name)
  · obtain ⟨name, single⟩ := single
    have regular := isSchema.isRegular
    have names : (fields.filter fun field => field.1 != "type").map Prod.fst =
        (fields.map Prod.fst).filter (· != "type") := by
      rw [List.filter_map]
      rfl
    rw [nullable_of_single single]
    apply isSchema.reworded
    · rw [List.map_cons, names, List.nodup_cons]
      exact ⟨by simp, regular.distinct.filter _⟩
    · rw [List.map_cons, names, List.forall_mem_cons]
      refine ⟨by simp [emittedKeywords, keywordNames], fun keyword isKeyword => ?_⟩
      exact regular.known keyword (List.mem_of_mem_filter isKeyword)
    · obtain ⟨noConstant, -, noReference⟩ := isCompiled.bare name (by simpa using single)
      simp only [Fields.get?_node] at noConstant noReference
      apply permits.typed
      · simp [Fields.get?_cons]
      · simp [Fields.get?_cons, Fields.get?_filter_ne, noConstant]
      · simpa [Fields.get?_cons, Fields.get?_filter_ne] using noReference
    · rintro keyword isKeyword
      have different : keyword ≠ "type" := by
        rintro rfl
        simp at isKeyword
      simp [Fields.get?_cons, Fields.get?_filter_ne, different]
  · rw [nullable_of_other fun name typed => single ⟨name, by simpa using typed⟩]
    apply isSchema_anyOfNode permits
    simp only [List.forall_mem_cons]
    exact ⟨isSchema, isSchema_typeNode permits "null", List.forall_mem_nil _⟩

theorem isSchema_unionNode {nodes : List Value}
    (each : ∀ node ∈ nodes, IsCompiled node ∧ IsSchema ["properties"] condition node)
    (nilable : Bool) : IsSchema ["properties"] condition (unionNode nilable nodes) := by
  match nodes with
  | [] => exact isSchema_typeNode permits "null"
  | [single] =>
      obtain ⟨isCompiled, isSchema⟩ := each single List.mem_cons_self
      cases nilable with
      | false => exact isSchema
      | true => exact isSchema_nullable permits isCompiled isSchema
  | first :: second :: rest =>
      apply isSchema_anyOfNode permits
      intro member isMember
      rcases List.mem_append.mp isMember with isNode | isNull
      · exact (each member isNode).2
      · cases nilable with
        | false => cases isNull
        | true =>
            obtain rfl := List.mem_singleton.mp isNull
            exact isSchema_typeNode permits "null"

theorem isSchema_described {fields : Fields}
    (isSchema : IsSchema ["properties"] condition (Fields.node fields)) (text : String) :
    IsSchema ["properties"] condition (Fields.node (fields.put "description" (.str text))) := by
  have regular := isSchema.isRegular
  apply isSchema.reworded
  · exact Fields.nodup_put regular.distinct _ _
  · intro name isName
    rw [Fields.map_fst_put] at isName
    split at isName
    · exact regular.known name isName
    · rcases List.mem_append.mp isName with isOld | isNew
      · exact regular.known name isOld
      · exact .inl (by simp [List.mem_singleton.mp isNew, emittedKeywords])
  · exact permits.described text isSchema.meets
  · rintro keyword isKeyword
    have different : keyword ≠ "description" := by
      rintro rfl
      simp at isKeyword
    rw [Fields.get?_put, if_neg different]

theorem isSchema_fieldNode {node : Value} (isCompiled : IsCompiled node)
    (isSchema : IsSchema ["properties"] condition node) (required : Bool)
    (description : Option String) :
    IsSchema ["properties"] condition (fieldNode required description node) := by
  obtain ⟨fields, widened, described⟩ := exists_fieldNode isCompiled required description
  have undescribed : IsSchema ["properties"] condition (Fields.node fields) := by
    rw [widened]
    split
    · exact isSchema_nullable permits isCompiled isSchema
    · exact isSchema
  rcases described with plain | ⟨text, described⟩
  · exact plain ▸ undescribed
  · exact described ▸ isSchema_described permits undescribed text

theorem isSchema_tagNode (name : String) : IsSchema ["properties"] condition (tagNode name) := by
  apply IsSchema.leaf
  · constructor <;> simp [Fields.get?_cons, emittedKeywords, keywordNames]
  · exact permits.typed (by simp [Fields.get?_cons]) (by simp [Fields.get?_cons]) rfl
  all_goals simp [Fields.get?_cons]

theorem isSchema_refNode {id : StructId} (isReached : reached (.struct id)) :
    IsSchema ["properties"] condition (refNode options (store.at id).name) := by
  apply IsSchema.leaf
  · constructor <;> simp [Fields.get?_cons, emittedKeywords, keywordNames]
  · exact permits.ref id isReached
  all_goals simp [Fields.get?_cons]

/-- The node of a record declares properties and requires some of them; it may be closed and
described. -/
theorem isSchema_declaring {properties rest : Fields} {names : List String}
    (each : ∀ entry ∈ properties, IsSchema ["properties"] condition entry.2)
    (declared : names ⊆ properties.map Prod.fst)
    (few : (rest.map Prod.fst).Sublist ["additionalProperties", "description"])
    (closed : ∀ sub, Fields.get? rest "additionalProperties" = some sub → sub = .bool false) :
    IsSchema ["properties"] condition (Fields.node (("type", .str "object") ::
      ("properties", Fields.node properties) :: ("required", .list (names.map .str)) :: rest)) := by
  have absent (name : String) (other : name ∉ ["additionalProperties", "description"]) :
      Fields.get? rest name = none :=
    Fields.get?_eq_none_of_not_mem fun isName => other (few.subset isName)
  have known : ∀ name ∈ rest.map Prod.fst, name ∈ emittedKeywords :=
    fun name isName => (by decide : ["additionalProperties", "description"] ⊆ emittedKeywords)
      (few.subset isName)
  apply IsSchema.node
  · constructor
    · exact (few.cons_cons "required" |>.cons_cons "properties" |>.cons_cons "type").nodup
        (by decide)
    · simp only [List.map_cons, List.forall_mem_cons]
      refine ⟨.inl (by decide), .inl (by decide), .inl (by decide), ?_⟩
      exact fun name isName => .inl (known name isName)
    · intro value required
      refine ⟨names, properties, ?_, by simp [Fields.get?_cons], declared⟩
      simpa [Fields.get?_cons, eq_comm] using required
  · exact permits.typed (by simp [Fields.get?_cons]) (by simp [Fields.get?_cons, absent])
      (by simp [Fields.get?_cons, absent])
  · simp [Fields.get?_cons]
  · intro name isName table found
    obtain rfl := List.mem_singleton.mp isName
    have isTable : properties = table := by simpa [Fields.get?_cons, Fields.node_inj] using found
    exact isTable ▸ each
  · simp [Fields.get?_cons, absent]
  · intro sub found further
    have found : Fields.get? rest "additionalProperties" = some sub := by
      simpa [Fields.get?_cons] using found
    exact (further (closed sub found)).elim
  · simp [Fields.get?_cons, absent]
  · simp [Fields.get?_cons, absent]

theorem isSchema_structNode (struct : Struct) {nodes : Fields}
    (names : nodes.map Prod.fst = struct.fields.map (·.name))
    (each : ∀ node ∈ nodes, IsSchema ["properties"] condition node.2) :
    IsSchema ["properties"] condition (structNode options struct nodes) := by
  have described : structNode options struct nodes = Fields.node (("type", .str "object") ::
      ("properties", Fields.node (Fields.putAll [(typeKey, tagNode struct.name)] nodes)) ::
      ("required", .list ((typeKey :: requiredNames struct.fields).map .str)) ::
      if options.structDescriptions then [("description", Value.str
        ((nonEmpty struct.description).getD (struct.name ++ " struct")))] else []) := rfl
  rw [described]
  apply isSchema_declaring permits
  · intro entry isEntry
    rcases Fields.mem_or_mem_of_mem_putAll isEntry with isTag | isNode
    · obtain rfl := List.mem_singleton.mp isTag
      exact isSchema_tagNode permits _
    · exact each entry isNode
  · intro name isRequired
    rw [Fields.mem_map_fst_putAll, names]
    rcases List.mem_cons.mp isRequired with rfl | isRequired
    · simp
    · obtain ⟨field, isField, -, rfl⟩ := mem_requiredNames.mp isRequired
      exact .inr (List.mem_map_of_mem isField)
  · split <;> simp
  · split <;> simp [Fields.get?_cons]

theorem isSchema_recordNode (record : FixedRecord) {nodes : Fields}
    (names : nodes.map Prod.fst = record.fields.map (·.name))
    (each : ∀ node ∈ nodes, IsSchema ["properties"] condition node.2) :
    IsSchema ["properties"] condition
      (recordNode record.name record.description (record.fields.map (·.name)) nodes) := by
  apply isSchema_declaring permits
  · intro entry isEntry
    rcases Fields.mem_or_mem_of_mem_putAll isEntry with isTag | isNode
    · cases tag : record.name with
      | none => simp [tag] at isTag
      | some name =>
          obtain rfl : entry = (typeKey, tagNode name) := by simpa [tag] using isTag
          exact isSchema_tagNode permits name
    · exact each entry isNode
  · intro name isRequired
    rw [Fields.mem_map_fst_putAll, names]
    exact List.mem_append.mp isRequired
  · cases nonEmpty record.description <;> simp
  · cases nonEmpty record.description <;> simp [Fields.get?_cons]

omit permits in
/-- Every way of building a node builds one of the grammar, if those of enumerations and references
meet the condition. -/
theorem builds_isSchema
    (parts : ∀ {descriptor part}, reached descriptor → Descriptor.Part store descriptor part →
      reached part) (permits : Permits options store reached condition) :
    Builds options store reached (IsSchema ["properties"] condition) where
  parts := parts
  scalar := isSchema_scalarNode permits
  enum _ := isSchema_enumNode permits
  array := isSchema_arrayNode permits
  map := isSchema_mapNode permits
  null := isSchema_typeNode permits "null"
  nullable := isSchema_nullable permits
  union each := isSchema_unionNode permits each
  field := isSchema_fieldNode permits
  fixed record _ _ names _ each := isSchema_recordNode permits record names each
  struct id _ _ names _ each := isSchema_structNode permits (store.at id) names each
  ref _ := isSchema_refNode permits

end Compile

end TypedReply
