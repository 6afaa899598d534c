import TypedReply.Proofs.Schema.Validity

/-!
# What the compiled nodes admit

Each node that the compiler builds is an object of named values, and what it admits is read off its
keywords. A node that is widened by null admits null beside what it admitted before, unless a
keyword beside its type shuts null out.
-/

namespace TypedReply

variable {definitions : Definitions} {value : Value}

/-! ## Keywords of a node of named values -/

/-- What a node of named values admits, keyword by keyword. -/
theorem validates_node_iff (fields : Fields) :
    Validates definitions (Fields.node fields) value ↔
      (∀ kinds, fields.get? "type" = some kinds → admitsType kinds value = true) ∧
      (∀ choices, fields.get? "enum" = some (.list choices) →
        ∃ choice ∈ choices, choice.sameJson value = true) ∧
      (∀ choice, fields.get? "const" = some choice → choice.sameJson value = true) ∧
      (∀ sub, fields.get? "items" = some sub → ∀ elements, value = .list elements →
        ∀ item ∈ elements, Validates definitions sub item) ∧
      (∀ names, fields.get? "required" = some (.list names) → value.isObject = true →
        ∀ name, .str name ∈ names → (value.get? name).isSome = true) ∧
      (∀ name part, value.get? name = some part →
        ∀ sub, (fields.get? "properties").bind (·.get? name) = some sub →
          Validates definitions sub part) ∧
      (∀ sub, fields.get? "additionalProperties" = some sub →
        ∀ name part, value.get? name = some part →
          (fields.get? "properties").bind (·.get? name) = none →
            Validates definitions sub part) ∧
      (∀ alternatives, fields.get? "anyOf" = some (.list alternatives) →
        ∃ alternative ∈ alternatives, Validates definitions alternative value) ∧
      (∀ reference, fields.get? "$ref" = some reference →
        ∃ target, definitions.Refers reference target ∧ Validates definitions target value) := by
  rw [validates_iff (Fields.isObject_node fields)]
  constructor
  · rintro ⟨type, enum, const, items, required, properties, additional, anyOf, ref⟩
    simp only [Fields.get?_node] at *
    exact ⟨type, enum, const, items, required, properties, additional, anyOf, ref⟩
  · rintro ⟨type, enum, const, items, required, properties, additional, anyOf, ref⟩
    constructor <;> simp only [Fields.get?_node] <;> assumption

namespace Compile

@[simp]
theorem validates_typeNode (name : String) :
    Validates definitions (typeNode name) value ↔ value.hasType name = true := by
  simp [typeNode, validates_node_iff, Fields.get?_cons, admitsType]

@[simp]
theorem validates_nullNode : Validates definitions nullNode value ↔ value = .null := by
  simp [nullNode]

end Compile

/-- The type that JSON gives to the values of a scalar kind: calendar values are texts. -/
def ScalarKind.jsonType : ScalarKind → String
  | .string => "string"
  | .int => "integer"
  | .float => "number"
  | .bool => "boolean"
  | .date => "string"
  | .datetime => "string"

namespace Compile

@[simp]
theorem validates_scalarNode (kind : ScalarKind) :
    Validates definitions (scalarNode kind) value ↔ value.hasType kind.jsonType = true := by
  cases kind <;>
    simp [scalarNode, ScalarKind.jsonType, validates_node_iff, Fields.get?_cons, admitsType]

/-- The node of an enumeration of texts admits the texts of its choices. -/
theorem validates_enumNode {type : EnumType} (texts : type.literals = []) :
    Validates definitions (enumNode type) value ↔
      ∃ text, value = .str text ∧ ∃ choice ∈ type.values, choice.sameJson (.str text) = true := by
  simp only [enumNode, texts, List.isEmpty_nil, if_true]
  constructor
  · intro valid
    obtain ⟨text, rfl⟩ : ∃ text, value = .str text := by
      simpa [validates_node_iff, Fields.get?_cons, admitsType] using
        ((validates_node_iff _).mp valid).1
    exact ⟨text, rfl, by simpa [validates_node_iff, Fields.get?_cons, admitsType] using valid⟩
  · rintro ⟨text, rfl, choice⟩
    simpa [validates_node_iff, Fields.get?_cons, admitsType, Value.get?, Value.entries?] using choice

/-- The node of a list admits the lists of what the node of its elements admits. -/
theorem validates_arrayNode (element : Value) :
    Validates definitions (Fields.node [("type", .str "array"), ("items", element)]) value ↔
      ∃ items, value = .list items ∧ ∀ item ∈ items, Validates definitions element item := by
  constructor
  · intro valid
    simp only [validates_node_iff, Fields.get?_cons, admitsType] at valid
    obtain ⟨items, rfl⟩ : ∃ items, value = .list items := by simpa using valid.1
    exact ⟨items, rfl, valid.2.2.2.1 element (by simp) items rfl⟩
  · rintro ⟨items, rfl, each⟩
    simpa [validates_node_iff, Fields.get?_cons, admitsType, Value.get?, Value.entries?]
      using each

/-- The node of a map admits the objects of what the node of its values admits. -/
theorem validates_mapNode (key element : Value) :
    Validates definitions (mapNode key element) value ↔
      value.isObject = true ∧
        ∀ name part, value.get? name = some part → Validates definitions element part := by
  constructor
  · intro valid
    simp only [mapNode, validates_node_iff, Fields.get?_cons, admitsType] at valid
    obtain ⟨entries, rfl⟩ : ∃ entries, value = .object entries := by simpa using valid.1
    exact ⟨rfl, fun name part found =>
      valid.2.2.2.2.2.2.1 element (by simp) name part found (by simp)⟩
  · rintro ⟨isObject, each⟩
    obtain ⟨entries, rfl⟩ : ∃ entries, value = .object entries := by
      cases value <;> simp_all [Value.isObject, Value.entries?]
    simpa [mapNode, validates_node_iff, Fields.get?_cons, admitsType] using each

/-- A reference admits what its target admits. -/
theorem validates_refNode (options : Options) {nodes : Value.Entries} (name : String) :
    Validates ⟨options.refPrefix, nodes⟩ (refNode options name) value ↔
      ∃ target, nodes.get? name = some target ∧
        Validates ⟨options.refPrefix, nodes⟩ target value := by
  simp [refNode, validates_node_iff, Fields.get?_cons, Definitions.Refers]

/-! ## Widening by null -/

/-- A node of named values in which a single type is never accompanied by `const`, `anyOf` or
`$ref`: what all compiled nodes of descriptors have in common. -/
structure IsCompiled (node : Value) : Prop where
  named : ∃ fields, node = Fields.node fields
  bare : ∀ name, node.get? "type" = some (.str name) →
    node.get? "const" = none ∧ node.get? "anyOf" = none ∧ node.get? "$ref" = none

/-- A list of choices beside a single type shuts null out, and still does beside that type and
null. -/
def ShutsNullOut (node : Value) : Prop :=
  ∃ name choices, node.get? "type" = some (.str name) ∧ node.get? "enum" = some (.list choices) ∧
    .null ∉ choices

theorem ShutsNullOut.not_validates {fields : Fields} (shuts : ShutsNullOut (Fields.node fields)) :
    ¬Validates definitions (Fields.node fields) .null := by
  obtain ⟨name, choices, -, listed, absent⟩ := shuts
  intro valid
  obtain ⟨choice, isChoice, same⟩ :=
    ((validates_node_iff fields).mp valid).2.1 choices (by simpa using listed)
  exact absent ((Value.sameJson_null choice).mp same ▸ isChoice)

/-- A node with a single type is widened in its type. -/
theorem nullable_of_single {fields : Fields} {name : String}
    (single : fields.get? "type" = some (.str name)) :
    nullable (Fields.node fields) = Fields.node
      (("type", .list [.str name, .str "null"]) :: fields.filter fun field => field.1 != "type") := by
  simp only [nullable, Fields.get?_node, single]
  exact congrArg (fun rest => Value.object ((.str "type", .list [.str name, .str "null"]) :: rest))
    (erase_entriesOf fields "type")

/-- Any other node becomes an alternative of null. -/
theorem nullable_of_other {node : Value}
    (other : ∀ name, node.get? "type" ≠ some (.str name)) :
    nullable node = Fields.node [("anyOf", .list [node, nullNode])] := by
  unfold nullable
  split
  next name single => exact (other name single).elim
  next => rfl

@[simp]
theorem validates_anyOfNode (alternatives : List Value) :
    Validates definitions (Fields.node [("anyOf", .list alternatives)]) value ↔
      ∃ alternative ∈ alternatives, Validates definitions alternative value := by
  simp [validates_node_iff, Fields.get?_cons]

/-- What a node with a single type admits beside null when it is widened in its type. -/
theorem validates_widened {fields : Fields} {name : String}
    (single : fields.get? "type" = some (.str name)) (isCompiled : IsCompiled (Fields.node fields)) :
    Validates definitions (nullable (Fields.node fields)) value ↔
      Validates definitions (Fields.node fields) value ∨
        (value = .null ∧ ¬ShutsNullOut (Fields.node fields)) := by
  obtain ⟨noConst, noAlternatives, noReference⟩ :=
    isCompiled.bare name (by simpa using single)
  simp only [Fields.get?_node] at noConst noAlternatives noReference
  rw [nullable_of_single single]
  simp only [ShutsNullOut, validates_node_iff, Fields.get?_cons, Fields.get?_filter_ne,
    Fields.get?_node, single, noConst, noAlternatives, noReference]
  by_cases isNull : value = .null
  · subst isNull
    simp [admitsType, Value.get?, Value.entries?, Value.isObject]
  · simp [admitsType, isNull]

/-- A widened node admits what it admitted before, and null unless null is shut out. -/
theorem validates_nullable {node : Value} (isCompiled : IsCompiled node) :
    Validates definitions (nullable node) value ↔
      Validates definitions node value ∨ (value = .null ∧ ¬ShutsNullOut node) := by
  obtain ⟨fields, rfl⟩ := isCompiled.named
  by_cases single : ∃ name, fields.get? "type" = some (.str name)
  · obtain ⟨name, single⟩ := single
    exact validates_widened single isCompiled
  · have notShut : ¬ShutsNullOut (Fields.node fields) := by
      rintro ⟨name, choices, typed, -⟩
      exact single ⟨name, by simpa using typed⟩
    rw [nullable_of_other fun name typed => single ⟨name, by simpa using typed⟩]
    simp [notShut]

/-- A union's node admits what a member's node does, and null where the union is nilable or has no
member; a single member's node may shut null out. -/
theorem validates_unionNode {nodes : List Value} (compiled : ∀ node ∈ nodes, IsCompiled node)
    (nilable : Bool) :
    Validates definitions (unionNode nilable nodes) value ↔
      (∃ node ∈ nodes, Validates definitions node value) ∨
        (value = .null ∧
          (nodes = [] ∨ nilable = true ∧ ∀ node, nodes = [node] → ¬ShutsNullOut node)) := by
  match nodes with
  | [] => simp [unionNode]
  | [single] =>
      cases nilable with
      | false => simp [unionNode]
      | true => simp [unionNode, validates_nullable (compiled single (by simp))]
  | first :: second :: rest =>
      cases nilable with
      | false => simp [unionNode]
      | true =>
          simp only [unionNode, validates_anyOfNode, if_true]
          simp [or_assoc]

@[simp]
theorem validates_described (fields : Fields) (description : Value) :
    Validates definitions (Fields.node (fields.put "description" description)) value ↔
      Validates definitions (Fields.node fields) value := by
  simp [validates_node_iff, Fields.get?_put]

theorem exists_nullable {node : Value} (isCompiled : IsCompiled node) :
    ∃ fields, nullable node = Fields.node fields := by
  obtain ⟨fields, rfl⟩ := isCompiled.named
  by_cases single : ∃ name, fields.get? "type" = some (.str name)
  · exact ⟨_, nullable_of_single single.choose_spec⟩
  · exact ⟨_, nullable_of_other fun name typed => single ⟨name, by simpa using typed⟩⟩

/-- A field's node is that of its type, widened where it must be, beside its description. -/
theorem exists_fieldNode {node : Value} (isCompiled : IsCompiled node) (required : Bool)
    (description : Option String) :
    ∃ fields, Fields.node fields =
        (if !required && !acceptsNull node then nullable node else node) ∧
      (fieldNode required description node = Fields.node fields ∨
        ∃ text, fieldNode required description node =
          Fields.node (fields.put "description" (.str text))) := by
  obtain ⟨fields, widened⟩ : ∃ fields, Fields.node fields =
      (if !required && !acceptsNull node then nullable node else node) := by
    split
    · exact (exists_nullable isCompiled).imp fun fields same => same.symm
    · exact isCompiled.named.imp fun fields same => same.symm
  refine ⟨fields, widened, ?_⟩
  simp only [fieldNode, ← widened]
  cases nonEmpty description with
  | none => exact .inl rfl
  | some text =>
      refine .inr ⟨text, ?_⟩
      simp only [Fields.node, Value.ofFields_eq, Value.entries?, put_ofFields]

/-- A field's node admits what the node of its type does; a field that need not be given is widened
by null unless the node of its type says that it admits null. -/
theorem validates_fieldNode {node : Value} (isCompiled : IsCompiled node) (required : Bool)
    (description : Option String) :
    Validates definitions (fieldNode required description node) value ↔
      Validates definitions node value ∨ (required = false ∧ acceptsNull node = false ∧
        value = .null ∧ ¬ShutsNullOut node) := by
  obtain ⟨fields, widened, described⟩ := exists_fieldNode isCompiled required description
  have undescribed : Validates definitions (fieldNode required description node) value ↔
      Validates definitions (Fields.node fields) value := by
    rcases described with plain | ⟨text, described⟩
    · rw [plain]
    · rw [described, validates_described]
  rw [undescribed, widened]
  split
  next widens =>
    rw [validates_nullable isCompiled]
    simp_all
  next kept => simp_all

/-! ## Records -/

@[simp]
theorem validates_tagNode (name : String) :
    Validates definitions (tagNode name) value ↔ value = .str name := by
  constructor
  · intro valid
    simp only [tagNode, validates_node_iff, Fields.get?_cons, admitsType] at valid
    obtain ⟨text, rfl⟩ : ∃ text, value = .str text := by simpa using valid.1
    have same : name = text := by simpa using valid.2.2.1
    rw [same]
  · rintro rfl
    simp [tagNode, validates_node_iff, Fields.get?_cons, admitsType, Value.get?, Value.entries?]

/-- The properties of a record: its tag, if it has one, before its fields. -/
theorem get?_properties {fields : Fields} (distinct : (fields.map Prod.fst).Nodup)
    (free : typeKey ∉ fields.map Prod.fst) (tag : Option Value) (name : String) :
    Fields.get? (Fields.putAll (tag.toList.map fun node => (typeKey, node)) fields) name =
      if name = typeKey then tag else fields.get? name := by
  rw [Fields.get?_putAll distinct]
  by_cases same : name = typeKey
  · subst same
    cases tag <;> simp [Fields.get?_eq_none_of_not_mem free, Fields.get?_cons]
  · cases tag <;> simp [same, Fields.get?_cons]

/-- A struct's node admits the objects that carry its tag, have its required fields and hold under
each declared name what the field's node admits; other names are free. -/
theorem validates_structNode (options : Options) (struct : Struct) {fields : Fields}
    (distinct : (fields.map Prod.fst).Nodup) (free : typeKey ∉ fields.map Prod.fst) :
    Validates definitions (structNode options struct fields) value ↔
      value.get? typeKey = some (.str struct.name) ∧
      (∀ name ∈ requiredNames struct.fields, (value.get? name).isSome = true) ∧
      ∀ name part, value.get? name = some part → ∀ node, fields.get? name = some node →
        Validates definitions node part := by
  have property := get?_properties distinct free (some (tagNode struct.name))
  simp only [Option.toList_some, List.map_cons, List.map_nil] at property
  have keywords : Validates definitions (structNode options struct fields) value ↔
      value.hasType "object" = true ∧
      (value.isObject = true → ∀ name, name ∈ typeKey :: requiredNames struct.fields →
        (value.get? name).isSome = true) ∧
      ∀ name part, value.get? name = some part → ∀ node,
        (if name = typeKey then some (tagNode struct.name) else fields.get? name) = some node →
          Validates definitions node part := by
    unfold structNode
    cases options.structDescriptions <;>
      simp [validates_node_iff, Fields.get?_cons, admitsType, property]
  rw [keywords]
  constructor
  · rintro ⟨isObject, required, properties⟩
    obtain ⟨entries, rfl⟩ := (Value.hasType_object value).mp isObject
    obtain ⟨tag, tagged⟩ := Option.isSome_iff_exists.mp (required rfl typeKey (by simp))
    have isTag : tag = .str struct.name := by
      simpa using properties typeKey tag tagged (tagNode struct.name) (by simp)
    refine ⟨isTag ▸ tagged, fun name member => required rfl name (by simp [member]), ?_⟩
    intro name part found node declared
    refine properties name part found node ?_
    have different : name ≠ typeKey := by
      rintro rfl
      exact free (List.mem_map_of_mem (Fields.mem_of_get? declared))
    simp [different, declared]
  · rintro ⟨tagged, required, properties⟩
    obtain ⟨entries, rfl⟩ : ∃ entries, value = .object entries := by
      cases value <;> simp_all [Value.get?, Value.entries?]
    refine ⟨by simp, ?_, ?_⟩
    · intro _ name member
      rcases List.mem_cons.mp member with rfl | member
      · simp [tagged]
      · exact required name member
    · intro name part found node declared
      by_cases same : name = typeKey
      · subst same
        rw [tagged] at found
        cases found
        simp only [if_true, Option.some.injEq] at declared
        simp [← declared]
      · simp only [same, if_false] at declared
        exact properties name part found node declared

/-- A fixed record's node admits the objects with exactly its fields, beside its tag if it is named,
that hold under each name what the field's node admits. -/
theorem validates_recordNode (name description : Option String) {fields : Fields}
    (distinct : (fields.map Prod.fst).Nodup) (free : typeKey ∉ fields.map Prod.fst) :
    Validates definitions (recordNode name description (fields.map Prod.fst) fields) value ↔
      value.isObject = true ∧
      (∀ tag, name = some tag → value.get? typeKey = some (.str tag)) ∧
      (∀ name ∈ fields.map Prod.fst, (value.get? name).isSome = true) ∧
      (∀ key, (value.get? key).isSome = true →
        key ∈ fields.map Prod.fst ∨ key = typeKey ∧ name.isSome = true) ∧
      ∀ name part, value.get? name = some part → ∀ node, fields.get? name = some node →
        Validates definitions node part := by
  have property := get?_properties distinct free (name.map tagNode)
  have keywords : Validates definitions
        (recordNode name description (fields.map Prod.fst) fields) value ↔
      value.hasType "object" = true ∧
      (value.isObject = true → ∀ key, key ∈ (name.toList.map fun _ => typeKey) ++ fields.map Prod.fst →
        (value.get? key).isSome = true) ∧
      (∀ key part, value.get? key = some part → ∀ node,
        (if key = typeKey then name.map tagNode else fields.get? key) = some node →
          Validates definitions node part) ∧
      ∀ key part, value.get? key = some part →
        (if key = typeKey then name.map tagNode else fields.get? key) ≠ none := by
    unfold recordNode
    cases name <;> cases nonEmpty description <;>
      simp_all [validates_node_iff, Fields.get?_cons, admitsType]
  rw [keywords]
  constructor
  · rintro ⟨isObject, required, properties, closed⟩
    obtain ⟨entries, rfl⟩ := (Value.hasType_object value).mp isObject
    refine ⟨rfl, ?_, fun key member => required rfl key (by simp [member]), ?_, ?_⟩
    · rintro tag rfl
      obtain ⟨held, found⟩ := Option.isSome_iff_exists.mp (required rfl typeKey (by simp))
      have isTag : held = .str tag := by
        simpa using properties typeKey held found (tagNode tag) (by simp)
      exact isTag ▸ found
    · intro key present
      obtain ⟨part, found⟩ := Option.isSome_iff_exists.mp present
      have declared := closed key part found
      by_cases same : key = typeKey
      · simp_all [Option.isSome_iff_ne_none]
      · simp only [same, if_false] at declared
        obtain ⟨node, held⟩ := Option.ne_none_iff_exists'.mp declared
        exact .inl (List.mem_map_of_mem (Fields.mem_of_get? held))
    · intro key part found node declared
      refine properties key part found node ?_
      have different : key ≠ typeKey := by
        rintro rfl
        exact free (List.mem_map_of_mem (Fields.mem_of_get? declared))
      simp [different, declared]
  · rintro ⟨isObject, tagged, required, closed, properties⟩
    obtain ⟨entries, rfl⟩ : ∃ entries, value = .object entries := by
      cases value <;> simp_all [Value.isObject, Value.entries?]
    refine ⟨by simp, ?_, ?_, ?_⟩
    · intro _ key member
      rcases List.mem_append.mp member with isTag | member
      · cases name with
        | none => simp at isTag
        | some tag =>
            simp only [Option.toList_some, List.map_cons, List.map_nil, List.mem_singleton] at isTag
            simp [isTag, tagged tag rfl]
      · exact required key member
    · intro key part found node declared
      by_cases same : key = typeKey
      · subst same
        simp only [if_true] at declared
        obtain ⟨tag, rfl, rfl⟩ := Option.map_eq_some_iff.mp declared
        rw [tagged tag rfl] at found
        cases found
        simp
      · simp only [same, if_false] at declared
        exact properties key part found node declared
    · intro key part found absent
      rcases closed key (by simp [found]) with member | ⟨rfl, named⟩
      · have different : key ≠ typeKey := by
          rintro rfl
          exact free member
        simp only [different, if_false] at absent
        obtain ⟨⟨other, node⟩, field, rfl⟩ := List.mem_map.mp member
        simp [Fields.get?_of_mem distinct field] at absent
      · simp_all

/-! ## What compiled nodes have in common -/

theorem isCompiled_scalarNode (kind : ScalarKind) : IsCompiled (scalarNode kind) := by
  cases kind <;> exact ⟨⟨_, rfl⟩, by simp [scalarNode, typeNode, Fields.get?_cons]⟩

theorem isCompiled_nullNode : IsCompiled nullNode :=
  ⟨⟨_, rfl⟩, by simp [nullNode, typeNode, Fields.get?_cons]⟩

theorem isCompiled_enumNode (type : EnumType) : IsCompiled (enumNode type) := by
  unfold enumNode
  split <;> exact ⟨⟨_, rfl⟩, by simp [Fields.get?_cons]⟩

theorem isCompiled_arrayNode (element : Value) :
    IsCompiled (Fields.node [("type", .str "array"), ("items", element)]) :=
  ⟨⟨_, rfl⟩, by simp [Fields.get?_cons]⟩

theorem isCompiled_mapNode (key element : Value) : IsCompiled (mapNode key element) :=
  ⟨⟨_, rfl⟩, by simp [mapNode, Fields.get?_cons]⟩

theorem isCompiled_refNode (options : Options) (name : String) :
    IsCompiled (refNode options name) :=
  ⟨⟨_, rfl⟩, by simp [refNode, Fields.get?_cons]⟩

theorem isCompiled_anyOfNode (alternatives : List Value) :
    IsCompiled (Fields.node [("anyOf", .list alternatives)]) :=
  ⟨⟨_, rfl⟩, by simp [Fields.get?_cons]⟩

theorem isCompiled_structNode (options : Options) (struct : Struct) (fields : Fields) :
    IsCompiled (structNode options struct fields) := by
  refine ⟨⟨_, rfl⟩, ?_⟩
  unfold structNode
  cases options.structDescriptions <;> simp [Fields.get?_cons]

theorem isCompiled_recordNode (name description : Option String) (names : List String)
    (fields : Fields) : IsCompiled (recordNode name description names fields) := by
  refine ⟨⟨_, rfl⟩, ?_⟩
  unfold recordNode
  cases nonEmpty description <;> simp [Fields.get?_cons]

theorem isCompiled_nullable {node : Value} (isCompiled : IsCompiled node) :
    IsCompiled (nullable node) := by
  obtain ⟨fields, rfl⟩ := isCompiled.named
  by_cases single : ∃ name, fields.get? "type" = some (.str name)
  · obtain ⟨name, single⟩ := single
    rw [nullable_of_single single]
    exact ⟨⟨_, rfl⟩, by simp [Fields.get?_cons]⟩
  · rw [nullable_of_other fun name typed => single ⟨name, by simpa using typed⟩]
    exact isCompiled_anyOfNode _

theorem isCompiled_unionNode {nodes : List Value} (compiled : ∀ node ∈ nodes, IsCompiled node)
    (nilable : Bool) : IsCompiled (unionNode nilable nodes) := by
  match nodes with
  | [] => exact isCompiled_nullNode
  | [single] =>
      have isCompiled := compiled single List.mem_cons_self
      cases nilable with
      | false => exact isCompiled
      | true => exact isCompiled_nullable isCompiled
  | _ :: _ :: _ => exact isCompiled_anyOfNode _

end Compile

end TypedReply
