import TypedReply.Proofs.Schema.Shaping

/-!
# What a shape admits

Shaping drops constraints and cuts references, which only admits more. It also collapses a list of
types to its first, which may shut values out: the choices of an enumeration that are of another type
than the first. Where no enumeration has such choices, and no reference is taken for another one that
ends alike, the shape of a compiled schema admits whatever the schema admits.
-/

namespace TypedReply

namespace Gemini

/-- A value is admitted by a shape: as null where the shape is nullable, or by its keywords, which
mean what they mean in a schema. -/
inductive Admits : (shape value : Value) → Prop where
  | null {shape : Value} (nullable : shape.get? "nullable" = some (.bool true)) :
      Admits shape .null
  | keywords {shape value : Value} (chosen : Value) (isObject : shape.isObject = true)
      (type : ∀ kinds, shape.get? "type" = some kinds → admitsType kinds value = true)
      (enum : ∀ choices, shape.get? "enum" = some (.list choices) →
        ∃ choice ∈ choices, choice.sameJson value = true)
      (items : ∀ sub, shape.get? "items" = some sub → ∀ elements, value = .list elements →
        ∀ item ∈ elements, Admits sub item)
      (required : ∀ names, shape.get? "required" = some (.list names) → value.isObject = true →
        ∀ name, .str name ∈ names → (value.get? name).isSome = true)
      (properties : ∀ name part, value.get? name = some part →
        ∀ sub, (shape.get? "properties").bind (·.get? name) = some sub → Admits sub part)
      (isAlternative : ∀ alternatives, shape.get? "anyOf" = some (.list alternatives) →
        chosen ∈ alternatives)
      (anyOf : ∀ alternatives, shape.get? "anyOf" = some (.list alternatives) →
        Admits chosen value) :
      Admits shape value

/-- A shape that says more about null, and otherwise the same, admits what it admitted. -/
theorem Admits.reworded {fields others : Fields} {value : Value}
    (nullable : fields.get? "nullable" = some (.bool true) →
      others.get? "nullable" = some (.bool true))
    (same : ∀ name ∈ ["type", "enum", "items", "required", "properties", "anyOf"],
      others.get? name = fields.get? name)
    (admits : Admits (Fields.node fields) value) : Admits (Fields.node others) value := by
  simp only [List.forall_mem_cons] at same
  obtain ⟨sameType, sameEnum, sameItems, sameRequired, sameProperties, sameMembers, -⟩ := same
  cases admits with
  | null isNullable => exact .null (by simpa using nullable (by simpa using isNullable))
  | keywords chosen _ type enum items required properties isAlternative anyOf =>
      apply Admits.keywords chosen rfl
      all_goals rw [Fields.get?_node]
      · rw [sameType]
        simpa using type
      · rw [sameEnum]
        simpa using enum
      · rw [sameItems]
        simpa using items
      · rw [sameRequired]
        simpa using required
      · rw [sameProperties]
        simpa using properties
      · rw [sameMembers]
        simpa using isAlternative
      · rw [sameMembers]
        simpa using anyOf

theorem admits_bareObject {value : Value} (isObject : value.isObject = true) :
    Admits bareObject value := by
  obtain ⟨entries, rfl⟩ : ∃ entries, value = .object entries := by
    cases value <;> simp_all [Value.isObject, Value.entries?]
  apply Admits.keywords .null rfl <;> simp [bareObject, Fields.get?_cons, admitsType]

/-- What alternatives admit is admitted when they are marked and described. -/
theorem Admits.noted {fields : Fields} {value : Value} {nullable : Bool}
    {description : Option Value} (admits : Admits (Fields.node fields) value) :
    Admits (Fields.node (Gemini.noted nullable description fields)) value := by
  refine admits.reworded (fun isNullable => ?_) ?_
  · rw [get?_nullable_noted, isNullable, ite_self]
  · intro name isKeyword
    apply get?_noted_of_ne
    constructor <;>
    · rintro rfl
      simp at isKeyword

/-! ## Types -/

/-- What is kept of a type admits a value, or admits null and the value is null. -/
def CollapsesTo (kinds value : Value) : Prop :=
  (value = .null ∧ (shapeType (some kinds)).get? "nullable" = some (.bool true)) ∨
    ∀ kind, (shapeType (some kinds)).get? "type" = some kind → admitsType kind value = true

theorem collapsesTo_single {name : String} {kinds value : Value}
    (single : kinds = .str name ∨ kinds = .list [.str name, .str "null"])
    (admits : admitsType kinds value = true) : CollapsesTo kinds value := by
  rcases single with rfl | rfl
  · right
    simpa [shapeType, Fields.get?_cons] using admits
  · by_cases isNull : value = .null
    · left
      refine ⟨isNull, ?_⟩
      by_cases names : name = "null" <;>
        simp [shapeType, flag, Fields.get?_cons, Value.isText_str, names]
    · right
      have typed : value.hasType name = true := by simpa [admitsType, isNull] using admits
      have named : name ≠ "null" := by
        rintro rfl
        exact isNull (by simpa using typed)
      simpa [shapeType_widened named, Fields.get?_cons, admitsType] using typed

end Gemini

/-- Every value that an enumeration admits is of the type of its first choice. -/
def EnumType.IsUniform (type : EnumType) : Prop :=
  ∀ first ∈ type.literals.head?, ∀ definitions value,
    Validates definitions (Compile.enumNode type) value →
      value.hasType (Compile.choiceType (memberValue first)) = true

theorem EnumType.IsUniform.of_texts {type : EnumType} (texts : type.literals = []) :
    type.IsUniform := by
  simp [EnumType.IsUniform, texts]

namespace Gemini

theorem shapeType_typeKeyword {first : Value} {rest several : List Value}
    (isList : Compile.typeKeyword ((first :: rest).map Compile.choiceType) = .list several) :
    (shapeType (some (.list several))).get? "type" = some (.str (Compile.choiceType first)) := by
  unfold Compile.typeKeyword at isList
  rw [List.map_cons, List.eraseDups_cons] at isList
  split at isList
  next => cases isList
  next names _ =>
    obtain rfl := Value.list.inj isList
    have different : (Value.str (Compile.choiceType first)).isText "null" = false := by
      simpa [Value.isText_str] using Compile.choiceType_ne_null first
    simp [shapeType, Fields.get?_cons, different]

/-- What is kept of the type of an enumeration admits what the enumeration admits, if it is uniform. -/
theorem collapsesTo_of_uniform {type : EnumType} (uniform : type.IsUniform) {fields : Fields}
    (isNode : Compile.enumNode type = Fields.node fields) {kinds value : Value}
    (isType : fields.get? "type" = some kinds) (admits : admitsType kinds value = true)
    (listed : ∀ choices, fields.get? "enum" = some (.list choices) →
      ∃ choice ∈ choices, choice.sameJson value = true) : CollapsesTo kinds value := by
  by_cases texts : type.literals = []
  · have shape : fields = [("type", .str "string"), ("enum", .list type.values)] := by
      rw [← Fields.node_inj, ← isNode]
      simp [Compile.enumNode, texts]
    rw [shape] at isType
    obtain rfl : Value.str "string" = kinds := by simpa [Fields.get?_cons] using isType
    exact collapsesTo_single (.inl rfl) admits
  · have shape := Fields.node_inj.mp (isNode.symm.trans (Compile.enumNode_of_literals texts))
    have valid : Validates ⟨"", []⟩ (Compile.enumNode type) value := by
      rw [isNode, validates_iff rfl]
      constructor <;> simp only [Fields.get?_node]
      case type => simpa [isType] using admits
      case enum => exact listed
      all_goals simp [shape, Fields.get?_cons]
    have isKeyword : Compile.typeKeyword
        ((type.literals.map memberValue).map Compile.choiceType) = kinds := by
      simpa [shape, Fields.get?_cons] using isType
    rcases Compile.exists_typeKeyword ((type.literals.map memberValue).map Compile.choiceType) with
      ⟨name, isName⟩ | ⟨several, isList⟩
    · exact collapsesTo_single (.inl (isKeyword.symm.trans isName)) admits
    · obtain ⟨first, rest, isCons⟩ := List.exists_cons_of_ne_nil texts
      have typed := uniform first (by simp [isCons]) _ _ valid
      rw [isCons, List.map_cons] at isList isKeyword
      right
      rw [← isKeyword, isList, shapeType_typeKeyword isList]
      rintro _ ⟨⟩
      exact typed

/-! ## Nodes -/

/-- The shape of a node admits whatever the node admits. -/
def Keeps (definitions : Definitions) (shaped node : Value) : Prop :=
  ∀ value, Validates definitions node value → Admits shaped value

/-- What is asked of a node for its shape to admit what it admits: that its type may be collapsed, and
that it refers to what has a name. Its constant is a text. -/
structure IsShapeable (refPrefix : String) (named : String → Prop) (fields : Fields) : Prop where
  collapses : ∀ kinds value, fields.get? "type" = some kinds → admitsType kinds value = true →
    (∀ choices, fields.get? "enum" = some (.list choices) →
      ∃ choice ∈ choices, choice.sameJson value = true) → CollapsesTo kinds value
  constant : ∀ value, fields.get? "const" = some value → ∃ text, value = .str text
  refers : ∀ reference, fields.get? "$ref" = some reference →
    ∃ name, named name ∧ reference = .str (refPrefix ++ name)

theorem IsShapeable.isTextual {refPrefix : String} {named : String → Prop} {fields : Fields}
    (shapeable : IsShapeable refPrefix named fields) : IsTextual fields where
  constant := shapeable.constant
  reference value isReference := by
    obtain ⟨name, -, rfl⟩ := shapeable.refers value isReference
    exact ⟨_, rfl⟩

section Nodes

variable {definitions : Definitions} {named : String → Prop} {expand : String → Outcome Value}
variable {fields : Fields}

theorem eq_null_of_saysNull {value : Value} (isNull : Compile.saysNull (Fields.node fields) = true)
    (valid : Validates definitions (Fields.node fields) value) : value = .null := by
  obtain ⟨kinds, isType, isText⟩ := (Option.any_eq_true ..).mp isNull
  have typed := ((validates_iff rfl).mp valid).type kinds isType
  cases kinds with
  | str name =>
      obtain rfl : name = "null" := by simpa [Value.isText_str] using isText
      simpa [admitsType] using typed
  | list => cases isText
  | _ => cases typed

theorem admits_base {others : List Value} {base : Fields} (isBase : IsBase expand others base)
    {member value : Value} (isMember : member ∈ others)
    (admits : Admits (shapeImage expand member) value) : Admits (Fields.node base) value := by
  have several : Admits (Fields.node [("anyOf", .list (others.map (shapeImage expand)))]) value := by
    apply Admits.keywords (shapeImage expand member) rfl <;> simp [Fields.get?_cons, admits]
    exact ⟨member, isMember, rfl⟩
  match others with
  | [single] =>
      obtain rfl := List.mem_singleton.mp isMember
      exact isBase ▸ admits
  | [] => cases isMember
  | first :: second :: rest => exact isBase ▸ several

/-- The shape of alternatives admits what any of them admits. -/
theorem keeps_alternatives {members : List Value} {base : Fields} {description : Option Value}
    (areMembers : fields.get? "anyOf" = some (.list members))
    (nodes : ∀ member ∈ members, ∃ fields, member = Fields.node fields)
    (isBase : IsBase expand (members.filter (!Compile.saysNull ·)) base)
    (each : ∀ member ∈ members, Keeps definitions (shapeImage expand member) member) :
    Keeps definitions (Fields.node (noted (members.any Compile.saysNull) description base))
      (Fields.node fields) := by
  intro value valid
  obtain ⟨member, isMember, valid⟩ := ((validates_iff rfl).mp valid).anyOf members
    (by simpa using areMembers)
  cases isNull : Compile.saysNull member with
  | true =>
      obtain ⟨found, rfl⟩ := nodes member isMember
      obtain rfl := eq_null_of_saysNull isNull valid
      apply Admits.null
      rw [Fields.get?_node, get?_nullable_noted, if_pos (List.any_eq_true.mpr ⟨_, isMember, isNull⟩)]
  | false =>
      have isOther : member ∈ members.filter (!Compile.saysNull ·) :=
        List.mem_filter.mpr ⟨isMember, by simp [isNull]⟩
      exact (admits_base isBase isOther (each member isMember value valid)).noted

/-- The shape of a plain node admits what the node admits, if its type may be collapsed and the nodes
in it have such shapes. -/
theorem Admits.ofPlain {image : Value → Value} {shaped : Fields} (shapes : ShapesTo image fields shaped)
    {value : Value} (collapses : ∀ kinds, fields.get? "type" = some kinds → CollapsesTo kinds value)
    (isTable : ∀ value, fields.get? "properties" = some value → ∃ table, value = Fields.node table)
    (inTable : ∀ table, fields.get? "properties" = some (Fields.node table) →
      ∀ entry ∈ table, ∀ value, Validates definitions entry.2 value → Admits (image entry.2) value)
    (items : ∀ sub, fields.get? "items" = some sub →
      ∀ value, Validates definitions sub value → Admits (image sub) value)
    (valid : Validates definitions (Fields.node fields) value) : Admits (Fields.node shaped) value := by
  have met := (validates_iff rfl).mp valid
  by_cases isNull : value = .null ∧ shaped.get? "nullable" = some (.bool true)
  · obtain ⟨rfl, isNullable⟩ := isNull
    exact .null (by simpa using isNullable)
  apply Admits.keywords .null rfl
  case type =>
    intro kind isKind
    rw [Fields.get?_node, shapes.type] at isKind
    rw [shapes.nullable] at isNull
    cases isType : fields.get? "type" with
    | none => simp [isType, shapeType] at isKind
    | some kinds =>
        rw [isType] at isKind isNull
        exact (collapses kinds isType).resolve_left isNull kind isKind
  case enum =>
    intro choices listed
    rw [Fields.get?_node, shapes.enum] at listed
    cases constant : fields.get? "const" with
    | none =>
        rw [constant] at listed
        exact met.enum choices (by simpa using listed)
    | some held =>
        obtain rfl : [held] = choices := by simpa [constant] using listed
        exact ⟨held, List.mem_singleton_self _, met.const held (by simpa using constant)⟩
  case items =>
    intro sub isSub elements isList item isItem
    rw [Fields.get?_node, shapes.items] at isSub
    obtain ⟨inner, found, rfl⟩ := Option.map_eq_some_iff.mp isSub
    exact items inner found item (met.items inner (by simpa using found) elements isList item isItem)
  case required =>
    intro names requires
    rw [Fields.get?_node, shapes.required] at requires
    split at requires
    · exact met.required names (by simpa using requires)
    · cases requires
  case properties =>
    intro name part found sub isSub
    rw [Fields.get?_node, shapes.properties] at isSub
    obtain ⟨_, declares, isSub⟩ := Option.bind_eq_some_iff.mp isSub
    obtain ⟨held, declared, rfl⟩ := Option.map_eq_some_iff.mp declares
    obtain ⟨table, rfl⟩ := isTable held declared
    rw [shapedTable, Fields.get?_node, Fields.get?_mapped] at isSub
    obtain ⟨inner, isInner, rfl⟩ := Option.map_eq_some_iff.mp isSub
    refine inTable table declared (name, inner) (Fields.mem_of_get? isInner) part ?_
    exact met.properties name part found inner (by simp [declared, isInner])
  all_goals
    have absent : shaped.get? "anyOf" = none :=
      Fields.get?_eq_none_of_not_mem fun isName => absurd (shapes.known _ isName) (by decide)
    simp [absent]

/-- The shape of a schema whose nodes are shapeable admits what the schema admits, where references
are expanded into such shapes. -/
theorem keeps_shapeImage {schema : Value} (total : ∀ name, IsShape (expand name))
    (expands : ∀ name, named name → ∀ shaped,
      expand (Compile.refName (definitions.refPrefix ++ name)) = .ok shaped →
        ∀ target, definitions.nodes.get? name = some target → Keeps definitions shaped target)
    (isSchema : IsSchema ["properties"] (IsShapeable definitions.refPrefix named) schema) :
    Keeps definitions (shapeImage expand schema) schema := by
  induction isSchema with
  | node fields regular meets isTable isEntry isItem isFurther isList isMember inTable items _ among =>
      have isSchema := (IsSchema.node fields regular meets isTable isEntry isItem isFurther isList
        isMember).imp fun _ => IsShapeable.isTextual
      cases isReference : fields.get? "$ref" with
      | some reference =>
          obtain ⟨name, isNamed, rfl⟩ := meets.refers reference isReference
          intro value valid
          obtain ⟨target, ⟨other, same, isTarget⟩, valid⟩ :=
            ((validates_iff rfl).mp valid).ref _ (by simpa using isReference)
          obtain rfl : name = other := by simpa using same
          have isShape := (exists_shape total isSchema).eq_image
          rw [shapeWith_reference isReference] at isShape
          exact expands name isNamed _ isShape target isTarget value valid
      | none =>
          cases alternatives : fields.get? "anyOf" with
          | some value =>
              obtain ⟨members, rfl⟩ := isList value alternatives
              obtain ⟨base, -, isBase, isImage⟩ :=
                image_alternatives total isSchema isReference alternatives
              rw [isImage]
              exact keeps_alternatives alternatives
                (fun member isOne => (isMember members alternatives member isOne).exists_fields)
                isBase (among members alternatives)
          | none =>
              obtain ⟨shaped, isImage, shapes⟩ := image_plain total isSchema isReference alternatives
              rw [isImage]
              intro value valid
              refine .ofPlain shapes ?_ (isTable "properties" (List.mem_singleton_self _))
                (inTable "properties" (List.mem_singleton_self _)) items valid
              intro kinds isType
              have met := (validates_iff rfl).mp valid
              exact meets.collapses kinds value isType (met.type kinds (by simpa using isType))
                (by simpa using met.enum)

end Nodes

/-! ## Compiled schemas -/

/-- Definitions are schemas of objects, and a reference to one is not taken for one to another. -/
structure AreShapeable (definitions : Definitions) (named : String → Prop) : Prop where
  schemas : ∀ name target, definitions.nodes.get? name = some target →
    IsSchema ["properties"] (IsShapeable definitions.refPrefix named) target
  objects : ∀ name target, definitions.nodes.get? name = some target →
    target.get? "type" = some (.str "object")
  apart : ∀ name, named name → ∀ target,
    definitions.nodes.get? (Compile.refName (definitions.refPrefix ++ name)) = some target →
      definitions.nodes.get? name = some target

namespace AreShapeable

variable {definitions : Definitions} {named : String → Prop}
variable (shapeable : AreShapeable definitions named)
include shapeable

theorem keeps_bareObject {name : String} {target : Value}
    (isTarget : definitions.nodes.get? name = some target) :
    Keeps definitions bareObject target := by
  intro value valid
  have isSchema := shapeable.schemas name target isTarget
  have typed := ((validates_iff isSchema.isObject).mp valid).type _
    (shapeable.objects name target isTarget)
  obtain ⟨entries, rfl⟩ := (Value.hasType_object value).mp typed
  exact admits_bareObject rfl

theorem total (fuel : Nat) (expanding : List String) (name : String) :
    IsShape (expansion definitions.nodes fuel expanding name) :=
  isShape_expansion (fun name target isTarget =>
    (shapeable.schemas name target isTarget).imp fun _ => IsShapeable.isTextual) fuel expanding name

/-- The shape of a schema admits what the schema admits, however deep its references are expanded. -/
theorem keeps (fuel : Nat) (expanding : List String) {schema : Value}
    (isSchema : IsSchema ["properties"] (IsShapeable definitions.refPrefix named) schema) :
    Keeps definitions (shapeImage (expansion definitions.nodes fuel expanding) schema) schema := by
  induction fuel generalizing expanding schema with
  | zero =>
      refine keeps_shapeImage (shapeable.total 0 expanding) ?_ isSchema
      rintro name - _ ⟨⟩ target isTarget
      exact shapeable.keeps_bareObject isTarget
  | succ fuel ih =>
      refine keeps_shapeImage (shapeable.total (fuel + 1) expanding) ?_ isSchema
      intro name isNamed shaped isShape target isTarget
      rw [expansion] at isShape
      split at isShape
      next definition found =>
        obtain rfl := Option.some.inj
          ((shapeable.apart name isNamed definition found).symm.trans isTarget)
        split at isShape
        · cases isShape
          exact shapeable.keeps_bareObject isTarget
        · rw [shape_eq] at isShape
          have inside := ih (Compile.refName (definitions.refPrefix ++ name) :: expanding)
            (shapeable.schemas name definition isTarget)
          rwa [shapeImage, isShape] at inside
      next =>
        cases isShape
        exact shapeable.keeps_bareObject isTarget

end AreShapeable

end Gemini

/-- What follows the last slash in the name of a struct that is reached is the name of no other. -/
def Compile.NamesApart (store : Store) (target : Descriptor) : Prop :=
  ∀ id other, Descriptor.Reaches store target (.struct id) →
    Descriptor.Reaches store target (.struct other) →
    refName (store.at id).name = (store.at other).name → (store.at id).name = (store.at other).name

/-- Where enumerations are uniform, the nodes of compiled schemas are shapeable. -/
theorem permits_isShapeable {options : Options} {store : Store} {target : Descriptor}
    (uniform : ∀ type, Descriptor.Reaches store target (.enum type) → type.IsUniform) :
    Compile.Permits options store (Descriptor.Reaches store target)
      (Gemini.IsShapeable options.refPrefix fun name =>
        ∃ id, Descriptor.Reaches store target (.struct id) ∧ (store.at id).name = name) where
  typed single constant noReference := by
    refine ⟨fun kinds value isType admits _ => ?_, constant, by simp [noReference]⟩
    obtain ⟨name, single⟩ := single kinds isType
    exact Gemini.collapsesTo_single single admits
  enum type fields reaches isNode := by
    refine ⟨fun kinds value => Gemini.collapsesTo_of_uniform (uniform type reaches) isNode, ?_, ?_⟩
    all_goals
      obtain ⟨kinds, choices, isEnum⟩ := Compile.exists_enumNode type
      obtain rfl := Fields.node_inj.mp (isNode.symm.trans isEnum)
      simp [Fields.get?_cons]
  ref id reaches := by
    refine ⟨by simp [Fields.get?_cons], by simp [Fields.get?_cons], fun reference isReference => ?_⟩
    exact ⟨_, ⟨id, reaches, rfl⟩, by simpa [Fields.get?_cons, eq_comm] using isReference⟩
  described text shapeable := by
    constructor <;> simp only [Fields.get?_put, if_neg (by decide : "type" ≠ "description"),
      if_neg (by decide : "enum" ≠ "description"), if_neg (by decide : "const" ≠ "description"),
      if_neg (by decide : "$ref" ≠ "description")]
    · exact shapeable.collapses
    · exact shapeable.constant
    · exact shapeable.refers

/-- Whatever a compiled schema admits with its definitions its shape admits, if every enumeration is
uniform and references are not taken for one another. -/
theorem gemini_admits_of_admits {options : Options} {store : Store} {target : Descriptor}
    {compiled : Compiled} (compiles : compile options store target = .ok compiled)
    (uniform : ∀ type, Descriptor.Reaches store target (.enum type) → type.IsUniform)
    (apart : Compile.NamesApart store target) :
    ∃ shaped, Gemini.ofCompiled compiled = .ok shaped ∧
      ∀ value, compiled.Admits value → Gemini.Admits shaped value := by
  have permits := @permits_isShapeable options store target uniform
  obtain ⟨⟨-, isSchema⟩, definitions, areDefinitions, -, each⟩ := Compile.good_of_compile
    (Compile.builds_isSchema (fun reaches isPart => reaches.tail isPart) permits) compiles
  obtain ⟨pass, -, isCompiled⟩ := Compile.exists_pass_of_compile compiles
  have isKey : compiled.defsKey = options.defsKey := congrArg Compiled.defsKey isCompiled
  have isPrefix : compiled.targets.refPrefix = options.refPrefix := by
    rw [Compiled.targets, isKey, Options.refPrefix]
  have defined (name : String) (node : Value)
      (found : compiled.targets.nodes.get? name = some node) : (name, node) ∈ definitions := by
    rw [Compiled.targets, areDefinitions, Value.get?_entriesOf] at found
    exact Fields.mem_of_get? found
  have shapeable : Gemini.AreShapeable compiled.targets fun name =>
      ∃ id, Descriptor.Reaches store target (.struct id) ∧ (store.at id).name = name := by
    constructor
    · intro name node found
      rw [isPrefix]
      exact (each _ (defined name node found)).1
    · intro name node found
      obtain ⟨-, id, fields, -, isEntry⟩ := each _ (defined name node found)
      obtain ⟨-, rfl⟩ := Prod.mk.inj isEntry
      simp [Compile.structNode, Fields.get?_cons]
    · rintro _ ⟨id, reaches, rfl⟩ node found
      rw [Compiled.targets, Gemini.refName_append, ← Compiled.targets] at found
      obtain ⟨-, other, fields, isReached, isEntry⟩ := each _ (defined _ node found)
      obtain ⟨isName, -⟩ := Prod.mk.inj isEntry
      rwa [apart id other reaches isReached isName, ← isName]
  have shape := Gemini.ofCompiled_eq (isSchema.imp fun _ => Gemini.IsShapeable.isTextual)
    fun name node found => (shapeable.schemas name node found).imp fun _ =>
      Gemini.IsShapeable.isTextual
  exact ⟨_, shape, shapeable.keeps _ _ (isPrefix ▸ isSchema)⟩

/-- The shape of a text or a linked number admits what the schema admits. -/
theorem linkedNumbers_shaped :
    ∃ compiled, compile Options.defaults linkedNumbers
        (.union [.enum (.ofTexts ["none"]), .struct 0]) = .ok compiled ∧
      (∀ type, Descriptor.Reaches linkedNumbers (.union [.enum (.ofTexts ["none"]), .struct 0])
        (.enum type) → type.IsUniform) ∧
      Compile.NamesApart linkedNumbers (.union [.enum (.ofTexts ["none"]), .struct 0]) ∧
      ∃ shaped, Gemini.ofCompiled compiled = .ok shaped ∧
        ∀ value, compiled.Admits value → Gemini.Admits shaped value := by
  have throughout : Descriptor.Throughout linkedNumbers (fun found =>
      (∀ type, found = .enum type → type.IsUniform) ∧ ∀ id, found = .struct id → id = 0)
      (.union [.enum (.ofTexts ["none"]), .struct 0]) := by
    refine .of_parts ⟨by simp, by simp⟩ fun part isPart => ?_
    rw [Descriptor.part_iff_mem_parts] at isPart
    obtain rfl | rfl : part = .enum (.ofTexts ["none"]) ∨ part = .struct 0 := by
      simpa [Descriptor.parts] using isPart
    · refine .of_parts ⟨?_, by simp⟩ fun part isPart => ?_
      · rintro _ ⟨⟩
        exact .of_texts rfl
      · cases isPart
        contradiction
    · refine linkedNumbers_throughout fun found linked => ?_
      rcases linked with rfl | rfl | rfl <;> simp
  have uniform := fun type reaches => (throughout (.enum type) reaches).1 type rfl
  have apart : Compile.NamesApart linkedNumbers (.union [.enum (.ofTexts ["none"]), .struct 0]) := by
    intro id other isReached isOther _
    rw [(throughout _ isReached).2 id rfl, (throughout _ isOther).2 other rfl]
  have shaped := @gemini_admits_of_admits Options.defaults linkedNumbers
    (.union [.enum (.ofTexts ["none"]), .struct 0]) _ rfl uniform apart
  exact ⟨_, rfl, uniform, apart, shaped⟩

/-- The shape of a text or a number as a choice is of type text, and shuts the number out. -/
theorem mixedChoice_shut_out :
    ∃ compiled shaped, compile Options.defaults [] (.enum (.choices [.str "a", .int 1])) =
        .ok compiled ∧ Gemini.ofCompiled compiled = .ok shaped ∧
      compiled.Admits (.int 1) ∧ ¬Gemini.Admits shaped (.int 1) := by
  refine ⟨_, Fields.node [("type", .str "string"), ("enum", .list [.str "a", .int 1])], rfl, rfl,
    ?_, ?_⟩
  · rw [Compiled.Admits, validates_iff rfl]
    constructor
    case type =>
      rintro _ ⟨⟩
      rfl
    case enum =>
      rintro _ ⟨⟩
      exact ⟨.int 1, List.mem_cons_of_mem _ List.mem_cons_self, rfl⟩
    all_goals
      intros
      contradiction
  · intro admits
    cases admits with
    | keywords _ _ type => exact absurd (type (.str "string") rfl) (by decide)

end TypedReply
