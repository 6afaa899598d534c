import TypedReply.Proofs.Schema.Strictness

/-!
# What a strict schema admits

A strict schema keeps everything of the schema but what closes its nodes, is closed wherever a node
stands in it, and admits only what the schema admits. Values are followed through the references,
which lead to closed definitions, so cycles among the definitions are no obstacle.
-/

namespace TypedReply

namespace Strict

open Value (entriesOf)

variable {tables : List String} {condition : Fields → Prop}

/-! ## What is kept -/

/-- A node of objects that declares properties, without what closes it; any other node as it is. -/
def openHere (node : Value.Entries) : Value.Entries :=
  if isObjectNode node && (node.get? "properties").any (·.isObject) then
    (node.erase "additionalProperties").erase "required"
  else node

def opened (tables : List String) (schema : Value) : Value := schema.rebuilt tables openHere

theorem filter_put (left : String → Bool) {name : String} (out : left name = false)
    (fields : Fields) (value : Value) : (fields.put name value).filter (fun field => left field.1) =
      fields.filter fun field => left field.1 := by
  induction fields with
  | nil => simp [Fields.put, out]
  | cons field rest ih =>
      by_cases same : field.1 = name
      · simp [Fields.put, same, out]
      · simp [Fields.put, same, List.filter_cons, ih]

theorem openHere_closedFields (fields : Fields) :
    openHere (entriesOf (closedFields fields)) = openHere (entriesOf fields) := by
  unfold closedFields
  split
  next properties isObject isTable =>
    have sameType : isObjectNode (entriesOf ((fields.put "additionalProperties"
        (.bool false)).put "required" (.list (Value.Entries.keys properties)))) =
          isObjectNode (entriesOf fields) := by
      unfold isObjectNode
      simp only [Value.get?_entriesOf, Fields.get?_put]
      rfl
    simp only [openHere, sameType, isObject, Value.get?_entriesOf, Fields.get?_put, isTable,
      erase_entriesOf, List.filter_filter]
    have left (name : String) (out : (name != "required" && name != "additionalProperties") = false) :=
      filter_put (fun name => name != "required" && name != "additionalProperties") out
    simp only [left "required" (by decide), left "additionalProperties" (by decide)]
    simp [Value.isObject, Value.entries?]
  next => rfl

variable (separate : ∀ name ∈ tables, name = "properties" ∨ name ∉ emittedKeywords)
variable (isTable : "properties" ∈ tables)
include separate isTable

theorem opened_closed {schema : Value} (isSchema : IsSchema tables condition schema) :
    opened tables (closed tables schema) = opened tables schema := by
  induction isSchema with
  | node fields regular _ isNode _ _ _ isList _ inTable items additional among =>
      have each : ∀ field ∈ fields,
          Value.rebuiltPart tables openHere field.1 (closedPart tables field.1 field.2) =
            Value.rebuiltPart tables openHere field.1 field.2 := by
        rintro ⟨name, value⟩ isField
        have found := Fields.get?_of_mem regular.distinct isField
        apply Value.rebuiltPart_rebuiltPart
        · intro hasTable
          obtain ⟨table, rfl⟩ := isNode name hasTable value found
          exact ⟨table, rfl, inTable name hasTable table found⟩
        · rintro (rfl | rfl)
          · exact items value found
          · by_cases isClosed : value = .bool false
            · rw [isClosed]
              rfl
            · exact additional value found isClosed
        · rintro rfl
          obtain ⟨members, rfl⟩ := isList value found
          exact ⟨members, rfl, among members found⟩
      rw [closed_node separate isTable, opened, Value.rebuilt_node, opened, Value.rebuilt_node,
        closedPart, ← closedFields_mapped separate isTable, ← closedFields_mapped separate isTable,
        openHere_closedFields, Fields.mapped_mapped, Fields.mapped_congr each]

/-! ## Every position -/

theorem get?_closed (fields : Fields) (name : String) :
    (closed tables (Fields.node fields)).get? name =
      ((closedFields fields).get? name).map (closedPart tables name) := by
  rw [closed_node separate isTable, Fields.get?_node, Fields.get?_mapped]

theorem get?_closed_of_other {name : String} (isOther : name ∈ ["type", "enum", "const", "$ref"])
    (fields : Fields) : (closed tables (Fields.node fields)).get? name = fields.get? name := by
  have kept : name ≠ "additionalProperties" ∧ name ≠ "required" := by
    constructor <;>
    · rintro rfl
      simp at isOther
  have keyword : name ∈ ["type", "enum", "const", "required", "$ref", "description", "format"] :=
    (by decide : ["type", "enum", "const", "$ref"] ⊆
      ["type", "enum", "const", "required", "$ref", "description", "format"]) isOther
  rw [get?_closed separate isTable, get?_closedFields fields kept]
  cases fields.get? name with
  | none => rfl
  | some value => rw [Option.map_some, closedPart, Value.rebuiltPart_of_other separate keyword]

theorem get?_closed_of_table {name : String} (hasTable : name ∈ tables) (fields : Fields) :
    (closed tables (Fields.node fields)).get? name =
      (fields.get? name).map (Value.rebuiltTable tables closeHere) := by
  have kept : name ≠ "additionalProperties" ∧ name ≠ "required" := by
    constructor <;>
    · rintro rfl
      exact Value.not_mem_tables separate (by decide) (by decide) hasTable
  rw [get?_closed separate isTable, get?_closedFields fields kept]
  congr 1
  funext value
  exact Value.rebuiltPart_of_table hasTable value

/-- A closed node declares under a name the strict form of what the node declares. -/
theorem declared_closed {fields : Fields}
    (isNode : ∀ value, fields.get? "properties" = some value → ∃ table, value = Fields.node table)
    (name : String) :
    ((closed tables (Fields.node fields)).get? "properties").bind (·.get? name) =
      ((fields.get? "properties").bind (·.get? name)).map (closed tables) := by
  rw [get?_closed_of_table separate isTable isTable]
  cases given : fields.get? "properties" with
  | none => rfl
  | some value =>
      obtain ⟨table, rfl⟩ := isNode value given
      rw [Option.map_some, Value.rebuiltTable_node, Option.bind_some, Fields.get?_node,
        Fields.get?_mapped, Option.bind_some, Fields.get?_node]
      rfl

theorem get?_closed_members (fields : Fields) :
    (closed tables (Fields.node fields)).get? "anyOf" =
      (fields.get? "anyOf").map (Value.rebuiltMembers tables closeHere) := by
  rw [get?_closed separate isTable, get?_closedFields fields (by decide)]
  congr 1
  funext value
  exact Value.rebuiltPart_of_members separate value

theorem get?_closed_items (fields : Fields) :
    (closed tables (Fields.node fields)).get? "items" =
      (fields.get? "items").map (closed tables) := by
  rw [get?_closed separate isTable, get?_closedFields fields (by decide)]
  congr 1
  funext value
  exact Value.rebuiltPart_of_inside separate (.inl rfl) value

theorem get?_closed_additional (fields : Fields) :
    (closed tables (Fields.node fields)).get? "additionalProperties" = some (.bool false) ∨
      (closed tables (Fields.node fields)).get? "additionalProperties" =
        (fields.get? "additionalProperties").map (closed tables) := by
  rw [get?_closed separate isTable]
  refine (get?_additional_closedFields fields).imp (fun closed => ?_) fun same => ?_
  · rw [closed, Option.map_some, closedPart, Value.rebuiltPart_of_inside separate (.inr rfl),
      Value.rebuilt_bool]
  · rw [same]
    congr 1
    funext value
    exact Value.rebuiltPart_of_inside separate (.inr rfl) value

end Strict

/-- A schema stands directly in a node: in a table, as items, as further values or as an
alternative. -/
inductive Value.Child (tables : List String) : Value → Value → Prop where
  | entry {node : Value} {name : String} {entries : Entries} {entry : Value × Value}
      (hasTable : name ∈ tables) (found : node.get? name = some (.object entries))
      (isEntry : entry ∈ entries) : Child tables node entry.2
  | inside {node sub : Value} {name : String}
      (isKeyword : name = "items" ∨ name = "additionalProperties")
      (found : node.get? name = some sub) : Child tables node sub
  | member {node member : Value} {members : List Value}
      (found : node.get? "anyOf" = some (.list members)) (isMember : member ∈ members) :
      Child tables node member

/-- A node of objects that declares properties is closed: it allows no others and requires all of
them in order. -/
def Value.IsClosed (node : Value) : Prop :=
  ∀ kinds table, node.get? "type" = some kinds → node.get? "properties" = some table →
    (kinds = .str "object" ∨ ∃ names, kinds = .list names ∧ .str "object" ∈ names) →
      ∃ properties, table = .object properties ∧
        node.get? "additionalProperties" = some (.bool false) ∧
        node.get? "required" = some (.list (Entries.keys properties))

namespace Strict

variable {tables : List String} {condition : Fields → Prop}
variable (separate : ∀ name ∈ tables, name = "properties" ∨ name ∉ emittedKeywords)
variable (isTable : "properties" ∈ tables)
include separate isTable

theorem isClosed_closed {schema : Value} (isSchema : IsSchema tables condition schema) :
    (closed tables schema).IsClosed := by
  cases isSchema with
  | node fields _ _ isNode =>
      intro kinds table isKinds isProperties objects
      rw [get?_closed_of_other separate isTable (by decide)] at isKinds
      rw [get?_closed_of_table separate isTable isTable] at isProperties
      obtain ⟨given, isGiven, rfl⟩ := Option.map_eq_some_iff.mp isProperties
      obtain ⟨properties, rfl⟩ := isNode "properties" isTable given isGiven
      have isObject : isObjectNode (Value.entriesOf fields) = true := by
        unfold isObjectNode
        rw [Value.get?_entriesOf, isKinds]
        rcases objects with rfl | ⟨names, rfl, isName⟩
        · rfl
        · exact List.any_eq_true.mpr ⟨_, isName, rfl⟩
      rw [get?_closed separate isTable, get?_closed separate isTable,
        closedFields_of_declaring isObject isGiven, Value.rebuiltTable_node]
      refine ⟨_, rfl, ?_, ?_⟩
      · simp [Fields.get?_put, closedPart, Value.rebuiltPart_of_inside separate]
      · rw [Fields.get?_put, if_pos rfl, Option.map_some, closedPart,
          Value.rebuiltPart_of_other separate (by decide)]
        change some (Value.list (Value.Entries.keys _)) = some (.list (Value.Entries.keys
          (Value.entriesOf _)))
        rw [Value.keys_entriesOf, Value.keys_entriesOf, Fields.map_fst_mapped]

/-- What stands directly in the strict form of a schema is the strict form of one, or admits
nothing. -/
theorem child_closed {schema sub : Value} (isSchema : IsSchema tables condition schema)
    (isChild : (closed tables schema).Child tables sub) :
    sub = .bool false ∨ ∃ inner, IsSchema tables condition inner ∧ sub = closed tables inner := by
  cases isSchema with
  | node fields _ _ isNode inTable items additional isList among =>
      cases isChild with
      | entry hasTable found isListed =>
          rw [get?_closed_of_table separate isTable hasTable] at found
          obtain ⟨given, isGiven, isObject⟩ := Option.map_eq_some_iff.mp found
          obtain ⟨table, rfl⟩ := isNode _ hasTable given isGiven
          rw [Value.rebuiltTable_node] at isObject
          cases isObject
          obtain ⟨_, isChanged, rfl⟩ := List.mem_map.mp isListed
          obtain ⟨entry, isEntry, rfl⟩ := List.mem_map.mp isChanged
          exact .inr ⟨entry.2, inTable _ hasTable table isGiven entry isEntry, rfl⟩
      | inside isKeyword found =>
          rcases isKeyword with rfl | rfl
          · rw [get?_closed_items separate isTable] at found
            obtain ⟨inner, isInner, rfl⟩ := Option.map_eq_some_iff.mp found
            exact .inr ⟨inner, items inner isInner, rfl⟩
          · rcases get?_closed_additional separate isTable fields with closed | same
            · rw [closed] at found
              exact .inl (Option.some.inj found).symm
            · rw [same] at found
              obtain ⟨inner, isInner, rfl⟩ := Option.map_eq_some_iff.mp found
              by_cases isFalse : inner = .bool false
              · exact .inl (by rw [isFalse]; rfl)
              · exact .inr ⟨inner, additional inner isInner isFalse, rfl⟩
      | member found isAmong =>
          rw [get?_closed_members separate isTable] at found
          obtain ⟨given, isGiven, isMembers⟩ := Option.map_eq_some_iff.mp found
          obtain ⟨members, rfl⟩ := isList given isGiven
          rw [Value.rebuiltMembers_list] at isMembers
          cases isMembers
          obtain ⟨member, isMember, rfl⟩ := List.mem_map.mp isAmong
          exact .inr ⟨member, among members isGiven member isMember, rfl⟩

theorem isClosed_of_reaches {schema node : Value} (isSchema : IsSchema tables condition schema)
    (reaches : Relation.ReflTransGen (Value.Child tables) (closed tables schema) node) :
    node.IsClosed := by
  have position : node = .bool false ∨
      ∃ inner, IsSchema tables condition inner ∧ node = closed tables inner := by
    induction reaches with
    | refl => exact .inr ⟨schema, isSchema, rfl⟩
    | tail _ isChild ih =>
        rcases ih with rfl | ⟨inner, isInner, rfl⟩
        · cases isChild with
          | entry _ found | inside _ found | member found => cases found
        · exact child_closed separate isTable isInner isChild
  rcases position with rfl | ⟨inner, isInner, rfl⟩
  · intro kinds table isKinds
    cases isKinds
  · exact isClosed_closed separate isTable isInner

/-! ## Values -/

theorem required_of_closed {fields : Fields} (regular : IsRegular tables fields)
    {names : List Value} (requires : fields.get? "required" = some (.list names)) :
    ∃ more, (closed tables (Fields.node fields)).get? "required" = some (.list more) ∧
      names ⊆ more := by
  obtain ⟨given, properties, isList, declares, declared⟩ := regular.required _ requires
  cases isList
  rw [get?_closed separate isTable]
  by_cases objects : isObjectNode (Value.entriesOf fields) = true
  · rw [closedFields_of_declaring objects declares, Fields.get?_put, if_pos rfl, Option.map_some,
      closedPart, Value.rebuiltPart_of_other separate (by decide)]
    refine ⟨_, rfl, ?_⟩
    rw [Value.keys_entriesOf]
    exact List.map_subset _ declared
  · have same : closedFields fields = fields := by
      unfold closedFields
      simp only [objects]
    rw [same, requires, Option.map_some, closedPart, Value.rebuiltPart_of_other separate (by decide)]
    exact ⟨_, rfl, List.Subset.refl _⟩

/-- What a strict schema admits beside strict definitions is admitted by the schema. -/
theorem validates_of_closed {definitions : Fields} {refPrefix : String}
    (table : ∀ entry ∈ definitions, IsSchema tables condition entry.2) {node value : Value}
    (valid : Validates ⟨refPrefix, Value.entriesOf (definitions.mapped fun _ => closed tables)⟩ node
      value) :
    ∀ schema, IsSchema tables condition schema → node = closed tables schema →
      Validates ⟨refPrefix, Value.entriesOf definitions⟩ schema value := by
  induction valid with
  | always value =>
      intro schema isSchema isNode
      obtain ⟨fields, rfl⟩ := isSchema.exists_fields
      rw [closed_node separate isTable] at isNode
      cases isNode
  | keywords chosen target isObject type enum const items required properties additional
      isAlternative anyOf refers ref itemsIH propertiesIH additionalIH anyOfIH refIH =>
      rintro schema (⟨fields, regular, -, isNode, inTable, inside, further, isList, among⟩) rfl
      have other (name : String) (isOther : name ∈ ["type", "enum", "const", "$ref"]) :=
        get?_closed_of_other separate isTable isOther fields
      rw [validates_iff (Fields.isObject_node fields)]
      constructor
      case type =>
        intro kinds found
        exact type kinds ((other "type" (by decide)).trans (by simpa using found))
      case enum =>
        intro choices found
        exact enum choices ((other "enum" (by decide)).trans (by simpa using found))
      case const =>
        intro choice found
        exact const choice ((other "const" (by decide)).trans (by simpa using found))
      case items =>
        intro sub found elements isValue item isItem
        have found : fields.get? "items" = some sub := by simpa using found
        refine itemsIH (closed tables sub) ?_ elements isValue item isItem sub (inside sub found) rfl
        rw [get?_closed_items separate isTable, found, Option.map_some]
      case required =>
        intro names found isObject name isName
        obtain ⟨more, requires, wider⟩ :=
          required_of_closed separate isTable regular (by simpa using found)
        exact required more requires isObject name (wider isName)
      case properties =>
        intro name part isPart sub declares
        have declares : (fields.get? "properties").bind (·.get? name) = some sub := by
          simpa using declares
        obtain ⟨given, isGiven, isSub⟩ := Option.bind_eq_some_iff.mp declares
        obtain ⟨table, rfl⟩ := isNode "properties" isTable given isGiven
        refine propertiesIH name part isPart (closed tables sub) ?_ sub (inTable "properties" isTable
          table isGiven (name, sub) (Fields.mem_of_get? (by simpa using isSub))) rfl
        rw [declared_closed separate isTable (isNode "properties" isTable), declares, Option.map_some]
      case additional =>
        intro sub found name part isPart undeclared
        have found : fields.get? "additionalProperties" = some sub := by simpa using found
        have undeclared : (fields.get? "properties").bind (·.get? name) = none := by
          simpa using undeclared
        have alsoUndeclared : ((closed tables (Fields.node fields)).get? "properties").bind
            (·.get? name) = none := by
          rw [declared_closed separate isTable (isNode "properties" isTable), undeclared,
            Option.map_none]
        rcases get?_closed_additional separate isTable fields with nothing | same
        · have valid := additional _ nothing name part isPart alsoUndeclared
          exact (not_validates_false _ part valid).elim
        · rw [found, Option.map_some] at same
          by_cases isFalse : sub = .bool false
          · subst isFalse
            have valid := additional _ same name part isPart alsoUndeclared
            exact (not_validates_false _ part valid).elim
          · exact additionalIH _ same name part isPart alsoUndeclared sub (further sub found isFalse)
              rfl
      case anyOf =>
        intro alternatives found
        have found : fields.get? "anyOf" = some (.list alternatives) := by simpa using found
        have members : (closed tables (Fields.node fields)).get? "anyOf" =
            some (.list (alternatives.map (closed tables))) := by
          rw [get?_closed_members separate isTable, found, Option.map_some,
            Value.rebuiltMembers_list]
          rfl
        obtain ⟨alternative, isMember, rfl⟩ := List.mem_map.mp (isAlternative _ members)
        exact ⟨alternative, isMember, anyOfIH _ members alternative
          (among alternatives found alternative isMember) rfl⟩
      case ref =>
        intro reference found
        have found := (other "$ref" (by decide)).trans (by simpa using found)
        obtain ⟨name, isReference, isTarget⟩ := refers reference found
        rw [Value.get?_entriesOf, Fields.get?_mapped] at isTarget
        obtain ⟨definition, isDefinition, rfl⟩ := Option.map_eq_some_iff.mp isTarget
        refine ⟨definition, ⟨name, isReference, (Value.get?_entriesOf _ _).trans isDefinition⟩, ?_⟩
        exact refIH reference found definition (table _ (Fields.mem_of_get? isDefinition)) rfl

end Strict

/-! ## Documents -/

/-- The named values of a document: those of the root node, and the definitions under their key. -/
def mounted (defsKey : String) (fields definitions : Fields) : Fields :=
  if definitions.isEmpty then fields else fields.put defsKey (Fields.node definitions)

theorem document_eq_mounted (defsKey : String) (fields definitions : Fields) :
    Compiled.document ⟨Fields.node fields, Value.entriesOf definitions, defsKey⟩ none =
      Fields.node (mounted defsKey fields definitions) := by
  unfold Compiled.document mounted
  cases definitions with
  | nil => rfl
  | cons first rest =>
      change Value.object ((Value.entriesOf fields).put defsKey _) = Fields.node (fields.put defsKey _)
      rw [put_ofFields]
      rfl

variable {defsKey : String} {condition : Fields → Prop} {fields definitions : Fields}

/-- A document is a schema whose tables are the properties and the definitions, all of whose nodes
meet a condition if those of the schema and of the definitions do, and the root still does. -/
theorem isSchema_mounted_of_meets (free : defsKey ∉ emittedKeywords)
    (root : IsSchema ["properties"] condition (Fields.node fields))
    (table : ∀ entry ∈ definitions, IsSchema ["properties"] condition entry.2)
    (meets : condition (mounted defsKey fields definitions)) :
    IsSchema ["properties", defsKey] condition
      (Fields.node (mounted defsKey fields definitions)) := by
  have subset : ["properties"] ⊆ ["properties", defsKey] := by simp
  have fresh : ∀ name ∈ ["properties", defsKey],
      name ∈ ["properties"] ∨ name ∉ emittedKeywords := by simp [free]
  have wide := root.widened subset fresh
  unfold mounted at meets ⊢
  split
  next => exact wide
  next notEmpty =>
    rw [if_neg notEmpty] at meets
    generalize isNode : Fields.node fields = schema at wide
    cases wide with
    | node others regular _ isTable inTable items additional isList among =>
        obtain rfl := Fields.node_inj.mp isNode
        have kept {name : String} (other : name ≠ defsKey) :
            (fields.put defsKey (Fields.node definitions)).get? name = fields.get? name := by
          rw [Fields.get?_put, if_neg other]
        have apart {name : String} (isKeyword : name ∈ emittedKeywords) : name ≠ defsKey :=
          ne_of_mem_of_not_mem isKeyword free
        apply IsSchema.node
        · constructor
          · exact Fields.nodup_put regular.distinct _ _
          · intro name isName
            rw [Fields.map_fst_put] at isName
            split at isName
            · exact regular.known name isName
            · rcases List.mem_append.mp isName with isOld | isKey
              · exact regular.known name isOld
              · exact .inr (by simp [List.mem_singleton.mp isKey])
          · rw [kept (apart (by decide)), kept (apart (by decide))]
            exact regular.required
        · exact meets
        · intro name isName value found
          by_cases isKey : name = defsKey
          · subst isKey
            rw [Fields.get?_put_self] at found
            exact ⟨definitions, (Option.some.inj found).symm⟩
          · rw [kept isKey] at found
            exact isTable name isName value found
        · intro name isName inside found
          by_cases isKey : name = defsKey
          · subst isKey
            rw [Fields.get?_put_self] at found
            obtain rfl := Fields.node_inj.mp (Option.some.inj found)
            exact fun entry isEntry => (table entry isEntry).widened subset fresh
          · rw [kept isKey] at found
            exact inTable name isName inside found
        · rw [kept (apart (by decide))]
          exact items
        · rw [kept (apart (by decide))]
          exact additional
        · rw [kept (apart (by decide))]
          exact isList
        · rw [kept (apart (by decide))]
          exact among

/-- A document is a schema whose tables are the properties and the definitions. -/
theorem isSchema_mounted (free : defsKey ∉ emittedKeywords)
    (root : IsSchema ["properties"] (fun _ => True) (Fields.node fields))
    (table : ∀ entry ∈ definitions, IsSchema ["properties"] (fun _ => True) entry.2) :
    IsSchema ["properties", defsKey] (fun _ => True)
      (Fields.node (mounted defsKey fields definitions)) :=
  isSchema_mounted_of_meets free root table trivial

/-- What the references of a document lead to: the definitions mounted in it. -/
def Definitions.mountedIn (defsKey : String) (document : Value) : Definitions :=
  ⟨"#/" ++ defsKey ++ "/", ((document.get? defsKey).bind Value.entries?).getD []⟩

/-- The definitions of the strict form of a document are the strict forms of its definitions. -/
theorem mountedIn_closed (free : defsKey ∉ emittedKeywords)
    (isSchema : IsSchema ["properties"] condition (Fields.node fields)) :
    Definitions.mountedIn defsKey
        (Strict.closed ["properties", defsKey] (Fields.node (mounted defsKey fields definitions))) =
      ⟨"#/" ++ defsKey ++ "/",
        Value.entriesOf (definitions.mapped fun _ => Strict.closed ["properties", defsKey])⟩ := by
  have separate : ∀ name ∈ ["properties", defsKey],
      name = "properties" ∨ name ∉ emittedKeywords := by simp [free]
  have absent : fields.get? defsKey = none := by
    apply Fields.get?_eq_none_of_not_mem
    intro isName
    rcases isSchema.isRegular.known defsKey isName with isKeyword | isProperties
    · exact free isKeyword
    · exact free (List.mem_singleton.mp isProperties ▸ by decide)
  rw [Definitions.mountedIn, Strict.get?_closed_of_table separate (by simp) (by simp)]
  cases definitions with
  | nil =>
      rw [mounted, List.isEmpty_nil, if_pos rfl, absent]
      rfl
  | cons first rest =>
      rw [mounted, List.isEmpty_cons, if_neg Bool.false_ne_true, Fields.get?_put_self,
        Option.map_some, Value.rebuiltTable_node]
      rfl

/-- A document that begins with no dialect stays as it is when the dialect is taken off. -/
theorem withoutDialect_mounted (notDialect : defsKey ≠ "$schema")
    (isSchema : IsSchema ["properties", defsKey] condition
      (Fields.node (mounted defsKey fields definitions))) :
    Strict.withoutDialect (Fields.node (mounted defsKey fields definitions)) =
      .ok (Fields.node (mounted defsKey fields definitions)) := by
  rw [Fields.node, Value.ofFields_eq, Strict.withoutDialect, erase_entriesOf, List.filter_eq_self.mpr]
  intro field isField
  have isKnown : field.1 ∈ emittedKeywords ∨ field.1 ∈ ["properties", defsKey] :=
    isSchema.isRegular.known field.1 (List.mem_map_of_mem isField)
  rw [bne_iff_ne]
  intro isDialect
  rw [isDialect] at isKnown
  rcases isKnown with isKeyword | isTable
  · exact absurd isKeyword (by decide)
  · simp [notDialect.symm] at isTable

open Strict in
/-- The strict response format of a compiled schema holds a schema that is closed at every position,
through the definitions too; it is the document of the compiled schema but for what closes its nodes;
and with its own definitions it admits only what the compiled schema admits. -/
theorem strict_format_closed_and_narrower {options : Options} {store : Store} {target : Descriptor}
    {compiled : Compiled} (compiles : compile options store target = .ok compiled)
    (free : options.defsKey ∉ emittedKeywords) (notDialect : options.defsKey ≠ "$schema")
    (name : Option String) :
    ∃ schema, responseFormatOf compiled name true = .ok (Value.ofFields
        [("type", .str "json_schema"), ("json_schema", Value.ofFields
          [("name", .str (Naming.schemaName name Naming.defaultSchemaName)),
            ("strict", .bool true), ("schema", schema)])]) ∧
      (∀ node, Relation.ReflTransGen (Value.Child ["properties", options.defsKey]) schema node →
        node.IsClosed) ∧
      opened ["properties", options.defsKey] schema =
        opened ["properties", options.defsKey] (compiled.document none) ∧
      ∀ value, Validates (.mountedIn options.defsKey schema) schema value →
        compiled.Admits value := by
  have permits : Compile.Permits options store (Descriptor.Reaches store target) fun _ => True :=
    ⟨fun _ _ _ => trivial, fun _ _ _ _ => trivial, fun _ _ => trivial, fun _ _ => trivial⟩
  obtain ⟨⟨isCompiled, isSchema⟩, definitions, areDefinitions, -, each⟩ := Compile.good_of_compile
    (Compile.builds_isSchema (fun reaches isPart => reaches.tail isPart) permits) compiles
  obtain ⟨pass, -, shape⟩ := Compile.exists_pass_of_compile compiles
  obtain ⟨fields, isNode⟩ := isCompiled.named
  have isKey : compiled.defsKey = options.defsKey := congrArg Compiled.defsKey shape
  obtain ⟨root, table, key⟩ := compiled
  simp only at isNode areDefinitions isKey
  subst isNode areDefinitions isKey
  have separate : ∀ name ∈ ["properties", options.defsKey],
      name = "properties" ∨ name ∉ emittedKeywords := by simp [free]
  have document := isSchema_mounted free isSchema fun entry isEntry => (each entry isEntry).1
  refine ⟨closed ["properties", options.defsKey]
    (Fields.node (mounted options.defsKey fields definitions)), ?_, ?_, ?_, ?_⟩
  · have walked := (rebuilds_close free _ document (Nat.lt_succ_self _)).2
    unfold responseFormatOf responseFormat sanitize
    rw [document_eq_mounted]
    refine bind_eq_ok_iff.mpr ⟨_, withoutDialect_mounted notDialect document, ?_⟩
    refine bind_eq_ok_iff.mpr ⟨_, walked, rfl⟩
  · exact fun node reaches => isClosed_of_reaches separate (by simp) document reaches
  · rw [document_eq_mounted]
    exact opened_closed separate (by simp) document
  · intro value valid
    rw [mountedIn_closed free isSchema] at valid
    have wide : ∀ entry ∈ definitions, IsSchema ["properties", options.defsKey] (fun _ => True)
        entry.2 := fun entry isEntry => (each entry isEntry).1.widened (by simp) (by simp [free])
    have admitted := validates_of_closed separate (by simp) wide valid _ document rfl
    refine (Compiled.validates_document_iff rfl ?_ value).mp ?_
    · exact fun isKeyword => free (List.mem_append_left _ isKeyword)
    · rw [document_eq_mounted]
      exact admitted

open Strict in
/-- The strict format of linked numbers, whose definition refers to itself, is closed throughout, and
its schema admits only linked numbers. -/
theorem linkedNumbers_closed :
    ∃ compiled schema, compile Options.defaults linkedNumbers (.struct 0) = .ok compiled ∧
      (Options.defaults.defsKey ∉ emittedKeywords ∧ Options.defaults.defsKey ≠ "$schema") ∧
      responseFormatOf compiled none true = .ok (Value.ofFields
        [("type", .str "json_schema"), ("json_schema", Value.ofFields
          [("name", .str "typebridge_output"), ("strict", .bool true), ("schema", schema)])]) ∧
      (∀ node, Relation.ReflTransGen (Value.Child ["properties", "$defs"]) schema node →
        node.IsClosed) ∧
      opened ["properties", "$defs"] schema =
        opened ["properties", "$defs"] (compiled.document none) ∧
      ∀ value, Validates (.mountedIn "$defs" schema) schema value → compiled.Admits value := by
  have free : Options.defaults.defsKey ∉ emittedKeywords := by decide
  have notDialect : Options.defaults.defsKey ≠ "$schema" := by decide
  obtain ⟨schema, format, closed, same, narrower⟩ := @strict_format_closed_and_narrower
    Options.defaults linkedNumbers (.struct 0) _ rfl free notDialect none
  exact ⟨_, schema, rfl, ⟨free, notDialect⟩, format, closed, same, narrower⟩

end TypedReply
