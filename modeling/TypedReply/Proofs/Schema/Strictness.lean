import TypedReply.Proofs.Schema.Rebuilding
import TypedReply.Schema.Strict

/-!
# Strict schemas

A strict schema is the compiled one with every object node closed that declares properties, at every
position of the schema and of its definitions. Closing changes nothing else about a node, and it only
narrows what the node admits: what is required in addition is declared, and what is no longer free
was not declared.
-/

namespace TypedReply

namespace Strict

open Value (entriesOf)

/-! ## Closing a node -/

/-- The named values of a node, closed if it is one of objects that declares properties. -/
def closedFields (fields : Fields) : Fields :=
  match isObjectNode (entriesOf fields), fields.get? "properties" with
  | true, some (.object properties) =>
    (fields.put "additionalProperties" (.bool false)).put "required"
      (.list (Value.Entries.keys properties))
  | _, _ => fields

theorem closeHere_entriesOf (fields : Fields) :
    closeHere (entriesOf fields) = entriesOf (closedFields fields) := by
  unfold closeHere closedFields
  rw [Value.get?_entriesOf]
  cases isObjectNode (entriesOf fields) with
  | false => rfl
  | true =>
      cases fields.get? "properties" with
      | none => rfl
      | some table =>
          cases table with
          | object properties => simp only [put_ofFields]
          | _ => rfl

theorem closedFields_of_declares {fields : Fields} {properties : Value.Entries}
    (objects : isObjectNode (entriesOf fields) = true)
    (declares : fields.get? "properties" = some (.object properties)) :
    closedFields fields = (fields.put "additionalProperties" (.bool false)).put "required"
      (.list (Value.Entries.keys properties)) := by
  unfold closedFields
  rw [objects, declares]

theorem closedFields_of_declaring {fields properties : Fields}
    (objects : isObjectNode (entriesOf fields) = true)
    (declares : fields.get? "properties" = some (Fields.node properties)) :
    closedFields fields = (fields.put "additionalProperties" (.bool false)).put "required"
      (.list (Value.Entries.keys (entriesOf properties))) :=
  closedFields_of_declares objects declares

/-- Closing a node changes two keywords alone. -/
theorem get?_closedFields (fields : Fields) {name : String}
    (other : name ≠ "additionalProperties" ∧ name ≠ "required") :
    (closedFields fields).get? name = fields.get? name := by
  unfold closedFields
  split
  · rw [Fields.get?_put, if_neg other.2, Fields.get?_put, if_neg other.1]
  · rfl

theorem nodup_closedFields {fields : Fields} (distinct : (fields.map Prod.fst).Nodup) :
    ((closedFields fields).map Prod.fst).Nodup := by
  unfold closedFields
  split
  · exact Fields.nodup_put (Fields.nodup_put distinct _ _) _ _
  · exact distinct

theorem mem_map_fst_closedFields {fields : Fields} {name : String}
    (isName : name ∈ (closedFields fields).map Prod.fst) :
    name ∈ fields.map Prod.fst ∨ name = "additionalProperties" ∨ name = "required" := by
  have mem_put {others : Fields} {keyword : String} {value : Value}
      (isThere : name ∈ (others.put keyword value).map Prod.fst) :
      name ∈ others.map Prod.fst ∨ name = keyword := by
    rw [Fields.map_fst_put] at isThere
    split at isThere
    · exact .inl isThere
    · simpa using isThere
  unfold closedFields at isName
  split at isName
  · rcases mem_put isName with isName | isRequired
    · exact (mem_put isName).imp_right .inl
    · exact .inr (.inr isRequired)
  · exact .inl isName

/-- A closed node either stays open under its further values or says so. -/
theorem get?_additional_closedFields (fields : Fields) :
    (closedFields fields).get? "additionalProperties" = some (.bool false) ∨
      (closedFields fields).get? "additionalProperties" = fields.get? "additionalProperties" := by
  unfold closedFields
  split
  · left
    simp [Fields.get?_put]
  · exact .inr rfl

/-! ## Closing all nodes -/

def closed (tables : List String) (schema : Value) : Value := schema.rebuilt tables closeHere

/-- What stands under a keyword once all nodes in it are closed. -/
def closedPart (tables : List String) : String → Value → Value :=
  Value.rebuiltPart tables closeHere

variable {tables : List String}

section Rebuilt

variable (separate : ∀ name ∈ tables, name = "properties" ∨ name ∉ emittedKeywords)
include separate

/-- A node is closed whether what is in it is rebuilt before or afterwards. -/
theorem closedFields_mapped (isTable : "properties" ∈ tables)
    (change : Value.Entries → Value.Entries) (fields : Fields) :
    closedFields (fields.mapped (Value.rebuiltPart tables change)) =
      (closedFields fields).mapped (Value.rebuiltPart tables change) := by
  have type : (Value.rebuiltPart tables change "type") = id :=
    funext (Value.rebuiltPart_of_other separate (by decide))
  have sameType : isObjectNode (entriesOf (fields.mapped (Value.rebuiltPart tables change))) =
      isObjectNode (entriesOf fields) := by
    unfold isObjectNode
    rw [Value.get?_entriesOf, Value.get?_entriesOf, Fields.get?_mapped, type, Option.map_id, id]
  have closing (properties : Value.Entries) :
      ((fields.put "additionalProperties" (.bool false)).put "required"
        (.list (Value.Entries.keys properties))).mapped (Value.rebuiltPart tables change) =
      ((fields.mapped (Value.rebuiltPart tables change)).put "additionalProperties"
        (.bool false)).put "required" (.list (Value.Entries.keys properties)) := by
    rw [Fields.mapped_put, Fields.mapped_put, Value.rebuiltPart_of_inside separate (.inr rfl),
      Value.rebuiltPart_of_other separate (by decide), Value.rebuilt_bool]
  unfold closedFields
  rw [sameType, Fields.get?_mapped]
  cases isObjectNode (entriesOf fields) with
  | false => rfl
  | true =>
      cases fields.get? "properties" with
      | none => rfl
      | some table =>
          rw [Option.map_some, Value.rebuiltPart_of_table isTable]
          cases table with
          | object properties =>
              rw [closing, Value.rebuiltTable]
              simp only [Value.keys_rebuiltEach]
          | _ => rfl

/-- A closed schema is a closed node of closed schemas. -/
theorem closed_node (isTable : "properties" ∈ tables) (fields : Fields) :
    closed tables (Fields.node fields) =
      Fields.node ((closedFields fields).mapped (closedPart tables)) := by
  rw [closed, Value.rebuilt_node, closeHere_entriesOf, closedFields_mapped separate isTable]
  rfl

end Rebuilt

/-! ## The walk -/

theorem nestingItems_le_iff {items : List Value} {limit : Nat} :
    nestingItems items ≤ limit ↔ ∀ item ∈ items, nesting item ≤ limit := by
  induction items with
  | nil => simp [nestingItems]
  | cons first rest ih => rw [nestingItems, Nat.max_le, ih, List.forall_mem_cons]

theorem nesting_node_le_iff {fields : Fields} {limit : Nat} :
    nesting (Fields.node fields) ≤ limit + 1 ↔ ∀ field ∈ fields, nesting field.2 ≤ limit := by
  rw [Fields.node, Value.ofFields_eq, nesting, Nat.add_le_add_iff_right]
  induction fields with
  | nil => simp [entriesOf, nestingEntries]
  | cons first rest ih =>
      rw [entriesOf, List.map_cons, nestingEntries, Nat.max_le, List.forall_mem_cons, ← ih]
      rfl

theorem nesting_le_of_mem {items : List Value} {item : Value} (isItem : item ∈ items) :
    nesting item ≤ nestingItems items := nestingItems_le_iff.mp (Nat.le_refl _) item isItem

theorem nesting_lt_of_mem_node {fields : Fields} {field : String × Value} (isField : field ∈ fields) :
    nesting field.2 < nesting (Fields.node fields) :=
  Nat.lt_succ_of_le (nesting_node_le_iff.mp (Nat.le_refl _) field isField)

theorem nesting_lt_of_get? {fields : Fields} {name : String} {value : Value}
    (found : fields.get? name = some value) : nesting value < nesting (Fields.node fields) :=
  nesting_lt_of_mem_node (Fields.mem_of_get? found)

section Steps

variable {change : Value.Entries → Outcome Value.Entries} {image : Value → Value} {fields : Fields}
variable {key : String} (distinct : (fields.map Prod.fst).Nodup)
include distinct

/-- The step at an object under a key changes what the key has, if that is an object. -/
theorem onObject_entriesOf
    (objects : ∀ entries, fields.get? key = some (.object entries) →
      onSchema change (.object entries) = .ok (image (.object entries)))
    (others : ∀ value, fields.get? key = some value → value.isObject = false →
      image value = value) :
    onObject change key (entriesOf fields) = .ok (entriesOf (fields.mappedAt key image)) := by
  unfold onObject
  rw [Value.get?_entriesOf]
  split
  next entries found =>
    obtain ⟨changed, isChanged, done⟩ := bind_eq_ok_iff.mp (objects entries found)
    rw [isChanged, Fields.mappedAt_eq_put distinct image found, ← Except.ok.inj done, ← put_ofFields]
    rfl
  next noObject =>
    rw [Fields.mappedAt_eq_self distinct]
    intro value found
    apply others value found
    cases value with
    | object entries => exact (noObject entries found).elim
    | _ => rfl

end Steps

/-- A change that may fail does to a schema what rebuilding does. -/
def Rebuilds (tables : List String) (nodes : Value.Entries → Value.Entries)
    (change : Value.Entries → Outcome Value.Entries) (schema : Value) : Prop :=
  schema.isObject = true ∧ onSchema change schema = .ok (schema.rebuilt tables nodes)

section Rebuilds

variable {nodes : Value.Entries → Value.Entries} {change : Value.Entries → Outcome Value.Entries}
variable {fields : Fields} {key : String} (distinct : (fields.map Prod.fst).Nodup)

theorem onValues_node {table : Fields} (each : ∀ entry ∈ table, Rebuilds tables nodes change entry.2) :
    onSchema (onValues change) (Fields.node table) =
      .ok ((Fields.node table).rebuiltTable tables nodes) := by
  have changed : onValues change (entriesOf table) =
      .ok ((entriesOf table).map fun entry => (entry.1, entry.2.rebuilt tables nodes)) := by
    apply mapM_eq_ok_map
    intro entry isEntry
    obtain ⟨field, isField, rfl⟩ := List.mem_map.mp isEntry
    simp only [(each field isField).2]
    rfl
  rw [Value.rebuiltTable_node, Fields.node, Value.ofFields_eq, onSchema, changed, entriesOf,
    List.map_map]
  change Except.ok (Value.object _) = .ok (Value.object ((table.map _).map _))
  rw [List.map_map]
  rfl

include distinct

theorem onObject_table (table : ∀ value, fields.get? key = some value →
      ∃ table, value = Fields.node table ∧ ∀ entry ∈ table, Rebuilds tables nodes change entry.2) :
    onObject (onValues change) key (entriesOf fields) =
      .ok (entriesOf (fields.mappedAt key (Value.rebuiltTable tables nodes))) := by
  apply onObject_entriesOf distinct
  · intro entries found
    obtain ⟨table, isTable, each⟩ := table _ found
    rw [isTable]
    exact onValues_node each
  · intro value found noObject
    obtain ⟨table, rfl, -⟩ := table _ found
    cases noObject

theorem onObject_schema (inside : ∀ value, fields.get? key = some value →
      value = .bool false ∨ Rebuilds tables nodes change value) :
    onObject change key (entriesOf fields) =
      .ok (entriesOf (fields.mappedAt key (Value.rebuilt tables nodes))) := by
  apply onObject_entriesOf distinct
  · intro entries found
    rcases inside _ found with isClosed | rebuilds
    · cases isClosed
    · exact rebuilds.2
  · intro value found noObject
    rcases inside _ found with rfl | rebuilds
    · rfl
    · rw [rebuilds.1] at noObject
      cases noObject

theorem onMembers_schemas (among : ∀ value, fields.get? key = some value →
      ∃ members, value = .list members ∧ ∀ member ∈ members, Rebuilds tables nodes change member) :
    onMembers change (entriesOf fields) key =
      .ok (entriesOf (fields.mappedAt key (Value.rebuiltMembers tables nodes))) := by
  unfold onMembers
  rw [Value.get?_entriesOf]
  split
  next members found =>
    obtain ⟨others, isList, each⟩ := among _ found
    cases isList
    rw [mapM_eq_ok_map fun member isMember => ?_, Fields.mappedAt_eq_put distinct _ found,
      Value.rebuiltMembers_list, ← put_ofFields]
    · rfl
    · obtain ⟨isObject, changed⟩ := each member isMember
      cases member with
      | object entries => exact changed
      | _ => cases isObject
  next noList =>
    rw [Fields.mappedAt_eq_self distinct]
    intro value found
    obtain ⟨members, rfl, -⟩ := among value found
    exact (noList members found).elim

omit distinct in
theorem onMembers_none (noList : ∀ members, fields.get? key ≠ some (.list members)) :
    onMembers change (entriesOf fields) key = .ok (entriesOf fields) := by
  unfold onMembers
  rw [Value.get?_entriesOf]
  split
  next members found => exact (noList members found).elim
  next => rfl

end Rebuilds

/-- What the steps at the keywords of a node change one after another is what stands under all of
them. -/
theorem mapped_eq_steps {defsKey : String} (free : defsKey ∉ emittedKeywords)
    (change : Value.Entries → Value.Entries) (fields : Fields) :
    ((((fields.mappedAt "properties" (Value.rebuiltTable ["properties", defsKey] change)).mappedAt
          "items" (Value.rebuilt ["properties", defsKey] change)).mappedAt
        "additionalProperties" (Value.rebuilt ["properties", defsKey] change)).mappedAt
      defsKey (Value.rebuiltTable ["properties", defsKey] change)).mappedAt
        "anyOf" (Value.rebuiltMembers ["properties", defsKey] change) =
      fields.mapped (Value.rebuiltPart ["properties", defsKey] change) := by
  simp only [Fields.mappedAt, Fields.mapped_mapped]
  congr 1
  funext name value
  have properties : "properties" ≠ defsKey := ne_of_mem_of_not_mem (by decide) free
  have items : "items" ≠ defsKey := ne_of_mem_of_not_mem (by decide) free
  have additional : "additionalProperties" ≠ defsKey := ne_of_mem_of_not_mem (by decide) free
  have anyOf : "anyOf" ≠ defsKey := ne_of_mem_of_not_mem (by decide) free
  rcases eq_or_ne name defsKey with rfl | notKey
  · simp [Value.rebuiltPart, properties.symm, items.symm, additional.symm, anyOf.symm]
  · rcases eq_or_ne name "properties" with rfl | notProperties
    · simp [Value.rebuiltPart, notKey]
    · rcases eq_or_ne name "items" with rfl | notItems
      · simp [Value.rebuiltPart, notKey]
      · rcases eq_or_ne name "additionalProperties" with rfl | notFurther
        · simp [Value.rebuiltPart, notKey]
        · simp [Value.rebuiltPart, notKey, notProperties, notItems, notFurther]

/-- What stands under the keywords of a node can be rebuilt by a change. -/
structure Walkable (defsKey : String) (nodes : Value.Entries → Value.Entries)
    (change : Value.Entries → Outcome Value.Entries) (fields : Fields) : Prop where
  distinct : (fields.map Prod.fst).Nodup
  table : ∀ name ∈ ["properties", defsKey], ∀ value, fields.get? name = some value →
    ∃ table, value = Fields.node table ∧
      ∀ entry ∈ table, Rebuilds ["properties", defsKey] nodes change entry.2
  inside : ∀ name ∈ ["items", "additionalProperties"], ∀ value, fields.get? name = some value →
    value = .bool false ∨ Rebuilds ["properties", defsKey] nodes change value
  among : ∀ value, fields.get? "anyOf" = some value → ∃ members, value = .list members ∧
    ∀ member ∈ members, Rebuilds ["properties", defsKey] nodes change member
  noOther : ∀ name ∈ ["oneOf", "allOf"], name ≠ defsKey → fields.get? name = none

/-- The walk over the keywords of a node. -/
def walk (defsKey : String) (change : Value.Entries → Outcome Value.Entries)
    (node : Value.Entries) : Outcome Value.Entries := do
  let node ← onObject (onValues change) "properties" node
  let node ← onObject change "items" node
  let node ← onObject change "additionalProperties" node
  let node ← onObject (onValues change) defsKey node
  combinations.foldlM (onMembers change) node

theorem close_succ (defsKey : String) (fuel : Nat) (node : Value.Entries) :
    close defsKey (fuel + 1) node = walk defsKey (close defsKey fuel) (closeHere node) := rfl

/-- The walk rebuilds what stands under the keywords. -/
theorem walk_entriesOf {defsKey : String} (free : defsKey ∉ emittedKeywords)
    {nodes : Value.Entries → Value.Entries} {change : Value.Entries → Outcome Value.Entries}
    {fields : Fields} (walkable : Walkable defsKey nodes change fields) :
    walk defsKey change (entriesOf fields) =
      .ok (entriesOf (fields.mapped (Value.rebuiltPart ["properties", defsKey] nodes))) := by
  obtain ⟨distinct, table, inside, among, noOther⟩ := walkable
  have properties : "properties" ≠ defsKey := ne_of_mem_of_not_mem (by decide) free
  have items : "items" ≠ defsKey := ne_of_mem_of_not_mem (by decide) free
  have additional : "additionalProperties" ≠ defsKey := ne_of_mem_of_not_mem (by decide) free
  have anyOf : "anyOf" ≠ defsKey := ne_of_mem_of_not_mem (by decide) free
  refine bind_eq_ok_iff.mpr ⟨_, onObject_table distinct (table "properties" (by simp)), ?_⟩
  refine bind_eq_ok_iff.mpr ⟨_, onObject_schema (by simpa using distinct) (by
    simpa [Fields.get?_mappedAt_of_ne] using inside "items" (by simp)), ?_⟩
  refine bind_eq_ok_iff.mpr ⟨_, onObject_schema (by simpa using distinct) (by
    simpa [Fields.get?_mappedAt_of_ne] using inside "additionalProperties" (by simp)), ?_⟩
  refine bind_eq_ok_iff.mpr ⟨_, onObject_table (by simpa using distinct) (by
    simpa [Fields.get?_mappedAt_of_ne, properties.symm, items.symm, additional.symm]
      using table defsKey (by simp)), ?_⟩
  rw [combinations, List.foldlM_cons]
  refine bind_eq_ok_iff.mpr ⟨_, onMembers_schemas (by simpa using distinct) (by
    simpa [Fields.get?_mappedAt_of_ne, anyOf] using among), ?_⟩
  rw [mapped_eq_steps free]
  have absent (name : String) (isName : name ∈ ["oneOf", "allOf"]) (members : List Value) :
      (fields.mapped (Value.rebuiltPart ["properties", defsKey] nodes)).get? name ≠
        some (.list members) := by
    rw [Fields.get?_mapped]
    rcases eq_or_ne name defsKey with rfl | other
    · cases found : fields.get? name with
      | none => simp
      | some value =>
          obtain ⟨table, rfl, -⟩ := table name (by simp) value found
          rw [Option.map_some, Value.rebuiltPart_of_table (by simp), Value.rebuiltTable_node]
          exact fun isList => nomatch isList
    · simp [noOther name isName other]
  rw [List.foldlM_cons, onMembers_none (absent "oneOf" (by simp))]
  refine bind_eq_ok_iff.mpr ⟨_, rfl, ?_⟩
  rw [List.foldlM_cons, onMembers_none (absent "allOf" (by simp))]
  rfl

/-- What stands under the keywords of a schema of the grammar can be closed where the schemas in it
can. -/
theorem walkable_closedFields {defsKey : String} {condition : Fields → Prop}
    {change : Value.Entries → Outcome Value.Entries} {fields : Fields}
    (isSchema : IsSchema ["properties", defsKey] condition (Fields.node fields))
    (rebuilds : ∀ schema, IsSchema ["properties", defsKey] condition schema →
      nesting schema < nesting (Fields.node fields) →
        Rebuilds ["properties", defsKey] closeHere change schema)
    (free : defsKey ∉ emittedKeywords) :
    Walkable defsKey closeHere change (closedFields fields) := by
  have same {name : String} (other : name ≠ "additionalProperties" ∧ name ≠ "required") :=
    get?_closedFields fields other
  generalize isNode : Fields.node fields = schema at isSchema
  cases isSchema with
  | node others regular _ isTable inTable items additional isList among =>
      obtain rfl := Fields.node_inj.mp isNode
      constructor
      case distinct => exact nodup_closedFields regular.distinct
      case table =>
        intro name isName value found
        have other : name ≠ "additionalProperties" ∧ name ≠ "required" := by
          rcases List.mem_cons.mp isName with rfl | isKey
          · decide
          · obtain rfl := List.mem_singleton.mp isKey
            exact ⟨(ne_of_mem_of_not_mem (by decide) free).symm,
              (ne_of_mem_of_not_mem (by decide) free).symm⟩
        rw [same other] at found
        obtain ⟨table, rfl⟩ := isTable name isName value found
        refine ⟨table, rfl, fun entry isEntry => rebuilds _ (inTable name isName table found entry
          isEntry) ?_⟩
        exact Nat.lt_trans (nesting_lt_of_mem_node isEntry) (nesting_lt_of_get? found)
      case inside =>
        intro name isName value found
        rcases List.mem_cons.mp isName with rfl | isName
        · rw [same (by decide)] at found
          exact .inr (rebuilds value (items value found) (nesting_lt_of_get? found))
        · obtain rfl := List.mem_singleton.mp isName
          by_cases isClosed : value = .bool false
          · exact .inl isClosed
          · rcases get?_additional_closedFields fields with closed | kept
            · rw [closed] at found
              exact (isClosed (Option.some.inj found).symm).elim
            · rw [kept] at found
              exact .inr (rebuilds value (additional value found isClosed)
                (nesting_lt_of_get? found))
      case among =>
        intro value found
        rw [same (by decide)] at found
        obtain ⟨members, rfl⟩ := isList value found
        refine ⟨members, rfl, fun member isMember => rebuilds _ (among members found member isMember)
          ?_⟩
        have inner := nesting_lt_of_get? found
        have least := nesting_le_of_mem isMember
        rw [nesting] at inner
        omega
      case noOther =>
        intro name isName notKey
        apply Fields.get?_eq_none_of_not_mem
        intro isThere
        have isKnown : name ∈ emittedKeywords := by
          rcases mem_map_fst_closedFields isThere with isField | rfl | rfl
          · rcases regular.known name isField with isKnown | isTable
            · exact isKnown
            · rcases List.mem_cons.mp isTable with rfl | isKey
              · decide
              · exact (notKey (List.mem_singleton.mp isKey)).elim
          · decide
          · decide
        exact (by decide : ∀ name ∈ ["oneOf", "allOf"], name ∉ emittedKeywords) name isName isKnown

/-- While fuel is left for its nesting, a schema of the grammar is closed by the walk. -/
theorem rebuilds_close {defsKey : String} {condition : Fields → Prop}
    (free : defsKey ∉ emittedKeywords) (fuel : Nat) {schema : Value}
    (isSchema : IsSchema ["properties", defsKey] condition schema)
    (enough : nesting schema < fuel) :
    Rebuilds ["properties", defsKey] closeHere (close defsKey fuel) schema := by
  induction fuel generalizing schema with
  | zero => cases enough
  | succ fuel ih =>
      obtain ⟨fields, rfl⟩ := isSchema.exists_fields
      have walkable := walkable_closedFields isSchema (fun schema isSchema inner =>
        ih isSchema (by omega)) free
      have walked := walk_entriesOf free walkable
      rw [← closeHere_entriesOf, ← close_succ] at walked
      refine ⟨rfl, ?_⟩
      rw [← closed, closed_node (by simp [free]) (by simp), Fields.node, Value.ofFields_eq, onSchema,
        walked]
      rfl

end Strict

end TypedReply
