import Mathlib.Logic.Relation
import TypedReply.Proofs.Coerce.Json
import TypedReply.Proofs.Schema.Strictness

/-!
# Closing documents of any form

A document that is closed need not be compiled: any JSON object may be given as a schema, and its
definitions may be looked for under any key, be it a keyword. The walk takes what stands under a
keyword for a schema, for a table of schemas or for a list of alternatives, and under some keys for
two of these at once, one after the other. What the walk makes of a value is therefore a function of
all that the value is taken for (`swept`), and to sweep a value twice is to sweep it once for both
(`swept_swept`). That holds as long as all the walk comes to is objects (`Fits`).
-/

namespace TypedReply.Strict

open Value (entriesOf IsJson)

/-! ## What a value is taken for -/

/-- What the walk takes a value for. -/
inductive Role where
  /-- A schema, if it is an object. -/
  | schema
  /-- An object that holds a schema under each key. -/
  | table
  /-- A list in which the objects are schemas. -/
  | members
deriving DecidableEq

abbrev Roles := Role → Bool

namespace Roles

def none : Roles := fun _ => false

def only (role : Role) : Roles := fun other => other == role

def union (first second : Roles) : Roles := fun role => first role || second role

end Roles

/-- The keys under which the walk looks into a node, in order, and what it takes for what there. -/
def places (defsKey : String) : List (String × Role) :=
  [("properties", .table), ("items", .schema), ("additionalProperties", .schema), (defsKey, .table),
    ("anyOf", .members), ("oneOf", .members), ("allOf", .members)]

namespace Roles

variable (defsKey : String) (roles first second : Roles) (name : String)

/-- What the value is taken for that stands in an object under a name. -/
def under : Roles := fun role =>
  roles .schema && (places defsKey).contains (name, role) || roles .table && role == .schema

def among : Roles := fun role => roles .members && role == .schema

theorem union_self : roles.union roles = roles := by
  funext role
  exact Bool.or_self _

theorem under_union :
    (first.union second).under defsKey name =
      (first.under defsKey name).union (second.under defsKey name) := by
  funext role
  simp only [under, union, Bool.and_or_distrib_right]
  ac_rfl

theorem among_union : (first.union second).among = first.among.union second.among := by
  funext role
  exact Bool.and_or_distrib_right ..

variable {roles}

theorem under_eq_none (noSchema : roles .schema = false) (noTable : roles .table = false) :
    roles.under defsKey name = none := by
  funext role
  simp [under, none, noSchema, noTable]

theorem among_eq_none (noMembers : roles .members = false) : roles.among = none := by
  funext role
  simp [among, none, noMembers]

end Roles

/-! ## Sweeping -/

/-- An object for what stands in a node of objects that declares properties, closed as that node. -/
def closedAs (node inside : Value.Entries) : Value.Entries :=
  match isObjectNode node, node.get? "properties" with
  | true, some (.object properties) =>
    (inside.put "additionalProperties" (.bool false)).put "required"
      (.list (Value.Entries.keys properties))
  | _, _ => inside

mutual

/-- A value with the nodes in it closed, by what the value is taken for. -/
def swept (defsKey : String) (roles : Roles) : Value → Value
  | .list items => .list (sweptItems defsKey roles.among items)
  | .object entries =>
    .object (if roles .schema then closedAs entries (sweptEntries defsKey roles entries)
      else sweptEntries defsKey roles entries)
  | value => value
termination_by structural value => value

/-- Items with the nodes in them closed. -/
def sweptItems (defsKey : String) (roles : Roles) : List Value → List Value
  | [] => []
  | item :: items => swept defsKey roles item :: sweptItems defsKey roles items
termination_by structural items => items

/-- What stands in an object with the nodes in it closed, by what the object is taken for. -/
def sweptEntries (defsKey : String) (roles : Roles) : List (Value × Value) → List (Value × Value)
  | [] => []
  | (key, value) :: entries =>
    (key, swept defsKey (key.text?.elim .none (roles.under defsKey)) value) ::
      sweptEntries defsKey roles entries
termination_by structural entries => entries

end

variable {defsKey : String} {roles first second : Roles} {role : Role} {bound : Nat}
variable {fields : Fields} {value : Value}

/-- What stands in an object under a name with the nodes in it closed. -/
def sweptPart (defsKey : String) (roles : Roles) (name : String) : Value → Value :=
  swept defsKey (roles.under defsKey name)

theorem sweptEntries_entriesOf (fields : Fields) :
    sweptEntries defsKey roles (entriesOf fields) =
      entriesOf (fields.mapped (sweptPart defsKey roles)) := by
  induction fields with
  | nil => rfl
  | cons field rest ih =>
      simp only [entriesOf, Fields.mapped, List.map_cons, sweptEntries] at ih ⊢
      rw [ih]
      rfl

@[simp]
theorem swept_list (items : List Value) :
    swept defsKey roles (.list items) = .list (items.map (swept defsKey roles.among)) := by
  rw [swept]
  congr 1
  induction items with
  | nil => rfl
  | cons item items ih => rw [sweptItems, ih, List.map_cons]

@[simp]
theorem isObject_swept (value : Value) : (swept defsKey roles value).isObject = value.isObject := by
  cases value <;> rfl

@[simp]
theorem isText_swept (value : Value) (text : String) :
    (swept defsKey roles value).isText text = value.isText text := by
  cases value <;> rfl

mutual

theorem swept_none : (value : Value) → swept defsKey .none value = value
  | .list items => congrArg Value.list (sweptItems_none items)
  | .object entries => congrArg Value.object (sweptEntries_none entries)
  | .null | .bool _ | .int _ | .float _ | .str _ | .date _ | .datetime _ | .bytes _ | .member ..
  | .tuple _ | .set _ | .frozenset _ | .record .. => rfl

theorem sweptItems_none : (items : List Value) → sweptItems defsKey .none items = items
  | [] => rfl
  | item :: items => congrArg₂ List.cons (swept_none item) (sweptItems_none items)

theorem sweptEntries_none :
    (entries : List (Value × Value)) → sweptEntries defsKey .none entries = entries
  | [] => rfl
  | (key, value) :: entries => by
    have nothing : key.text?.elim Roles.none (Roles.none.under defsKey) = .none := by
      cases key.text? with
      | none => rfl
      | some name => exact Roles.under_eq_none defsKey name rfl rfl
    rw [sweptEntries, nothing, swept_none value, sweptEntries_none entries]

end

theorem keys_sweptEntries (entries : Value.Entries) :
    Value.Entries.keys (sweptEntries defsKey roles entries) = Value.Entries.keys entries := by
  induction entries with
  | nil => rfl
  | cons entry rest ih =>
      simp only [Value.Entries.keys, sweptEntries, List.map_cons] at ih ⊢
      rw [ih]

/-- A value whose kind it is not taken for stays as it is. -/
theorem swept_of_idle (noMembers : ∀ items, value = .list items → roles .members = false)
    (noObject : value.isObject = true → roles .schema = false ∧ roles .table = false) :
    swept defsKey roles value = value := by
  cases value with
  | list items =>
      rw [swept, Roles.among_eq_none (noMembers items rfl), sweptItems_none]
  | object entries =>
      obtain ⟨noSchema, noTable⟩ := noObject rfl
      have nothing : roles.under defsKey = Roles.none.under defsKey := by
        funext name
        rw [Roles.under_eq_none defsKey name noSchema noTable]
        exact (Roles.under_eq_none defsKey name rfl rfl).symm
      have same (entries : Value.Entries) :
          sweptEntries defsKey roles entries = sweptEntries defsKey .none entries := by
        induction entries with
        | nil => rfl
        | cons entry rest ih => rw [sweptEntries, sweptEntries, ih, nothing]
      rw [swept, same, sweptEntries_none, noSchema]
      rfl
  | _ => rfl

theorem swept_atom (noObject : value.isObject = false) (noList : ∀ items, value ≠ .list items) :
    swept defsKey roles value = value :=
  swept_of_idle (fun items isList => (noList items isList).elim) fun isObject =>
    nomatch noObject.symm.trans isObject

/-! ## Nodes that declare properties -/

/-- A node is one of objects and declares properties. -/
def Declares (fields : Fields) : Prop :=
  isObjectNode (entriesOf fields) = true ∧
    ∃ properties, fields.get? "properties" = some (.object properties)

theorem closedFields_of_not_declares (open_ : ¬Declares fields) : closedFields fields = fields := by
  unfold closedFields
  split
  next properties objects declared => exact (open_ ⟨objects, properties, declared⟩).elim
  next => rfl

theorem declares_closedFields : Declares (closedFields fields) ↔ Declares fields := by
  rw [Declares, Declares, isObjectNode, isObjectNode, Value.get?_entriesOf, Value.get?_entriesOf,
    get?_closedFields fields (by decide), get?_closedFields fields (by decide)]

theorem declares_mapped : Declares (fields.mapped (sweptPart defsKey roles)) ↔ Declares fields := by
  have objects : isObjectNode (entriesOf (fields.mapped (sweptPart defsKey roles))) =
      isObjectNode (entriesOf fields) := by
    unfold isObjectNode
    rw [Value.get?_entriesOf, Value.get?_entriesOf, Fields.get?_mapped]
    cases fields.get? "type" with
    | none => rfl
    | some type =>
        cases type with
        | list types =>
            simp only [Option.map_some, sweptPart, swept_list, List.any_map]
            congr 1
            funext type
            exact isText_swept type "object"
        | _ => rfl
  have declared : (∃ properties, (fields.mapped (sweptPart defsKey roles)).get? "properties" =
      some (.object properties)) ↔ ∃ properties, fields.get? "properties" = some (.object properties)
      := by
    rw [Fields.get?_mapped]
    cases fields.get? "properties" with
    | none => simp
    | some table => cases table <;> simp [sweptPart, swept]
  rw [Declares, Declares, objects, declared]

theorem sweptPart_closing (properties : Value.Entries) :
    sweptPart defsKey roles "additionalProperties" (.bool false) = .bool false ∧
      sweptPart defsKey roles "required" (.list (Value.Entries.keys properties)) =
        .list (Value.Entries.keys properties) := by
  refine ⟨rfl, swept_of_idle (fun _ _ => ?_) fun isObject => nomatch isObject⟩
  simp [Roles.under, places]

/-- The named values of an object, closed if it is taken for a node. -/
def closedFor (roles : Roles) (fields : Fields) : Fields :=
  if roles .schema then closedFields fields else fields

theorem swept_node (fields : Fields) :
    swept defsKey roles (Fields.node fields) =
      Fields.node ((closedFor roles fields).mapped (sweptPart defsKey roles)) := by
  have closing : closedAs (entriesOf fields) (entriesOf (fields.mapped (sweptPart defsKey roles))) =
      entriesOf ((closedFields fields).mapped (sweptPart defsKey roles)) := by
    unfold closedAs
    rw [Value.get?_entriesOf]
    by_cases declares : Declares fields
    · obtain ⟨objects, properties, declared⟩ := declares
      obtain ⟨additional, required⟩ := @sweptPart_closing defsKey roles properties
      rw [closedFields_of_declares objects declared, Fields.mapped_put, Fields.mapped_put, additional,
        required, ← put_ofFields, ← put_ofFields, objects, declared]
    · rw [closedFields_of_not_declares declares]
      split
      next properties objects declared => exact (declares ⟨objects, properties, declared⟩).elim
      next => rfl
  rw [Fields.node, Value.ofFields_eq, swept, sweptEntries_entriesOf, closing, closedFor]
  split <;> rfl

/-- A closed node that is swept is closed still, unless its table of properties is taken for a node
itself. -/
theorem closedFields_swept (distinct : (fields.map Prod.fst).Nodup) (noTable : roles .table = false) :
    closedFields ((closedFields fields).mapped (sweptPart defsKey roles)) =
      (closedFields fields).mapped (sweptPart defsKey roles) := by
  by_cases declares : Declares fields
  · have again : Declares ((closedFields fields).mapped (sweptPart defsKey roles)) :=
      declares_mapped.mpr (declares_closedFields.mpr declares)
    obtain ⟨objects, properties, declared⟩ := declares
    have keeps : (closedFields fields).get? "properties" = some (.object properties) := by
      rw [get?_closedFields fields (by decide), declared]
    have noSchema : roles.under defsKey "properties" .schema = false := by
      simp [Roles.under, places, noTable]
    have table : ((closedFields fields).mapped (sweptPart defsKey roles)).get? "properties" =
        some (.object (sweptEntries defsKey (roles.under defsKey "properties") properties)) := by
      rw [Fields.get?_mapped, keeps, Option.map_some, sweptPart, swept, noSchema]
      rfl
    obtain ⟨additional, required⟩ := @sweptPart_closing defsKey roles properties
    have put_self {others : Fields} (apart : (others.map Prod.fst).Nodup) {name : String}
        {held : Value} (found : others.get? name = some held) : others.put name held = others :=
      (Fields.mappedAt_eq_put apart id found).symm.trans (Fields.mappedAt_eq_self apart fun _ _ => rfl)
    have apart : (((closedFields fields).mapped (sweptPart defsKey roles)).map Prod.fst).Nodup := by
      rw [Fields.map_fst_mapped]
      exact nodup_closedFields distinct
    rw [closedFields_of_declares again.1 table, keys_sweptEntries, put_self apart, put_self apart]
    · rw [Fields.get?_mapped, closedFields_of_declares objects declared, Fields.get?_put, if_pos rfl,
        Option.map_some, required]
    · rw [Fields.get?_mapped, closedFields_of_declares objects declared, Fields.get?_put,
        if_neg (by decide), Fields.get?_put, if_pos rfl, Option.map_some, additional]
  · rw [closedFields_of_not_declares declares, closedFields_of_not_declares]
    exact fun again => declares (declares_mapped.mp again)

/-! ## JSON documents -/

theorem isJson_node : IsJson bound (Fields.node fields) ↔
    (fields.map Prod.fst).Nodup ∧ ∀ field ∈ fields, IsJson bound field.2 := by
  constructor
  · intro json
    generalize isNode : Fields.node fields = node at json
    cases json with
    | object distinct each =>
        obtain rfl := Fields.node_inj.mp isNode
        exact ⟨distinct, each⟩
    | _ => cases isNode
  · exact fun ⟨distinct, each⟩ => .object distinct each

theorem exists_node (json : IsJson bound value) (isObject : value.isObject = true) :
    ∃ fields, value = Fields.node fields := by
  cases json with
  | object => exact ⟨_, rfl⟩
  | _ => cases isObject

/-- What is known of all that stands in a node, and of what closes nodes, is known of all that stands
in the closed node. -/
theorem closing_keeps {motive : Value → Prop} (json : IsJson bound (Fields.node fields))
    (each : ∀ field ∈ fields, motive field.2) (closing : Declares fields → motive (.bool false))
    (names : Declares fields → ∀ names : List String, motive (.list (names.map .str))) :
    ∀ field ∈ closedFields fields, motive field.2 := by
  by_cases declares : Declares fields
  · obtain ⟨objects, properties, declared⟩ := id declares
    have isTable := (isJson_node.mp json).2 _ (Fields.mem_of_get? declared)
    rw [closedFields_of_declares objects declared]
    intro field isField
    rcases Fields.mem_or_eq_of_mem_put isField with isField | rfl
    · rcases Fields.mem_or_eq_of_mem_put isField with isField | rfl
      · exact each field isField
      · exact closing declares
    · generalize isObject : Value.object properties = table at isTable
      cases isTable with
      | object =>
          cases isObject
          rw [← entriesOf, Value.keys_entriesOf]
          exact names declares _
      | _ => cases isObject
  · rwa [closedFields_of_not_declares declares]

theorem isJson_names (names : List String) : IsJson bound (.list (names.map .str)) := by
  apply IsJson.list
  intro item isItem
  obtain ⟨name, -, rfl⟩ := List.mem_map.mp isItem
  exact .str name

theorem isJson_closedFields (json : IsJson bound (Fields.node fields)) :
    IsJson bound (Fields.node (closedFields fields)) := by
  obtain ⟨distinct, each⟩ := isJson_node.mp json
  refine isJson_node.mpr ⟨nodup_closedFields distinct, ?_⟩
  exact closing_keeps json each (fun _ => .bool false) fun _ => isJson_names

theorem nesting_lt_of_mem_closedFields (json : IsJson bound (Fields.node fields)) :
    ∀ field ∈ closedFields fields, nesting field.2 < nesting (Fields.node fields) := by
  have deep (declares : Declares fields) : 1 < nesting (Fields.node fields) := by
    obtain ⟨-, properties, declared⟩ := declares
    have inner := nesting_lt_of_get? declared
    rw [nesting] at inner
    omega
  apply closing_keeps (motive := fun value => nesting value < nesting (Fields.node fields)) json
    fun field isField => nesting_lt_of_mem_node isField
  · intro declares
    exact Nat.lt_of_succ_lt (deep declares)
  · intro declares names
    have flat : nestingItems (names.map .str) = 0 := by
      induction names with
      | nil => rfl
      | cons name names ih => rw [List.map_cons, nestingItems, ih]; rfl
    rw [nesting, flat]
    exact deep declares

theorem nesting_closedFields_le (json : IsJson bound (Fields.node fields)) :
    nesting (Fields.node (closedFields fields)) ≤ nesting (Fields.node fields) :=
  nesting_node_le_iff.mpr fun field isField =>
    Nat.le_of_lt_succ (nesting_lt_of_mem_closedFields json field isField)

/-- What holds of a JSON value by what stands in it, closed or not, holds of every JSON value. -/
@[elab_as_elim]
theorem closing_induction {motive : (value : Value) → IsJson bound value → Prop}
    (atom : ∀ value json, value.isObject = false → (∀ items, value ≠ .list items) →
      motive value json)
    (list : ∀ items json, (∀ item ∈ items, ∀ json, motive item json) → motive (.list items) json)
    (node : ∀ fields json, (∀ field ∈ fields, ∀ json, motive field.2 json) →
      (∀ field ∈ closedFields fields, ∀ json, motive field.2 json) →
        motive (Fields.node fields) json)
    (value : Value) (json : IsJson bound value) : motive value json := by
  induction json with
  | list each ih => exact list _ _ fun item isItem _ => ih item isItem
  | @object fields distinct each ih =>
      refine node fields (.object distinct each) (fun field isField _ => ih field isField) ?_
      apply closing_keeps (motive := fun value => ∀ json, motive value json) (.object distinct each)
        fun field isField _ => ih field isField
      · exact fun _ json => atom _ json rfl fun _ isList => nomatch isList
      · intro _ names json
        refine list _ json fun item isItem json => ?_
        obtain ⟨name, -, rfl⟩ := List.mem_map.mp isItem
        exact atom _ json rfl fun _ isList => nomatch isList
  | _ => exact atom _ _ rfl fun _ isList => nomatch isList

/-! ## What the walk comes to -/

/-- A value holds a schema, by what it is taken for. -/
inductive Role.Holds : Role → Value → Value → Prop where
  | schema {value : Value} (isObject : value.isObject = true) : Holds .schema value value
  | entry {entries : Value.Entries} {entry : Value × Value} (isEntry : entry ∈ entries) :
      Holds .table (.object entries) entry.2
  | member {members : List Value} {member : Value} (isMember : member ∈ members)
      (isObject : member.isObject = true) : Holds .members (.list members) member

/-- The walk goes from a node to a schema that stands in it once the node is closed. -/
inductive Visits (defsKey : String) : Value → Value → Prop where
  | inside {fields : Fields} {name : String} {role : Role} {value sub : Value}
      (isPlace : (name, role) ∈ places defsKey) (found : (closedFields fields).get? name = some value)
      (holds : role.Holds value sub) : Visits defsKey (Fields.node fields) sub

theorem exists_place_of_visits {sub : Value} (visits : Visits defsKey (Fields.node fields) sub) :
    ∃ name role value, (name, role) ∈ places defsKey ∧ (closedFields fields).get? name = some value ∧
      role.Holds value sub := by
  generalize isNode : Fields.node fields = node at visits
  cases visits with
  | inside isPlace found holds =>
      obtain rfl := Fields.node_inj.mp isNode
      exact ⟨_, _, _, isPlace, found, holds⟩

/-- All that the walk comes to from a value is objects, if the value is taken for one thing. -/
def FitsIn (defsKey : String) (role : Role) (value : Value) : Prop :=
  ∀ sub, role.Holds value sub → ∀ visited, Relation.ReflTransGen (Visits defsKey) sub visited →
    visited.isObject = true

/-- All that the walk comes to from a value is objects, for all that the value is taken for. -/
def Fits (defsKey : String) (roles : Roles) (value : Value) : Prop :=
  ∀ role, roles role = true → FitsIn defsKey role value

@[simp]
theorem fits_only : Fits defsKey (.only role) value ↔ FitsIn defsKey role value := by
  constructor
  · exact fun fits => fits role (beq_self_eq_true role)
  · intro fits other isOther
    rwa [eq_of_beq isOther]

theorem fitsIn_schema_node : FitsIn defsKey .schema (Fields.node fields) ↔
    ∀ place ∈ places defsKey, ∀ value, (closedFields fields).get? place.1 = some value →
      FitsIn defsKey place.2 value := by
  constructor
  · intro fits place isPlace value found sub holds visited reaches
    exact fits _ (.schema rfl) visited (.head (.inside isPlace found holds) reaches)
  · intro each sub holds visited reaches
    cases holds
    rcases reaches.cases_head with rfl | ⟨next, visits, reaches⟩
    · rfl
    · obtain ⟨_, _, _, isPlace, found, holds⟩ := exists_place_of_visits visits
      exact each _ isPlace _ found _ holds visited reaches

theorem fitsIn_schema_of_noObject (noObject : value.isObject = false) :
    FitsIn defsKey .schema value := by
  intro sub holds
  cases holds with
  | schema isObject => exact nomatch noObject.symm.trans isObject

theorem fitsIn_table_node : FitsIn defsKey .table (Fields.node fields) ↔
    ∀ field ∈ fields, field.2.isObject = true ∧ FitsIn defsKey .schema field.2 := by
  constructor
  · intro fits field isField
    have isEntry : (Value.str field.1, field.2) ∈ entriesOf fields := List.mem_map_of_mem isField
    refine ⟨fits _ (.entry isEntry) _ .refl, fun sub holds => ?_⟩
    cases holds
    exact fits _ (.entry isEntry)
  · intro each sub holds
    generalize isNode : Fields.node fields = node at holds
    cases holds with
    | entry isEntry =>
        cases isNode
        obtain ⟨field, isField, rfl⟩ := List.mem_map.mp isEntry
        exact (each field isField).2 _ (.schema (each field isField).1)

theorem fitsIn_members_list {members : List Value} : FitsIn defsKey .members (.list members) ↔
    ∀ member ∈ members, FitsIn defsKey .schema member := by
  constructor
  · intro fits member isMember sub holds
    cases holds with
    | schema isObject => exact fits _ (.member isMember isObject)
  · intro each sub holds
    cases holds with
    | member isMember isObject => exact each _ isMember _ (.schema isObject)

theorem fitsIn_table_list (items : List Value) : FitsIn defsKey .table (.list items) := by
  intro sub holds
  cases holds

theorem fitsIn_members_node (fields : Fields) : FitsIn defsKey .members (Fields.node fields) := by
  intro sub holds
  generalize isNode : Fields.node fields = node at holds
  cases holds
  cases isNode

theorem not_fitsIn_table (declares : Declares fields) :
    ¬FitsIn defsKey .table (Fields.node fields) := by
  intro fits
  have objects := declares.1
  unfold isObjectNode at objects
  rw [Value.get?_entriesOf] at objects
  cases found : fields.get? "type" with
  | none => simp [found] at objects
  | some type =>
      have isObject := (fitsIn_table_node.mp fits _ (Fields.mem_of_get? found)).1
      rw [found] at objects
      cases type with
      | object entries => cases objects
      | _ => cases isObject

/-- What fits in a closed node fits for what it is taken for there. -/
theorem Fits.under (json : IsJson bound (Fields.node fields))
    (fits : Fits defsKey roles (Fields.node fields)) :
    ∀ field ∈ closedFields fields, Fits defsKey (roles.under defsKey field.1) field.2 := by
  intro field isField role isRole
  rw [Roles.under, Bool.or_eq_true, Bool.and_eq_true, Bool.and_eq_true] at isRole
  rcases isRole with ⟨isSchema, isPlace⟩ | ⟨isTable, isSchema⟩
  · have found := Fields.get?_of_mem (nodup_closedFields (isJson_node.mp json).1) isField
    exact fitsIn_schema_node.mp (fits _ isSchema) _ (List.contains_iff_mem.mp isPlace) _ found
  · obtain rfl := eq_of_beq isSchema
    have open_ : ¬Declares fields := fun declares => not_fitsIn_table declares (fits _ isTable)
    rw [closedFields_of_not_declares open_] at isField
    exact (fitsIn_table_node.mp (fits _ isTable) field isField).2

theorem Fits.among {items : List Value} (fits : Fits defsKey roles (.list items)) :
    ∀ item ∈ items, Fits defsKey roles.among item := by
  intro item isItem role isRole
  obtain ⟨isMembers, isSchema⟩ := Bool.and_eq_true_iff.mp isRole
  obtain rfl := eq_of_beq isSchema
  exact fitsIn_members_list.mp (fits _ isMembers) item isItem

/-- Sweeping a node does nothing, or it closes the node as far as there is something to close. -/
theorem swept_node_cases (json : IsJson bound (Fields.node fields))
    (fits : Fits defsKey roles (Fields.node fields)) :
    (roles .schema = false ∧ roles .table = false) ∨
      closedFor roles fields = closedFields fields ∧
        closedFields ((closedFields fields).mapped (sweptPart defsKey roles)) =
          (closedFields fields).mapped (sweptPart defsKey roles) := by
  by_cases declares : Declares fields
  · have noTable : roles .table = false :=
      Bool.eq_false_iff.mpr fun isTable => not_fitsIn_table declares (fits _ isTable)
    cases isSchema : roles .schema with
    | false => exact .inl ⟨rfl, noTable⟩
    | true =>
        exact .inr ⟨if_pos isSchema, closedFields_swept (isJson_node.mp json).1 noTable⟩
  · right
    have same := closedFields_of_not_declares declares
    rw [closedFor, same, ite_self]
    exact ⟨rfl, closedFields_of_not_declares fun again => declares (declares_mapped.mp again)⟩

theorem fitsIn_swept (json : IsJson bound value) (fits : Fits defsKey roles value) :
    FitsIn defsKey role (swept defsKey roles value) ↔ FitsIn defsKey role value := by
  induction value, json using closing_induction generalizing roles role with
  | atom value json noObject noList =>
      rw [swept_atom noObject noList]
  | list items json ih =>
      rw [swept_list]
      cases role with
      | schema => exact iff_of_true (fitsIn_schema_of_noObject rfl) (fitsIn_schema_of_noObject rfl)
      | table => exact iff_of_true (fitsIn_table_list _) (fitsIn_table_list _)
      | members =>
          rw [fitsIn_members_list, fitsIn_members_list, List.forall_mem_map]
          exact forall₂_congr fun item isItem => ih item isItem (json.item isItem)
            (fits.among item isItem)
  | node fields json ih ihClosed =>
      rcases swept_node_cases json fits with ⟨noSchema, noTable⟩ | ⟨closes, closed⟩
      · rw [swept_of_idle (fun _ isList => by cases isList) fun _ => ⟨noSchema, noTable⟩]
      · rw [swept_node, closes]
        have each (field : String × Value) (isField : field ∈ closedFields fields) {role : Role} :
            FitsIn defsKey role (sweptPart defsKey roles field.1 field.2) ↔
              FitsIn defsKey role field.2 :=
          ihClosed field isField ((isJson_node.mp (isJson_closedFields json)).2 field isField)
            (fits.under json field isField)
        cases role with
        | schema =>
            rw [fitsIn_schema_node, fitsIn_schema_node, closed]
            refine forall₂_congr fun place isPlace => ?_
            rw [Fields.get?_mapped]
            cases found : (closedFields fields).get? place.1 with
            | none => simp
            | some value => simpa using each _ (Fields.mem_of_get? found)
        | table =>
            by_cases declares : Declares fields
            · exact iff_of_false
                (not_fitsIn_table (declares_mapped.mpr (declares_closedFields.mpr declares)))
                (not_fitsIn_table declares)
            · rw [closedFields_of_not_declares declares] at each ⊢
              rw [fitsIn_table_node, fitsIn_table_node, Fields.mapped, List.forall_mem_map]
              refine forall₂_congr fun field isField => ?_
              exact and_congr (by rw [sweptPart, isObject_swept]) (each field isField)
        | members => exact iff_of_true (fitsIn_members_node _) (fitsIn_members_node _)

theorem Fits.swept (json : IsJson bound value) (fits : Fits defsKey first value)
    (others : Fits defsKey second value) : Fits defsKey second (swept defsKey first value) :=
  fun role isRole => (fitsIn_swept json fits).mpr (others role isRole)

/-- A value that is swept for one thing and then for another is swept once for both. -/
theorem swept_swept (json : IsJson bound value) (fits : Fits defsKey first value)
    (others : Fits defsKey second value) :
    swept defsKey second (swept defsKey first value) = swept defsKey (first.union second) value := by
  induction value, json using closing_induction generalizing first second with
  | atom value json noObject noList =>
      rw [swept_atom noObject noList, swept_atom noObject noList, swept_atom noObject noList]
  | list items json ih =>
      rw [swept_list, swept_list, swept_list, List.map_map, Roles.among_union]
      refine congrArg Value.list (List.map_congr_left fun item isItem => ?_)
      exact ih item isItem (json.item isItem) (fits.among item isItem) (others.among item isItem)
  | node fields json ih ihClosed =>
      rcases swept_node_cases json fits with ⟨noSchema, noTable⟩ | ⟨closes, closed⟩
      · have same (name : String) : (first.union second).under defsKey name =
            second.under defsKey name := by
          rw [Roles.under_union, Roles.under_eq_none defsKey name noSchema noTable]
          rfl
        have sameNode : closedFor (first.union second) fields = closedFor second fields := by
          rw [closedFor, closedFor, Roles.union, noSchema, Bool.false_or]
        rw [swept_of_idle (fun _ isList => by cases isList) fun _ => ⟨noSchema, noTable⟩, swept_node,
          swept_node, sameNode]
        refine congrArg Fields.node (Fields.mapped_congr fun field _ => ?_)
        rw [sweptPart, sweptPart, same]
      · have kept : closedFor second ((closedFields fields).mapped (sweptPart defsKey first)) =
            (closedFields fields).mapped (sweptPart defsKey first) := by
          rw [closedFor, closed, ite_self]
        have both : closedFor (first.union second) fields = closedFields fields := by
          rw [closedFor, Roles.union]
          cases isSchema : first .schema with
          | true => rfl
          | false =>
              rw [closedFor, isSchema, if_neg Bool.false_ne_true] at closes
              rw [← closes, ite_self]
        rw [swept_node, closes, swept_node, kept, swept_node, both, Fields.mapped_mapped]
        refine congrArg Fields.node (Fields.mapped_congr fun field isField => ?_)
        rw [sweptPart, sweptPart, sweptPart, Roles.under_union]
        exact ihClosed field isField ((isJson_node.mp (isJson_closedFields json)).2 field isField)
          (fits.under json field isField) (others.under json field isField)

theorem closedFor_eq (roles : Roles) (fields : Fields) :
    closedFor roles fields = closedFields fields ∨ closedFor roles fields = fields :=
  ite_eq_or_eq _ _ _

theorem isJson_swept (json : IsJson bound value) : IsJson bound (swept defsKey roles value) := by
  induction value, json using closing_induction generalizing roles with
  | atom value json noObject noList =>
      rwa [swept_atom noObject noList]
  | list items json ih =>
      rw [swept_list]
      exact .list (List.forall_mem_map.mpr fun item isItem => ih item isItem (json.item isItem))
  | node fields json ih ihClosed =>
      rw [swept_node, isJson_node, Fields.map_fst_mapped, Fields.mapped, List.forall_mem_map]
      rcases closedFor_eq roles fields with same | same
      · obtain ⟨distinct, each⟩ := isJson_node.mp (isJson_closedFields json)
        rw [same]
        exact ⟨distinct, fun field isField => ihClosed field isField (each field isField)⟩
      · obtain ⟨distinct, each⟩ := isJson_node.mp json
        rw [same]
        exact ⟨distinct, fun field isField => ih field isField (each field isField)⟩

theorem nesting_swept_le (json : IsJson bound value) :
    nesting (swept defsKey roles value) ≤ nesting value := by
  induction value, json using closing_induction generalizing roles with
  | atom value json noObject noList =>
      exact Nat.le_of_eq (congrArg nesting (swept_atom noObject noList))
  | list items json ih =>
      rw [swept_list, nesting, nesting, Nat.add_le_add_iff_right, nestingItems_le_iff,
        List.forall_mem_map]
      exact fun item isItem => Nat.le_trans (ih item isItem (json.item isItem))
        (nesting_le_of_mem isItem)
  | node fields json ih ihClosed =>
      rw [swept_node]
      refine nesting_node_le_iff.mpr (List.forall_mem_map.mpr fun field isField =>
        Nat.le_of_lt_succ ?_)
      rcases closedFor_eq roles fields with same | same
      · rw [same] at isField
        exact Nat.lt_of_le_of_lt
          (ihClosed field isField ((isJson_node.mp (isJson_closedFields json)).2 field isField))
          (nesting_lt_of_mem_closedFields json field isField)
      · rw [same] at isField
        exact Nat.lt_of_le_of_lt (ih field isField ((isJson_node.mp json).2 field isField))
          (nesting_lt_of_mem_node isField)

end TypedReply.Strict
