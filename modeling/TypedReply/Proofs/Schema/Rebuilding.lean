import TypedReply.Proofs.Schema.Grammar

/-!
# Rebuilding schemas

A schema is rebuilt by changing each of its nodes, those inside of a node before the node itself. The
nodes stand in tables under given names, as items, as further values and as alternatives. What a
rebuilt node holds under a keyword is what the node held there, rebuilt.
-/

namespace TypedReply

namespace Fields

def mapped (image : String → Value → Value) (fields : Fields) : Fields :=
  fields.map fun field => (field.1, image field.1 field.2)

variable {image other : String → Value → Value} {fields : Fields} {name : String} {value : Value}

@[simp]
theorem map_fst_mapped (image : String → Value → Value) (fields : Fields) :
    (fields.mapped image).map Prod.fst = fields.map Prod.fst := by
  rw [mapped, List.map_map]
  rfl

@[simp]
theorem get?_mapped (image : String → Value → Value) (fields : Fields) (name : String) :
    (fields.mapped image).get? name = (fields.get? name).map (image name) := by
  induction fields with
  | nil => rfl
  | cons field rest ih =>
      change Fields.get? ((field.1, image field.1 field.2) :: mapped image rest) name = _
      rw [get?_cons, ih, show field = (field.1, field.2) from rfl, get?_cons]
      split
      next same => simp [same]
      next => rfl

theorem mapped_mapped (image other : String → Value → Value) (fields : Fields) :
    (fields.mapped image).mapped other = fields.mapped fun name value =>
      other name (image name value) := by
  rw [mapped, mapped, List.map_map]
  rfl

theorem mapped_congr (same : ∀ field ∈ fields, image field.1 field.2 = other field.1 field.2) :
    fields.mapped image = fields.mapped other :=
  List.map_congr_left fun field isField => by rw [same field isField]

theorem mapped_eq_self (same : ∀ field ∈ fields, image field.1 field.2 = field.2) :
    fields.mapped image = fields := by
  rw [mapped, List.map_congr_left fun field isField => by rw [same field isField]]
  exact List.map_id _

theorem eq_of_mapped_eq_self (same : fields.mapped image = fields) :
    ∀ field ∈ fields, image field.1 field.2 = field.2 := fun field isField =>
  congrArg Prod.snd (List.map_inj_left.mp (same.trans (List.map_id _).symm) field isField)

/-- What is put stands changed among the changed values. -/
theorem mapped_put (image : String → Value → Value) (fields : Fields) (name : String)
    (value : Value) :
    (fields.put name value).mapped image = (fields.mapped image).put name (image name value) := by
  induction fields with
  | nil => rfl
  | cons field rest ih =>
      obtain ⟨found, held⟩ := field
      by_cases same : found = name
      · simp [put, mapped, same]
      · simp only [put, same, if_false, mapped, List.map_cons] at ih ⊢
        rw [ih]

def mappedAt (name : String) (image : Value → Value) : Fields → Fields :=
  mapped fun found value => if found = name then image value else value

@[simp]
theorem map_fst_mappedAt (name : String) (image : Value → Value) (fields : Fields) :
    (fields.mappedAt name image).map Prod.fst = fields.map Prod.fst := map_fst_mapped _ fields

theorem get?_mappedAt_of_ne {other : String} (different : other ≠ name) (image : Value → Value)
    (fields : Fields) : (fields.mappedAt name image).get? other = fields.get? other := by
  simp [mappedAt, different]

/-- A value that its change keeps stays with the others. -/
theorem mappedAt_eq_self (distinct : (fields.map Prod.fst).Nodup) {image : Value → Value}
    (kept : ∀ value, fields.get? name = some value → image value = value) :
    fields.mappedAt name image = fields := by
  apply mapped_eq_self
  rintro ⟨found, value⟩ isField
  simp only
  split
  next same => exact kept value (same ▸ get?_of_mem distinct isField)
  next => rfl

/-- Changing the value of a name is putting the changed value under the name. -/
theorem mappedAt_eq_put (distinct : (fields.map Prod.fst).Nodup) (image : Value → Value)
    (found : fields.get? name = some value) :
    fields.mappedAt name image = fields.put name (image value) := by
  induction fields with
  | nil => cases found
  | cons field rest ih =>
      obtain ⟨first, held⟩ := field
      rw [List.map_cons, List.nodup_cons] at distinct
      rw [get?_cons] at found
      by_cases same : first = name
      · subst same
        obtain rfl : held = value := by simpa using found
        have others : mappedAt first image rest = rest := by
          apply mappedAt_eq_self distinct.2
          simp [get?_eq_none_of_not_mem distinct.1]
        simp only [mappedAt, mapped, put, if_true, List.map_cons] at others ⊢
        rw [others]
      · rw [if_neg (Ne.symm same)] at found
        have rest := ih distinct.2 found
        simp only [mappedAt, mapped, put, same, if_false, List.map_cons] at rest ⊢
        rw [rest]

end Fields

namespace Value

mutual

/-- A schema with all its nodes changed, those inside of a node first. -/
def rebuilt (tables : List String) (change : Entries → Entries) : Value → Value
  | .object entries => .object (change (rebuiltUnder tables change entries))
  | value => value
termination_by structural value => value

/-- What stands under the keywords of a node, with the nodes in it changed. -/
def rebuiltUnder (tables : List String) (change : Entries → Entries) :
    List (Value × Value) → List (Value × Value)
  | [] => []
  | (keyword, value) :: entries =>
    (keyword,
      if tables.any keyword.isText then rebuiltTable tables change value
      else if keyword.isText "items" || keyword.isText "additionalProperties" then
        rebuilt tables change value
      else if keyword.isText "anyOf" then rebuiltMembers tables change value
      else value) :: rebuiltUnder tables change entries
termination_by structural entries => entries

/-- A table of schemas with their nodes changed. -/
def rebuiltTable (tables : List String) (change : Entries → Entries) : Value → Value
  | .object entries => .object (rebuiltEach tables change entries)
  | value => value
termination_by structural value => value

/-- Named schemas with their nodes changed. -/
def rebuiltEach (tables : List String) (change : Entries → Entries) :
    List (Value × Value) → List (Value × Value)
  | [] => []
  | (name, value) :: entries =>
    (name, rebuilt tables change value) :: rebuiltEach tables change entries
termination_by structural entries => entries

/-- Alternatives with their nodes changed. -/
def rebuiltMembers (tables : List String) (change : Entries → Entries) : Value → Value
  | .list items => .list (rebuiltItems tables change items)
  | value => value
termination_by structural value => value

/-- A list of schemas with their nodes changed. -/
def rebuiltItems (tables : List String) (change : Entries → Entries) : List Value → List Value
  | [] => []
  | value :: values => rebuilt tables change value :: rebuiltItems tables change values
termination_by structural values => values

end

variable (tables : List String) (change : Entries → Entries)

/-- What stands under a keyword of a node, with the nodes in it changed. -/
def rebuiltPart (keyword : String) (value : Value) : Value :=
  if keyword ∈ tables then value.rebuiltTable tables change
  else if keyword = "items" ∨ keyword = "additionalProperties" then value.rebuilt tables change
  else if keyword = "anyOf" then value.rebuiltMembers tables change
  else value

theorem rebuilt_node (fields : Fields) :
    (Fields.node fields).rebuilt tables change =
      .object (change (entriesOf (fields.mapped (rebuiltPart tables change)))) := by
  have under : rebuiltUnder tables change (entriesOf fields) =
      entriesOf (fields.mapped (rebuiltPart tables change)) := by
    induction fields with
    | nil => rfl
    | cons field rest ih =>
        obtain ⟨keyword, value⟩ := field
        simp only [entriesOf, Fields.mapped, List.map_cons, rebuiltUnder] at ih ⊢
        rw [ih]
        simp [rebuiltPart, isText, text?]
  rw [Fields.node, ofFields_eq, rebuilt, under]

@[simp]
theorem rebuiltTable_node (table : Fields) :
    (Fields.node table).rebuiltTable tables change =
      Fields.node (table.mapped fun _ => rebuilt tables change) := by
  rw [Fields.node, ofFields_eq, rebuiltTable]
  refine congrArg Value.object ?_
  induction table with
  | nil => rfl
  | cons entry rest ih =>
      simp only [entriesOf, Fields.mapped, List.map_cons, rebuiltEach] at ih ⊢
      rw [ih]

@[simp]
theorem rebuiltMembers_list (members : List Value) :
    (list members).rebuiltMembers tables change = .list (members.map (rebuilt tables change)) := by
  rw [rebuiltMembers]
  refine congrArg Value.list ?_
  induction members with
  | nil => rfl
  | cons member rest ih => rw [rebuiltItems, ih, List.map_cons]

@[simp]
theorem rebuilt_bool (b : Bool) : (bool b).rebuilt tables change = .bool b := rfl

variable {tables change}

theorem rebuiltPart_of_table {keyword : String} (isTable : keyword ∈ tables) (value : Value) :
    rebuiltPart tables change keyword value = value.rebuiltTable tables change := if_pos isTable

/-- What stands under a keyword is rebuilt once by two changes where the schemas there are. -/
theorem rebuiltPart_rebuiltPart {first second : Entries → Entries} {keyword : String} {value : Value}
    (table : keyword ∈ tables → ∃ table, value = Fields.node table ∧ ∀ entry ∈ table,
      (entry.2.rebuilt tables first).rebuilt tables second = entry.2.rebuilt tables second)
    (inside : keyword = "items" ∨ keyword = "additionalProperties" →
      (value.rebuilt tables first).rebuilt tables second = value.rebuilt tables second)
    (members : keyword = "anyOf" → ∃ members, value = .list members ∧ ∀ member ∈ members,
      (member.rebuilt tables first).rebuilt tables second = member.rebuilt tables second) :
    rebuiltPart tables second keyword (rebuiltPart tables first keyword value) =
      rebuiltPart tables second keyword value := by
  unfold rebuiltPart
  split
  next isTable =>
    obtain ⟨table, rfl, each⟩ := table isTable
    simp only [rebuiltTable_node, Fields.mapped_mapped]
    exact congrArg Fields.node (Fields.mapped_congr each)
  next =>
    split
    next isInside => exact inside isInside
    next =>
      split
      next isMembers =>
        obtain ⟨members, rfl, each⟩ := members isMembers
        simp only [rebuiltMembers_list, List.map_map]
        exact congrArg Value.list (List.map_congr_left each)
      next => rfl

section Separate

variable (separate : ∀ name ∈ tables, name = "properties" ∨ name ∉ emittedKeywords)
include separate

theorem not_mem_tables {keyword : String} (isKeyword : keyword ∈ emittedKeywords)
    (other : keyword ≠ "properties") : keyword ∉ tables := by
  intro isTable
  rcases separate keyword isTable with isProperties | notKeyword
  · exact other isProperties
  · exact notKeyword isKeyword

theorem rebuiltPart_of_inside {keyword : String}
    (inside : keyword = "items" ∨ keyword = "additionalProperties") (value : Value) :
    rebuiltPart tables change keyword value = value.rebuilt tables change := by
  have notTable : keyword ∉ tables := by
    rcases inside with rfl | rfl
    · exact not_mem_tables separate (by decide) (by decide)
    · exact not_mem_tables separate (by decide) (by decide)
  rw [rebuiltPart, if_neg notTable, if_pos inside]

theorem rebuiltPart_of_members (value : Value) :
    rebuiltPart tables change "anyOf" value = value.rebuiltMembers tables change := by
  rw [rebuiltPart, if_neg (not_mem_tables separate (by decide) (by decide)), if_neg (by decide),
    if_pos rfl]

/-- Under the other keywords there are no schemas. -/
theorem rebuiltPart_of_other {keyword : String} (isOther : keyword ∈ ["type", "enum", "const",
    "required", "$ref", "description", "format"]) (value : Value) :
    rebuiltPart tables change keyword value = value := by
  have notTable : keyword ∉ tables := by
    apply not_mem_tables separate
    · exact (by decide : ["type", "enum", "const", "required", "$ref", "description", "format"] ⊆
        emittedKeywords) isOther
    · rintro rfl
      simp at isOther
  have notInside : ¬(keyword = "items" ∨ keyword = "additionalProperties") := by
    rintro (rfl | rfl) <;> simp at isOther
  have notMembers : keyword ≠ "anyOf" := by
    rintro rfl
    simp at isOther
  rw [rebuiltPart, if_neg notTable, if_neg notInside, if_neg notMembers]

end Separate

theorem keys_rebuiltEach (tables : List String) (change : Entries → Entries) (entries : Entries) :
    Entries.keys (rebuiltEach tables change entries) = Entries.keys entries := by
  induction entries with
  | nil => rfl
  | cons entry rest ih =>
      simp only [Entries.keys, rebuiltEach, List.map_cons] at ih ⊢
      rw [ih]

end Value

end TypedReply
