import TypedReply.Proofs.Registry.FieldNames
import TypedReply.Proofs.Schema.Cutting

/-!
# Required names and properties

The properties of a record's node are a table, in which every name stands once; what the node requires
is a list with a name for each field that must be given. No declaration refuses fields of one name. So
whatever is required is a property, but it is required twice if two fields of one name must be given.
-/

namespace TypedReply

/-! ## Names that stand once -/

theorem nodup_eraseDups (names : List String) : names.eraseDups.Nodup := by
  cases names with
  | nil => simp
  | cons name rest =>
      rw [List.eraseDups_cons, List.nodup_cons, List.mem_eraseDups]
      exact ⟨by simp, nodup_eraseDups _⟩
termination_by names.length
decreasing_by exact Nat.lt_succ_of_le (List.length_filter_le _ _)

theorem eraseDups_eq_self_iff (names : List String) : names.eraseDups = names ↔ names.Nodup := by
  constructor
  · intro same
    exact same ▸ nodup_eraseDups names
  · intro distinct
    induction names with
    | nil => rfl
    | cons name rest ih =>
        obtain ⟨new, distinct⟩ := List.nodup_cons.mp distinct
        have kept : rest.filter (fun other => !other == name) = rest :=
          List.filter_eq_self.mpr fun other isOther => by
            simpa using fun same : other = name => new (same ▸ isOther)
        rw [List.eraseDups_cons, kept, ih distinct]

/-! ## Nodes of records -/

/-- A node of an object that shows properties of some names in order, and requires names in order. -/
structure Value.Requires (node : Value) (properties required : List String) : Prop where
  isObject : node.get? "type" = some (.str "object")
  properties : ∃ table : Fields, node.get? "properties" = some (Fields.node table) ∧
    table.map Prod.fst = properties
  required : node.get? "required" = some (.list (required.map .str))

namespace Compile

variable {options : Options} {store : Store} {compiled : Compiled}

/-- The name of the tag, where a record has a name. -/
def tagNames (name : Option String) : List String := (name.map fun _ => typeKey).toList

theorem names_putAll_tagged {tagged nodes : Fields} (only : ∀ name ∈ tagged.map Prod.fst, name = typeKey)
    (free : typeKey ∉ nodes.map Prod.fst) :
    (tagged.putAll nodes).map Prod.fst = tagged.map Prod.fst ++ (nodes.map Prod.fst).eraseDups := by
  have kept : (nodes.map Prod.fst).filter (· ∉ tagged.map Prod.fst) = nodes.map Prod.fst :=
    List.filter_eq_self.mpr fun name isNode =>
      decide_eq_true fun isTagged => free (only name isTagged ▸ isNode)
  rw [Fields.map_fst_putAll, kept]

theorem requires_structNode (options : Options) (struct : Struct) {nodes : Fields}
    (free : typeKey ∉ nodes.map Prod.fst) :
    (structNode options struct nodes).Requires (typeKey :: (nodes.map Prod.fst).eraseDups)
      (typeKey :: requiredNames struct.fields) := by
  have names : (Fields.putAll [(typeKey, tagNode struct.name)] nodes).map Prod.fst =
      typeKey :: (nodes.map Prod.fst).eraseDups := names_putAll_tagged (by simp) free
  constructor
  · simp [structNode, Fields.get?_cons]
  · exact ⟨_, by simp [structNode, Fields.get?_cons], names⟩
  · simp [structNode, Fields.get?_cons]

theorem requires_recordNode (name description : Option String) (names : List String) {nodes : Fields}
    (free : typeKey ∉ nodes.map Prod.fst) :
    (recordNode name description names nodes).Requires
      (tagNames name ++ (nodes.map Prod.fst).eraseDups) (tagNames name ++ names) := by
  cases name with
  | none =>
      have shown := @names_putAll_tagged [] nodes (by simp) free
      constructor
      · simp [recordNode, Fields.get?_cons]
      · exact ⟨_, by simp [recordNode, Fields.get?_cons], shown⟩
      · simp [recordNode, Fields.get?_cons, tagNames]
  | some name =>
      have shown := @names_putAll_tagged [(typeKey, tagNode name)] nodes (by simp) free
      constructor
      · simp [recordNode, Fields.get?_cons]
      · exact ⟨_, by simp [recordNode, Fields.get?_cons], shown⟩
      · simp [recordNode, Fields.get?_cons, tagNames]

/-- What the schema of a struct requires. -/
theorem requires_of_struct {id : StructId}
    (compiles : compile options store (.struct id) = .ok compiled) :
    typeKey ∉ (store.at id).fields.map (·.name) ∧
      compiled.schema.Requires (typeKey :: ((store.at id).fields.map (·.name)).eraseDups)
        (typeKey :: requiredNames (store.at id).fields) := by
  obtain ⟨nodes, isBody, names, free⟩ := Gemini.exists_root_body compiles
  rw [isBody, ← names]
  exact ⟨free, requires_structNode options _ free⟩

/-- What the schema of a fixed record requires. -/
theorem requires_of_record {record : FixedRecord}
    (compiles : compile options store (.fixed record) = .ok compiled) :
    typeKey ∉ record.fields.map (·.name) ∧
      compiled.schema.Requires (tagNames record.name ++ (record.fields.map (·.name)).eraseDups)
        (tagNames record.name ++ record.fields.map (·.name)) := by
  obtain ⟨pass, finishes⟩ := Gemini.exists_finishes compiles
  have renders := finishes.renders
  simp only [Renders] at renders
  obtain ⟨nodes, follow, isNode⟩ := renders
  have follows := (rendersFields_iff _ _).mp follow
  have free := typeKey_not_mem_of_renders follows
  rw [isNode, ← map_fst_of_renders follows]
  exact ⟨free, requires_recordNode _ _ _ free⟩

end Compile

/-- What a node requires is among its properties, and it requires no name twice exactly if the names
that must be given differ. -/
structure Value.RequiresGiven (node : Value) (given properties required : List String) : Prop where
  requires : node.Requires properties required
  declared : required ⊆ properties
  once : required.Nodup ↔ given.Nodup

namespace Compile

variable {options : Options} {store : Store} {compiled : Compiled}

theorem requiredNames_subset (fields : List Field) : requiredNames fields ⊆ fields.map (·.name) := by
  intro name isRequired
  obtain ⟨field, isField, -, rfl⟩ := mem_requiredNames.mp isRequired
  exact List.mem_map_of_mem isField

theorem requiresGiven_of_struct {id : StructId} {fields : List Field}
    (same : (store.at id).fields = fields)
    (compiles : compile options store (.struct id) = .ok compiled) : ∃ properties required,
      compiled.schema.RequiresGiven (requiredNames fields) properties required := by
  subst same
  obtain ⟨free, requires⟩ := requires_of_struct compiles
  refine ⟨_, _, requires, ?_, ?_⟩
  · apply List.cons_subset_cons
    intro name isRequired
    exact List.mem_eraseDups.mpr (requiredNames_subset _ isRequired)
  · rw [List.nodup_cons]
    exact and_iff_right fun isRequired => free (requiredNames_subset _ isRequired)

theorem requiresGiven_of_record {record : FixedRecord}
    (compiles : compile options store (.fixed record) = .ok compiled) : ∃ properties required,
      compiled.schema.RequiresGiven (record.fields.map (·.name)) properties required ∧
        (required = properties ↔ (record.fields.map (·.name)).Nodup) := by
  obtain ⟨free, requires⟩ := requires_of_record compiles
  refine ⟨_, _, ⟨requires, ?_, ?_⟩, ?_⟩
  · intro name isRequired
    rw [List.mem_append] at isRequired ⊢
    exact isRequired.imp_right List.mem_eraseDups.mpr
  · cases record.name with
    | none => rfl
    | some name => exact List.nodup_cons.trans (and_iff_right free)
  · rw [List.append_cancel_left_eq, eq_comm]
    exact eraseDups_eq_self_iff _

end Compile

namespace Registry

open Compile

theorem fields_of_defineStruct {registry after : Registry} {reference name : String}
    {fields : List Field} {description : Option String} {id : StructId}
    (yields : Yields (defineStruct reference name fields description) registry id after) :
    id < after.structs.length ∧ (after.structs.at id).fields = fields := by
  obtain ⟨key, between, -, rfl, rfl⟩ :=
    (leaves_defineStruct registry reference name fields description).of_yields yields
  have isStruct := between.at_add ⟨name, some key, fields, description⟩
  exact ⟨lt_of_cls (congrArg Struct.cls isStruct), congrArg Struct.fields isStruct⟩

theorem fields_of_defineRecord {registry after : Registry} {reference : String} {name : Option String}
    {fields : List Field} {description : Option String} {record : FixedRecord}
    (yields : Yields (defineRecord reference name fields description) registry record after) :
    record.fields = fields := by
  obtain ⟨-, key, rfl, -⟩ := exists_built_of_defineRecord yields
  rfl

/-- What is required of declared structs and records, and of the structs of classes: names of
properties only, and none twice exactly if the names of the fields that must be given differ. A fixed
record requires its properties in order exactly if the names of its fields differ. The fields of the
struct of a class are those of the class, one for each under the name that it has in plain data, unless
the class was built for declared fields. -/
theorem requires_declared (options : Options) :
    (∀ registry after later reference name fields description id compiled,
      Yields (defineStruct reference name fields description) registry id after →
        after.Retains later → compile options later.structs (.struct id) = .ok compiled →
          ∃ properties required,
            compiled.schema.RequiresGiven (requiredNames fields) properties required) ∧
    (∀ registry after store reference name fields description record compiled,
      Yields (defineRecord reference name fields description) registry record after →
        compile options store (.fixed record) = .ok compiled →
          ∃ properties required,
            compiled.schema.RequiresGiven (fields.map (·.name)) properties required ∧
              (required = properties ↔ (fields.map (·.name)).Nodup)) ∧
    ∀ registry after later key cls id compiled, Arises registry →
      registry.catalog.get? key = some cls → Yields (fromClass key) registry id after →
        after.Retains later → compile options later.structs (.struct id) = .ok compiled →
          ∃ found properties required, after.catalog.get? key = some found ∧
            found.IsShownBy (after.structs.at id).fields ∧
            compiled.schema.RequiresGiven (requiredNames (after.structs.at id).fields) properties
              required := by
  refine ⟨?_, ?_, ?_⟩
  · intro registry after later reference name fields description id compiled yields retains compiles
    obtain ⟨isPlaced, areFields⟩ := fields_of_defineStruct yields
    exact requiresGiven_of_struct (retains.structs id isPlaced ▸ areFields) compiles
  · intro registry after store reference name fields description record compiled yields compiles
    exact fields_of_defineRecord yields ▸ requiresGiven_of_record compiles
  · intro registry after later key cls id compiled arises found yields retains compiles
    obtain ⟨isPlaced, shown, isFound, isShown⟩ := exists_shown_class arises found yields
    have areFields := congrArg Struct.fields (retains.structs id isPlaced)
    obtain ⟨properties, required, requires⟩ := requiresGiven_of_struct areFields compiles
    exact ⟨shown, properties, required, isFound, isShown, requires⟩

/-- Two numbers that must be given, as declared fields. -/
def twoNumbers (first second : String) : List Field :=
  [⟨first, .scalar .int, true, none, none⟩, ⟨second, .scalar .float, true, none, none⟩]

/-- Two numbers that must be given, as the fields of a class, each with a name in plain data. -/
def twoMeasures (first second : String) : List ClassField :=
  [⟨"width", some first, .scalar .int, .required, none, .none⟩,
    ⟨"height", some second, .scalar .float, .required, none, .none⟩]

/-- Numbers of different names are required once. -/
theorem numbers_required_once :
    (∃ id after compiled properties required,
      Yields (defineStruct "Size" "Size" (twoNumbers "w" "h") none) empty id after ∧
        compile Options.defaults after.structs (.struct id) = .ok compiled ∧
        compiled.schema.RequiresGiven ["w", "h"] properties required) ∧
    (∃ record after compiled properties required,
      Yields (defineRecord "Size" none (twoNumbers "w" "h") none) empty record after ∧
        compile Options.defaults after.structs (.fixed record) = .ok compiled ∧
        compiled.schema.RequiresGiven ["w", "h"] properties required ∧ required = properties) ∧
    ∃ key before id after compiled properties required,
      Yields (addClass "Size" "Size" none [.base] (twoMeasures "w" "h")) empty key before ∧
        Arises before ∧ Yields (fromClass key) before id after ∧
        compile Options.defaults after.structs (.struct id) = .ok compiled ∧
        compiled.schema.RequiresGiven ["w", "h"] properties required := by
  obtain ⟨structs, records, classes⟩ := requires_declared Options.defaults
  refine ⟨?_, ?_, ?_⟩
  · obtain ⟨properties, required, requires⟩ :=
      structs empty _ _ "Size" "Size" (twoNumbers "w" "h") none _ _ rfl (.refl _) rfl
    exact ⟨_, _, _, properties, required, rfl, rfl, requires⟩
  · obtain ⟨properties, required, requires, inOrder⟩ :=
      records empty _ [] "Size" none (twoNumbers "w" "h") none _ _ rfl rfl
    exact ⟨_, _, _, properties, required, rfl, rfl, requires, inOrder.mpr (by decide)⟩
  · have arises : Arises _ := .use (.fresh .reference)
      (.cls "Size" "Size" none [.base] (twoMeasures "w" "h"))
    obtain ⟨_, properties, required, -, -, requires⟩ :=
      classes _ _ _ (.declared 0) _ _ _ arises rfl rfl (.refl _) rfl
    exact ⟨_, _, _, _, _, properties, required, rfl, arises, rfl, rfl, requires⟩

/-- Two numbers of one name are required twice, be they declared in a struct, in a record or under one
name of plain data in a class; they share one property. -/
theorem namesakes_required_twice :
    (∃ id after compiled properties required,
      Yields (defineStruct "Size" "Size" (twoNumbers "n" "n") none) empty id after ∧
        compile Options.defaults after.structs (.struct id) = .ok compiled ∧
        compiled.schema.Requires properties required ∧ ¬required.Nodup) ∧
    (∃ record after compiled properties required,
      Yields (defineRecord "Size" none (twoNumbers "n" "n") none) empty record after ∧
        compile Options.defaults after.structs (.fixed record) = .ok compiled ∧
        compiled.schema.Requires properties required ∧ ¬required.Nodup ∧ required ≠ properties) ∧
    ∃ key before id after compiled properties required,
      Yields (addClass "Size" "Size" none [.base] (twoMeasures "n" "n")) empty key before ∧
        Yields (fromClass key) before id after ∧
        compile Options.defaults after.structs (.struct id) = .ok compiled ∧
        compiled.schema.Requires properties required ∧ ¬required.Nodup := by
  refine ⟨⟨_, _, _, [typeKey, "n"], [typeKey, "n", "n"], rfl, rfl, ⟨rfl, ⟨_, rfl, rfl⟩, rfl⟩, by decide⟩,
    ⟨_, _, _, ["n"], ["n", "n"], rfl, rfl, ⟨rfl, ⟨_, rfl, rfl⟩, rfl⟩, by decide, by decide⟩, ?_⟩
  exact ⟨_, _, _, _, _, [typeKey, "n"], [typeKey, "n", "n"], rfl, rfl, rfl,
    ⟨rfl, ⟨_, rfl, rfl⟩, rfl⟩, by decide⟩

end Registry

end TypedReply
