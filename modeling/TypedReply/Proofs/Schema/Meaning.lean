import TypedReply.Proofs.Schema.Nullability
import TypedReply.Proofs.Schema.Sharing

/-!
# The meaning of descriptors

What a descriptor admits is said without schemas, references or definitions: it follows the value
down through the structs, so cycles among structs are no obstacle. A compiled schema admits the same
values, however its structs are shared.
-/

namespace TypedReply

namespace Descriptor

/-- A value is one that a descriptor describes. Calendar values are texts here, and a field that
need not be given may be null. -/
inductive Admits (store : Store) : Descriptor → Value → Prop where
  | scalar {kind : ScalarKind} {value : Value} (typed : value.hasType kind.jsonType = true) :
      Admits store (.scalar kind) value
  | enum {type : EnumType} {text : String} (isLabel : text ∈ type.labels) :
      Admits store (.enum type) (.str text)
  | array {element : Descriptor} {items : List Value}
      (each : ∀ item ∈ items, Admits store element item) :
      Admits store (.array element) (.list items)
  | map {key element : Descriptor} {value : Value} (isObject : value.isObject = true)
      (each : ∀ name part, value.get? name = some part → Admits store element part) :
      Admits store (.map key element) value
  | absent {inner : Descriptor} : Admits store (.optional inner) .null
  | present {inner : Descriptor} {value : Value} (admits : Admits store inner value) :
      Admits store (.optional inner) value
  | member {members : List Descriptor} {member : Descriptor} {value : Value}
      (isMember : member ∈ nonNull members) (admits : Admits store member value) :
      Admits store (.union members) value
  | nil {members : List Descriptor} (isNil : nilable members = true ∨ nonNull members = []) :
      Admits store (.union members) .null
  | null : Admits store .null .null
  | fixed {record : FixedRecord} {value : Value} (isObject : value.isObject = true)
      (tagged : ∀ name, record.name = some name → value.get? typeKey = some (.str name))
      (complete : ∀ field ∈ record.fields, (value.get? field.name).isSome = true)
      (closed : ∀ key, (value.get? key).isSome = true →
        key ∈ record.fields.map (·.name) ∨ key = typeKey ∧ record.name.isSome = true)
      (each : ∀ field ∈ record.fields, ∀ part, value.get? field.name = some part →
        ¬(field.required = false ∧ part = .null) → Admits store field.type part) :
      Admits store (.fixed record) value
  | struct {id : StructId} {value : Value}
      (tagged : value.get? typeKey = some (.str (store.at id).name))
      (complete : ∀ field ∈ (store.at id).fields, field.required = true →
        (value.get? field.name).isSome = true)
      (each : ∀ field ∈ (store.at id).fields, ∀ part, value.get? field.name = some part →
        ¬(field.required = false ∧ part = .null) → Admits store field.type part) :
      Admits store (.struct id) value

/-- Every record names its fields differently, and every enumeration is one of texts. -/
structure Regular (store : Store) (descriptor : Descriptor) : Prop where
  distinct : ((descriptor.fields store).map (·.name)).Nodup
  texts : ∀ type, descriptor = .enum type → type.literals = []

/-- No enumeration stands where null is added. -/
structure Unwidened (store : Store) (descriptor : Descriptor) : Prop where
  position : descriptor.widenedEnum? = none
  fields : ∀ field ∈ descriptor.fields store, field.required = false → field.type.enum? = none

end Descriptor

namespace EnumType

theorem sameJson_str_iff {choice : Value} (isText : choice.text?.isSome = true) (text : String) :
    choice.sameJson (.str text) = true ↔ choice.text? = some text := by
  cases choice with
  | str held => simp [Value.text?]
  | member tag name held =>
      obtain ⟨number, owner, _ | _ | _⟩ := tag
      case some.text =>
        cases held with
        | str held =>
            simp [Value.sameJson, Value.sameScalar, Value.number?, Value.integer?, Value.text?]
        | _ => cases isText
      all_goals cases isText
  | _ => cases isText

theorem mem_labels_iff {type : EnumType} (texts : type.literals = []) (text : String) :
    text ∈ type.labels ↔ ∃ choice ∈ type.values, choice.sameJson (.str text) = true := by
  simp only [labels, List.mem_map]
  refine exists_congr fun choice => and_congr_right fun isChoice => ?_
  have isText := isSome_text?_of_mem_values texts isChoice
  rw [sameJson_str_iff isText]
  obtain ⟨found, isFound⟩ := Option.isSome_iff_exists.mp isText
  simp [isFound]

end EnumType

theorem mem_requiredNames {fields : List Field} {name : String} :
    name ∈ requiredNames fields ↔
      ∃ field ∈ fields, field.required = true ∧ field.name = name := by
  simp only [requiredNames, List.mem_filterMap, Option.ite_none_right_eq_some, Option.some.injEq]

/-- What the compiled node of a descriptor says of a value is what the descriptor says of it. -/
structure Means (definitions : Definitions) (store : Store) (descriptor : Descriptor)
    (node value : Value) : Prop where
  sound : Validates definitions node value → descriptor.Admits store value
  complete : descriptor.Throughout store (Descriptor.Unwidened store) →
    descriptor.Admits store value → Validates definitions node value

namespace Compile

variable {options : Options} {store : Store} {pass : Pass}

/-- What stands for a struct is a reference or an object node. -/
theorem StandsFor.standing {visited : List String}
    (consistent : Consistent options store visited pass) (id : StructId) (node : Value)
    (stands : StandsFor options store pass id node) :
    IsCompiled node ∧ IsSilent node := by
  obtain ⟨-, rfl | defined⟩ := stands
  · exact ⟨isCompiled_refNode options _, isSilent_refNode options _⟩
  · obtain ⟨other, fields, -, -, rfl⟩ := consistent.bodies _ node defined
    exact ⟨isCompiled_structNode options _ fields, isSilent_structNode options _ fields⟩

section Values

variable {definitions : Definitions} {drawn : StructId → Value → Prop} {value : Value}
variable {fields : List Field} {compiled : Fields}

theorem map_fst_of_renders (renders : List.Forall₂ (RendersField drawn) fields compiled) :
    compiled.map Prod.fst = fields.map (·.name) := by
  induction renders with
  | nil => rfl
  | cons first rest ih => simp [ih, first.2.1]

theorem typeKey_not_mem_of_renders (renders : List.Forall₂ (RendersField drawn) fields compiled) :
    typeKey ∉ compiled.map Prod.fst := by
  rw [map_fst_of_renders renders]
  intro isField
  obtain ⟨field, isField, reserved⟩ := List.mem_map.mp isField
  obtain ⟨entry, -, free, -⟩ := exists_right_of_mem renders isField
  exact free reserved

/-- The parts of an object that the nodes of a record's fields admit are described by the fields. -/
theorem fields_sound (compiledNodes : ∀ id node, drawn id node → IsCompiled node)
    (renders : List.Forall₂ (RendersField drawn) fields compiled)
    (distinct : (fields.map (·.name)).Nodup)
    (means : ∀ field ∈ fields, ∀ name part, value.get? name = some part → ∀ node,
      Renders drawn field.type node → Means definitions store field.type node part)
    (valid : ∀ name part, value.get? name = some part → ∀ node, compiled.get? name = some node →
      Validates definitions node part) :
    ∀ field ∈ fields, ∀ part, value.get? field.name = some part →
      ¬(field.required = false ∧ part = .null) → field.type.Admits store part := by
  intro field isField part found notNull
  obtain ⟨⟨name, node⟩, isEntry, -, rfl, inner, renders', rfl⟩ :=
    exists_right_of_mem renders isField
  have declared := Fields.get?_of_mem (map_fst_of_renders renders ▸ distinct) isEntry
  have admitted := valid _ part found _ declared
  rw [validates_fieldNode (renders'.isCompiled compiledNodes)] at admitted
  refine (means field isField _ part found inner renders').sound (admitted.resolve_right ?_)
  exact fun widened => notNull ⟨widened.1, widened.2.2.1⟩

/-- The parts of an object that a record's fields describe are admitted by their nodes, unless an
enumeration stands where null is added. -/
theorem fields_complete (standing : ∀ id node, drawn id node → IsCompiled node ∧ IsSilent node)
    (renders : List.Forall₂ (RendersField drawn) fields compiled)
    (means : ∀ field ∈ fields, ∀ name part, value.get? name = some part → ∀ node,
      Renders drawn field.type node → Means definitions store field.type node part)
    (unwidened : ∀ field ∈ fields, field.required = false → field.type.enum? = none)
    (throughout : ∀ field ∈ fields, field.type.Throughout store (Descriptor.Unwidened store))
    (described : ∀ field ∈ fields, ∀ part, value.get? field.name = some part →
      ¬(field.required = false ∧ part = .null) → field.type.Admits store part) :
    ∀ name part, value.get? name = some part → ∀ node, compiled.get? name = some node →
      Validates definitions node part := by
  intro name part found node declared
  obtain ⟨field, isField, -, rfl, inner, renders', rfl⟩ :=
    exists_left_of_mem renders (Fields.mem_of_get? declared)
  have isCompiled := renders'.isCompiled fun id node holds => (standing id node holds).1
  by_cases isNull : field.required = false ∧ part = .null
  · obtain ⟨optional, rfl⟩ := isNull
    simp only [optional]
    rw [(renders'.stance standing).validates_null_fieldNode_iff isCompiled]
    have plain := unwidened field isField optional
    have position := (throughout field isField).here.position
    simp [plain, position]
  · rw [validates_fieldNode isCompiled]
    exact .inl <| (means field isField _ part found inner renders').complete
      (throughout field isField) (described field isField part found isNull)

theorem means_scalar (kind : ScalarKind) :
    Means definitions store (.scalar kind) (scalarNode kind) value := by
  refine ⟨fun valid => .scalar ((validates_scalarNode kind).mp valid), fun _ admits => ?_⟩
  cases admits with
  | scalar typed => exact (validates_scalarNode kind).mpr typed

theorem means_enum {type : EnumType} (texts : type.literals = []) :
    Means definitions store (.enum type) (enumNode type) value := by
  constructor
  · intro valid
    obtain ⟨text, rfl, choice⟩ := (validates_enumNode texts).mp valid
    exact .enum ((EnumType.mem_labels_iff texts text).mpr choice)
  · intro _ admits
    cases admits with
    | enum isLabel =>
        exact (validates_enumNode texts).mpr ⟨_, rfl, (EnumType.mem_labels_iff texts _).mp isLabel⟩

theorem means_null : Means definitions store .null nullNode value := by
  constructor
  · intro valid
    rw [validates_nullNode.mp valid]
    exact .null
  · intro _ admits
    cases admits with
    | null => exact validates_nullNode.mpr rfl

/-- The node of a list means what the list does where the node of its elements does of each item. -/
theorem means_array {element : Descriptor} {inner : Value}
    (means : ∀ items, value = .list items → ∀ item ∈ items,
      Means definitions store element inner item) :
    Means definitions store (.array element)
      (Fields.node [("type", .str "array"), ("items", inner)]) value := by
  constructor
  · intro valid
    obtain ⟨items, rfl, each⟩ := (validates_arrayNode inner).mp valid
    exact .array fun item isItem => (means items rfl item isItem).sound (each item isItem)
  · intro unwidened admits
    cases admits with
    | array each =>
        refine (validates_arrayNode inner).mpr ⟨_, rfl, fun item isItem => ?_⟩
        exact (means _ rfl item isItem).complete (unwidened.of_part (.element element))
          (each item isItem)

theorem means_map {key element : Descriptor} {keyNode inner : Value}
    (means : ∀ name part, value.get? name = some part → Means definitions store element inner part) :
    Means definitions store (.map key element) (mapNode keyNode inner) value := by
  constructor
  · intro valid
    obtain ⟨isObject, each⟩ := (validates_mapNode keyNode inner).mp valid
    exact .map isObject fun name part found => (means name part found).sound (each name part found)
  · intro unwidened admits
    cases admits with
    | map isObject each =>
        refine (validates_mapNode keyNode inner).mpr ⟨isObject, fun name part found => ?_⟩
        exact (means name part found).complete (unwidened.of_part (.value key element))
          (each name part found)

theorem means_optional (standing : ∀ id node, drawn id node → IsCompiled node ∧ IsSilent node)
    {inner : Descriptor} {node : Value} (renders : Renders drawn inner node)
    (means : Means definitions store inner node value) :
    Means definitions store (.optional inner) (nullable node) value := by
  have isCompiled := renders.isCompiled fun id node holds => (standing id node holds).1
  constructor
  · intro valid
    rcases (validates_nullable isCompiled).mp valid with valid | ⟨rfl, -⟩
    · exact .present (means.sound valid)
    · exact .absent
  · intro unwidened admits
    cases admits with
    | absent =>
        exact (renders.stance standing).admits_nullable isCompiled unwidened.here.position _
    | present admits =>
        exact (validates_nullable isCompiled).mpr
          (.inl (means.complete (unwidened.of_part (.inner inner)) admits))

/-- The node of a union means what the union does where the nodes of its members do. -/
theorem means_union (standing : ∀ id node, drawn id node → IsCompiled node ∧ IsSilent node)
    {members : List Descriptor} {nodes : List Value}
    (renders : List.Forall₂ (Renders drawn) (Descriptor.nonNull members) nodes)
    (means : ∀ member ∈ Descriptor.nonNull members, ∀ node, Renders drawn member node →
      Means definitions store member node value) :
    Means definitions store (.union members) (unionNode (Descriptor.nilable members) nodes)
      value := by
  have compiledNodes : ∀ id node, drawn id node → IsCompiled node :=
    fun id node holds => (standing id node holds).1
  have compiled : ∀ node ∈ nodes, IsCompiled node := fun node isNode => by
    obtain ⟨member, -, renders⟩ := exists_left_of_mem renders isNode
    exact renders.isCompiled compiledNodes
  constructor
  · intro valid
    rcases (validates_unionNode compiled _).mp valid with
      ⟨node, isNode, valid⟩ | ⟨rfl, empty | ⟨nilable, -⟩⟩
    · obtain ⟨member, isMember, renders⟩ := exists_left_of_mem renders isNode
      exact .member isMember ((means member isMember node renders).sound valid)
    · subst empty
      exact .nil (.inr (List.forall₂_nil_right_iff.mp renders))
    · exact .nil (.inl nilable)
  · intro unwidened admits
    rw [validates_unionNode compiled]
    cases admits with
    | member isMember admits =>
        obtain ⟨node, isNode, renders⟩ := exists_right_of_mem renders isMember
        exact .inl ⟨node, isNode, (means _ isMember node renders).complete
          (unwidened.of_part (.member (List.mem_of_mem_filter isMember))) admits⟩
    | nil isNil =>
        rcases isNil with nilable | empty
        · refine .inr ⟨rfl, .inr ⟨nilable, fun node sole => ?_⟩⟩
          subst sole
          obtain ⟨member, rest, renders', none, isSole⟩ := List.forall₂_cons_right_iff.mp renders
          obtain rfl := List.forall₂_nil_right_iff.mp none
          have plain := unwidened.here.position
          rw [Descriptor.widenedEnum?_union_of_nilable nilable, isSole] at plain
          exact (renders'.stance standing).not_shutsNullOut (renders'.isCompiled compiledNodes) plain
        · rw [empty] at renders
          exact .inr ⟨rfl, .inl (List.forall₂_nil_left_iff.mp renders)⟩

/-- The node of a fixed record means what the record does where the nodes of its fields do. -/
theorem means_fixed (standing : ∀ id node, drawn id node → IsCompiled node ∧ IsSilent node)
    {record : FixedRecord}
    (renders : List.Forall₂ (RendersField drawn) record.fields compiled)
    (distinct : (record.fields.map (·.name)).Nodup)
    (means : ∀ field ∈ record.fields, ∀ name part, value.get? name = some part → ∀ node,
      Renders drawn field.type node → Means definitions store field.type node part) :
    Means definitions store (.fixed record)
      (recordNode record.name record.description (record.fields.map (·.name)) compiled) value := by
  have sameNames := map_fst_of_renders renders
  have free := typeKey_not_mem_of_renders renders
  have compiledNodes : ∀ id node, drawn id node → IsCompiled node :=
    fun id node holds => (standing id node holds).1
  rw [← sameNames]
  constructor
  · intro valid
    rw [validates_recordNode _ _ (sameNames ▸ distinct) free, sameNames] at valid
    obtain ⟨isObject, tagged, complete, closed, valid⟩ := valid
    exact .fixed isObject tagged
      (fun field isField => complete field.name (List.mem_map_of_mem isField)) closed
      (fields_sound compiledNodes renders distinct means valid)
  · intro unwidened admits
    rw [validates_recordNode _ _ (sameNames ▸ distinct) free, sameNames]
    cases admits with
    | fixed isObject tagged complete closed each =>
        refine ⟨isObject, tagged, ?_, closed, ?_⟩
        · intro name isName
          obtain ⟨field, isField, rfl⟩ := List.mem_map.mp isName
          exact complete field isField
        · exact fields_complete standing renders means unwidened.here.fields
            (fun field isField => unwidened.of_part (.field isField)) each

/-- The body of a struct means what the struct does where the nodes of its fields do. -/
theorem means_struct (options : Options)
    (standing : ∀ id node, drawn id node → IsCompiled node ∧ IsSilent node) {id : StructId}
    (renders : List.Forall₂ (RendersField drawn) (store.at id).fields compiled)
    (distinct : ((store.at id).fields.map (·.name)).Nodup)
    (means : ∀ field ∈ (store.at id).fields, ∀ name part, value.get? name = some part → ∀ node,
      Renders drawn field.type node → Means definitions store field.type node part) :
    Means definitions store (.struct id) (structNode options (store.at id) compiled) value := by
  have sameNames := map_fst_of_renders renders
  have free := typeKey_not_mem_of_renders renders
  have compiledNodes : ∀ id node, drawn id node → IsCompiled node :=
    fun id node holds => (standing id node holds).1
  constructor
  · intro valid
    rw [validates_structNode options _ (sameNames ▸ distinct) free] at valid
    obtain ⟨tagged, complete, valid⟩ := valid
    refine .struct tagged (fun field isField required => complete field.name ?_)
      (fields_sound compiledNodes renders distinct means valid)
    exact mem_requiredNames.mpr ⟨field, isField, required, rfl⟩
  · intro unwidened admits
    rw [validates_structNode options _ (sameNames ▸ distinct) free]
    cases admits with
    | struct tagged complete each =>
        refine ⟨tagged, ?_, ?_⟩
        · intro name isRequired
          obtain ⟨field, isField, required, rfl⟩ := mem_requiredNames.mp isRequired
          exact complete field isField required
        · exact fields_complete standing renders means unwidened.here.fields
            (fun field isField => unwidened.of_part (.field isField)) each

end Values

/-- In a consistent table the nodes of a descriptor say of a value what the descriptor says, if they
do so of all smaller values. The induction is on the descriptor; a struct's body speaks only of the
parts of the value. -/
theorem means_of_smaller (consistent : Consistent options store [] pass) {value : Value}
    (smaller : ∀ part : Value, sizeOf part < sizeOf value → ∀ descriptor node,
      Descriptor.Throughout store (Descriptor.Regular store) descriptor →
        Renders (StandsFor options store pass) descriptor node →
          Means (pass.targets options) store descriptor node part)
    (descriptor : Descriptor) (node : Value)
    (regular : Descriptor.Throughout store (Descriptor.Regular store) descriptor)
    (renders : Renders (StandsFor options store pass) descriptor node) :
    Means (pass.targets options) store descriptor node value := by
  have standing := StandsFor.standing consistent
  induction descriptor using Descriptor.induction generalizing node with
  | scalar kind =>
      simp only [Renders] at renders
      exact renders ▸ means_scalar kind
  | enum type =>
      simp only [Renders] at renders
      exact renders ▸ means_enum (regular.here.texts type rfl)
  | array element =>
      simp only [Renders] at renders
      obtain ⟨inner, renders, rfl⟩ := renders
      apply means_array
      rintro items rfl item isItem
      exact smaller item (Value.sizeOf_lt_of_mem_list isItem) element inner
        (regular.of_part (.element element)) renders
  | map key element =>
      simp only [Renders] at renders
      obtain ⟨keyNode, inner, -, renders, rfl⟩ := renders
      exact means_map fun name part found => smaller part (Value.sizeOf_lt_of_get? found) element inner
        (regular.of_part (.value key element)) renders
  | optional inner ih =>
      simp only [Renders] at renders
      obtain ⟨innerNode, renders, rfl⟩ := renders
      exact means_optional standing renders (ih innerNode (regular.of_part (.inner inner)) renders)
  | union members ih =>
      simp only [Renders, rendersMembers_iff] at renders
      obtain ⟨nodes, renders, rfl⟩ := renders
      exact means_union standing renders fun member isMember node renders =>
        ih member (List.mem_of_mem_filter isMember) node
          (regular.of_part (.member (List.mem_of_mem_filter isMember))) renders
  | null =>
      simp only [Renders] at renders
      exact renders ▸ means_null
  | fixed record =>
      simp only [Renders, rendersFields_iff] at renders
      obtain ⟨compiled, renders, rfl⟩ := renders
      exact means_fixed standing renders regular.here.distinct
        fun field isField name part found node renders =>
          smaller part (Value.sizeOf_lt_of_get? found) field.type node
            (regular.of_part (.field isField)) renders
  | struct id =>
      simp only [Renders] at renders
      obtain ⟨fields, renders, sameBody⟩ := exists_body consistent renders
      have means := means_struct options standing ((rendersFields_iff _ _).mp renders)
        regular.here.distinct fun field isField name part found node renders =>
          smaller part (Value.sizeOf_lt_of_get? found) field.type node
            (regular.of_part (.field isField)) renders
      exact ⟨fun valid => means.sound ((sameBody value).mp valid),
        fun unwidened admits => (sameBody value).mpr (means.complete unwidened admits)⟩
  | stray held => simp only [Renders] at renders

/-- In a consistent table the nodes of a descriptor mean what the descriptor does. -/
theorem means_of_renders (consistent : Consistent options store [] pass) (value : Value)
    (descriptor : Descriptor) (node : Value)
    (regular : Descriptor.Throughout store (Descriptor.Regular store) descriptor)
    (renders : Renders (StandsFor options store pass) descriptor node) :
    Means (pass.targets options) store descriptor node value := by
  induction size : sizeOf value using Nat.strongRecOn generalizing value descriptor node with
  | ind _ ih =>
      subst size
      exact means_of_smaller consistent
        (fun part smaller descriptor node regular renders =>
          ih _ smaller part descriptor node regular renders rfl)
        descriptor node regular renders

/-- The schema of a fresh pass with its definitions means what the descriptor does. -/
theorem means_of_compile {target : Descriptor} {compiled : Compiled}
    (compiles : compile options store target = .ok compiled)
    (regular : Descriptor.Throughout store (Descriptor.Regular store) target) (value : Value) :
    Means compiled.targets store target compiled.schema value := by
  obtain ⟨pass, consistent, renders, targets⟩ := compile_cases compiles
  rw [targets]
  exact means_of_renders consistent value target compiled.schema regular renders

end Compile

/-- Compiling keeps the meaning of a descriptor, cycles among its structs included: the schema with
its definitions admits a value exactly if the descriptor does. -/
theorem admits_compiled_iff {options : Options} {store : Store} {target : Descriptor}
    {compiled : Compiled} (compiles : compile options store target = .ok compiled)
    (regular : Descriptor.Throughout store (Descriptor.Regular store) target)
    (unwidened : Descriptor.Throughout store (Descriptor.Unwidened store) target) (value : Value) :
    compiled.Admits value ↔ target.Admits store value :=
  have means := Compile.means_of_compile compiles regular value
  ⟨means.sound, means.complete unwidened⟩

/-- A struct of linked numbers: each may be followed by another. -/
def linkedNumbers : Store :=
  [⟨"Link", none, [⟨"number", .scalar .int, true, none, none⟩,
    ⟨"next", .optional (.struct 0), false, none, none⟩], none⟩]

def Descriptor.IsLinked (descriptor : Descriptor) : Prop :=
  descriptor = .struct 0 ∨ descriptor = .scalar .int ∨ descriptor = .optional (.struct 0)

theorem Descriptor.IsLinked.part {descriptor part : Descriptor} (linked : descriptor.IsLinked)
    (isPart : Part linkedNumbers descriptor part) : part.IsLinked := by
  rw [part_iff_mem_parts] at isPart
  rcases linked with rfl | rfl | rfl <;>
    simp_all [IsLinked, linkedNumbers, parts, Descriptor.fields, Store.at, or_comm]

theorem Descriptor.IsLinked.regular {descriptor : Descriptor} (linked : descriptor.IsLinked) :
    descriptor.Regular linkedNumbers := by
  rcases linked with rfl | rfl | rfl <;> exact ⟨by decide, by rintro type ⟨⟩⟩

theorem Descriptor.IsLinked.unwidened {descriptor : Descriptor} (linked : descriptor.IsLinked) :
    descriptor.Unwidened linkedNumbers := by
  rcases linked with rfl | rfl | rfl <;> exact ⟨rfl, by decide⟩

/-- A link to a number, followed by the entries of further fields. -/
def linkTo (number : Int) (more : Fields) : Value :=
  .ofFields ([("_type", .str "Link"), ("number", .int number)] ++ more)

theorem admits_linkTo (number : Int) {more : Fields}
    (next : ∀ part, more.get? "next" = some part → part = .null ∨
      (Descriptor.struct 0).Admits linkedNumbers part) :
    (Descriptor.struct 0).Admits linkedNumbers (linkTo number more) := by
  refine .struct (by simp [linkTo, Fields.get?_cons, typeKey, Store.at, linkedNumbers]) ?_ ?_
  · intro field isField required
    rcases List.mem_pair.mp isField with rfl | rfl
    · simp [linkTo, Fields.get?_cons]
    · cases required
  · intro field isField part found notNull
    rcases List.mem_pair.mp isField with rfl | rfl
    · obtain rfl : Value.int number = part := by simpa [linkTo, Fields.get?_cons] using found
      exact .scalar rfl
    · have isNext : more.get? "next" = some part := by simpa [linkTo, Fields.get?_cons] using found
      rcases next part isNext with rfl | admits
      · exact .absent
      · exact .present admits

def twoLinks : Value := linkTo 1 [("next", linkTo 2 [])]

theorem admits_twoLinks : (Descriptor.struct 0).Admits linkedNumbers twoLinks := by
  refine admits_linkTo 1 fun part isNext => .inr ?_
  obtain rfl : linkTo 2 [] = part := by simpa [Fields.get?_cons] using isNext
  exact admits_linkTo 2 fun part isNext => by simp at isNext

theorem linkedNumbers_throughout {condition : Descriptor → Prop}
    (holds : ∀ descriptor, Descriptor.IsLinked descriptor → condition descriptor) :
    Descriptor.Throughout linkedNumbers condition (.struct 0) :=
  .of_closed (fun _ _ => Descriptor.IsLinked.part) holds (.inl rfl)

/-- The schema of linked numbers admits a link that is followed by another, and refuses null. -/
theorem linkedNumbers_admitted :
    ∃ compiled, compile Options.defaults linkedNumbers (.struct 0) = .ok compiled ∧
      Descriptor.Throughout linkedNumbers (Descriptor.Regular linkedNumbers) (.struct 0) ∧
      Descriptor.Throughout linkedNumbers (Descriptor.Unwidened linkedNumbers) (.struct 0) ∧
      compiled.Admits twoLinks ∧ ¬compiled.Admits .null := by
  have regular := linkedNumbers_throughout fun _ => Descriptor.IsLinked.regular
  have unwidened := linkedNumbers_throughout fun _ => Descriptor.IsLinked.unwidened
  refine ⟨_, rfl, regular, unwidened, ?_, ?_⟩
  · exact (admits_compiled_iff rfl regular unwidened twoLinks).mpr admits_twoLinks
  · rw [admits_compiled_iff rfl regular unwidened]
    intro admits
    cases admits with
    | struct tagged => cases tagged

end TypedReply
