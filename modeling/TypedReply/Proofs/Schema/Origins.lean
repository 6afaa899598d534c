import TypedReply.Proofs.Schema.Definitions
import TypedReply.Proofs.Schema.Grammar

/-!
# Where nodes come from

The nodes of a compiled schema can be traced back to descriptors: properties to the fields of a
record, items to an element, alternatives to members, and a reference to a struct. Widening by null
and describing a node do not change what it is traced back to.
-/

namespace TypedReply

namespace Compile

variable {options : Options} {store : Store} {drawn : StructId → Value → Prop}
variable {known : Descriptor → Prop} {node : Value}

/-- The properties of the node of a record: a tag, if it has a name, and the nodes of its fields. -/
def propertiesOf (name : Option String) (nodes : Fields) : Value :=
  Fields.node (Fields.putAll (name.toList.map fun name => (typeKey, tagNode name)) nodes)

/-- What stands in a node is traced back to descriptors among those that are known. A record has
nothing but properties, and it is open exactly if it is a struct. -/
structure StemsFrom (options : Options) (store : Store) (drawn : StructId → Value → Prop)
    (known : Descriptor → Prop) (node : Value) : Prop where
  properties : ∀ table, node.get? "properties" = some table → ∃ descriptor record nodes,
    known descriptor ∧ descriptor.record? store = some record ∧
      List.Forall₂ (RendersField drawn) record.fields nodes ∧
      table = propertiesOf record.name nodes ∧
      (node.get? "additionalProperties" = none ↔ ∃ id, descriptor = .struct id)
  items : ∀ inner, node.get? "items" = some inner → ∃ element, known element ∧
    Renders drawn element inner
  members : ∀ members, node.get? "anyOf" = some (.list members) → ∀ member ∈ members,
    saysNull member = false → ∃ part, known part ∧ Renders drawn part member
  reference : ∀ value, node.get? "$ref" = some value → ∃ id, known (.struct id) ∧
    value = .str (options.refPrefix ++ (store.at id).name)
  alone : (node.get? "properties").isSome = true →
    node.get? "items" = none ∧ node.get? "anyOf" = none ∧ node.get? "$ref" = none

namespace StemsFrom

/-- A node in which nothing stands. -/
theorem leaf (noProperties : node.get? "properties" = none) (noItems : node.get? "items" = none)
    (noMembers : node.get? "anyOf" = none) (noReference : node.get? "$ref" = none) :
    StemsFrom options store drawn known node := by
  constructor <;> simp [noProperties, noItems, noMembers, noReference]

/-- A node in which the same stands is traced back to the same. -/
theorem reworded {other : Value} (stems : StemsFrom options store drawn known node)
    (same : ∀ name ∈ ["properties", "additionalProperties", "items", "anyOf", "$ref"],
      other.get? name = node.get? name) : StemsFrom options store drawn known other := by
  have properties := same "properties" (by simp)
  have additional := same "additionalProperties" (by simp)
  have items := same "items" (by simp)
  have members := same "anyOf" (by simp)
  have reference := same "$ref" (by simp)
  constructor
  · rw [properties, additional]
    exact stems.properties
  · rw [items]
    exact stems.items
  · rw [members]
    exact stems.members
  · rw [reference]
    exact stems.reference
  · rw [properties, items, members, reference]
    exact stems.alone

/-- A record's node declares its properties and nothing else. -/
theorem declaring {descriptor : Descriptor} {record : RecordView} {nodes : Fields}
    (isKnown : known descriptor) (isRecord : descriptor.record? store = some record)
    (renders : List.Forall₂ (RendersField drawn) record.fields nodes)
    (declares : node.get? "properties" = some (propertiesOf record.name nodes))
    (isOpen : node.get? "additionalProperties" = none ↔ ∃ id, descriptor = .struct id)
    (noItems : node.get? "items" = none) (noMembers : node.get? "anyOf" = none)
    (noReference : node.get? "$ref" = none) : StemsFrom options store drawn known node where
  properties table found :=
    ⟨descriptor, record, nodes, isKnown, isRecord, renders,
      Option.some.inj (found.symm.trans declares), isOpen⟩
  items := by simp [noItems]
  members := by simp [noMembers]
  reference := by simp [noReference]
  alone _ := ⟨noItems, noMembers, noReference⟩

/-- Alternatives stand side by side in a node. -/
theorem alternatives {members : List Value}
    (each : ∀ member ∈ members, saysNull member = false →
      ∃ part, known part ∧ Renders drawn part member) :
    StemsFrom options store drawn known (Fields.node [("anyOf", .list members)]) := by
  constructor <;> simp only [Fields.get?_node, Fields.get?_cons]
  case members =>
    intro found isFound
    cases isFound
    exact each
  all_goals simp

/-- Widening a node by null makes an alternative of it at most. -/
theorem nullable {descriptor : Descriptor} (isCompiled : IsCompiled node)
    (stems : StemsFrom options store drawn known node) (isKnown : known descriptor)
    (renders : Renders drawn descriptor node) :
    StemsFrom options store drawn known (Compile.nullable node) := by
  obtain ⟨fields, rfl⟩ := isCompiled.named
  by_cases single : ∃ name, fields.get? "type" = some (.str name)
  · obtain ⟨name, single⟩ := single
    rw [nullable_of_single single]
    refine stems.reworded fun keyword isKeyword => ?_
    have other : keyword ≠ "type" := by
      rintro rfl
      simp at isKeyword
    simp [Fields.get?_cons, Fields.get?_filter_ne, other]
  · rw [nullable_of_other fun name typed => single ⟨name, by simpa using typed⟩]
    apply alternatives
    simp only [List.forall_mem_cons]
    refine ⟨fun _ => ⟨descriptor, isKnown, renders⟩, fun notNull => ?_, List.forall_mem_nil _⟩
    cases notNull

/-- The node of a union holds those of its members. -/
theorem union {nodes : List Value} (nilable : Bool)
    (each : ∀ node ∈ nodes, IsCompiled node ∧ StemsFrom options store drawn known node ∧
      ∃ part, known part ∧ Renders drawn part node) :
    StemsFrom options store drawn known (unionNode nilable nodes) := by
  match nodes with
  | [] => apply leaf <;> rfl
  | [single] =>
      obtain ⟨isCompiled, stems, part, isKnown, renders⟩ := each single List.mem_cons_self
      cases nilable with
      | false => exact stems
      | true => exact stems.nullable isCompiled isKnown renders
  | first :: second :: rest =>
      apply alternatives
      intro member isMember notNull
      rcases List.mem_append.mp isMember with isNode | isNull
      · exact (each member isNode).2.2
      · cases nilable with
        | false => cases isNull
        | true =>
            obtain rfl := List.mem_singleton.mp isNull
            cases notNull

/-- The node of a field is that of its type, widened and described at most. -/
theorem field {descriptor : Descriptor} (isCompiled : IsCompiled node)
    (stems : StemsFrom options store drawn known node) (isKnown : known descriptor)
    (renders : Renders drawn descriptor node) (required : Bool) (description : Option String) :
    StemsFrom options store drawn known (fieldNode required description node) := by
  obtain ⟨fields, widened, described⟩ := exists_fieldNode isCompiled required description
  have undescribed : StemsFrom options store drawn known (Fields.node fields) := by
    rw [widened]
    split
    · exact stems.nullable isCompiled isKnown renders
    · exact stems
  rcases described with plain | ⟨text, described⟩
  · exact plain ▸ undescribed
  · rw [described]
    refine undescribed.reworded fun keyword isKeyword => ?_
    have other : keyword ≠ "description" := by
      rintro rfl
      simp at isKeyword
    simp [Fields.get?_put, other]

end StemsFrom

/-- A node that stands for a struct is a reference to it or its body. -/
structure DrawsBodies (options : Options) (store : Store) (drawn : StructId → Value → Prop) :
    Prop where
  compiled : ∀ id node, drawn id node → IsCompiled node
  bodies : ∀ id node, drawn id node → node = refNode options (store.at id).name ∨
    ∃ nodes, List.Forall₂ (RendersField drawn) (store.at id).fields nodes ∧
      node = structNode options (store.at id) nodes

/-- What follows a descriptor is traced back to what the descriptor is made of. -/
theorem stemsFrom_of_renders (draws : DrawsBodies options store drawn)
    (closed : ∀ {descriptor part}, known descriptor → Descriptor.Part store descriptor part →
      known part) {descriptor : Descriptor} (isKnown : known descriptor)
    (renders : Renders drawn descriptor node) : StemsFrom options store drawn known node := by
  induction descriptor using Descriptor.induction generalizing node with
  | scalar kind =>
      simp only [Renders] at renders
      subst renders
      apply StemsFrom.leaf <;> cases kind <;> rfl
  | enum type =>
      simp only [Renders] at renders
      obtain ⟨kinds, choices, isNode⟩ := exists_enumNode type
      rw [renders, isNode]
      apply StemsFrom.leaf <;> rfl
  | array element ih =>
      simp only [Renders] at renders
      obtain ⟨inner, renders, rfl⟩ := renders
      constructor <;> simp [Fields.get?_cons]
      exact ⟨element, closed isKnown (.element _), renders⟩
  | map key value =>
      simp only [Renders] at renders
      obtain ⟨keyNode, valueNode, -, -, rfl⟩ := renders
      apply StemsFrom.leaf <;> rfl
  | optional inner ih =>
      simp only [Renders] at renders
      obtain ⟨innerNode, renders, rfl⟩ := renders
      have isKnown := closed isKnown (.inner _)
      exact (ih isKnown renders).nullable (renders.isCompiled draws.compiled) isKnown renders
  | union members ih =>
      simp only [Renders, rendersMembers_iff] at renders
      obtain ⟨nodes, renders, rfl⟩ := renders
      refine StemsFrom.union _ fun node isNode => ?_
      obtain ⟨member, isMember, renders⟩ := exists_left_of_mem renders isNode
      have isMember := List.mem_of_mem_filter isMember
      have isKnown := closed isKnown (.member isMember)
      exact ⟨renders.isCompiled draws.compiled, ih member isMember isKnown renders,
        member, isKnown, renders⟩
  | null =>
      simp only [Renders] at renders
      subst renders
      apply StemsFrom.leaf <;> rfl
  | fixed record =>
      simp only [Renders, rendersFields_iff] at renders
      obtain ⟨nodes, renders, rfl⟩ := renders
      apply StemsFrom.declaring isKnown rfl renders
      · unfold recordNode propertiesOf
        cases nonEmpty record.description <;> cases name : record.name <;>
          simp [Fields.get?_cons, FixedRecord.view, name]
      · unfold recordNode
        cases nonEmpty record.description <;> simp [Fields.get?_cons]
      all_goals
        unfold recordNode
        cases nonEmpty record.description <;> simp [Fields.get?_cons]
  | struct id =>
      simp only [Renders] at renders
      rcases draws.bodies id node renders with rfl | ⟨nodes, follows, rfl⟩
      · constructor <;> simp [Fields.get?_cons, refNode]
        exact ⟨id, isKnown, rfl⟩
      · apply StemsFrom.declaring isKnown rfl follows
        all_goals
          unfold structNode
          cases options.structDescriptions <;> simp [Fields.get?_cons, propertiesOf, Struct.view]
  | stray value => simp only [Renders] at renders

end Compile

end TypedReply
