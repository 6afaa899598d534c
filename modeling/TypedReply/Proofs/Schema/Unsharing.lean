import TypedReply.Proofs.Schema.Definitions
import TypedReply.Proofs.Schema.Twins

/-!
# Unsharing

Where no struct reaches itself, every struct can be written out wherever it stands, and nothing is
left to refer to. Shaping writes structs out too, by expanding references. The two come to the same:
a schema with shared structs has the shape of the schema in which none is shared, apart from the
descriptions that the place of a struct gives it.
-/

namespace TypedReply

namespace Compile

variable {options : Options} {store : Store} {drawn : StructId → Value → Prop}

/-- The node of a struct with every struct in it written out, down to some depth below which anything
may happen. -/
def unshared (options : Options) (store : Store) (bottom : StructId → Outcome Value) :
    Nat → StructId → Outcome Value
  | 0, id => bottom id
  | depth + 1, id => do
    let found := store.at id
    let fields ← fieldNodes (unshared options store bottom depth) found.name found.fields
    return structNode options found fields

/-- A node is that of a struct with every struct in it written out, and is not as deep as to reach the
bottom. -/
def WritesOut (options : Options) (store : Store) (depth : Nat) (id : StructId) (node : Value) :
    Prop :=
  ∀ bottom, unshared options store bottom depth id = .ok node

/-! ## Nodes from what they follow -/

section Renders

variable {expand : StructId → Outcome Value}

theorem memberNodes_of_renders {members : List Descriptor} {nodes : List Value}
    (each : ∀ member ∈ members, ∀ result, Renders drawn member result →
      node expand member = .ok result)
    (renders : RendersMembers drawn members nodes) : memberNodes expand members = .ok nodes := by
  induction members generalizing nodes with
  | nil =>
      rw [RendersMembers] at renders
      rw [renders, memberNodes]
      rfl
  | cons member members ih =>
      have later := fun nodes => @ih nodes fun other isOther =>
        each other (List.mem_cons_of_mem _ isOther)
      cases isNull : member.isNull with
      | true =>
          obtain rfl := Descriptor.eq_null_of_isNull isNull
          rw [memberNodes]
          exact later nodes (by simpa [RendersMembers, isNull] using renders)
      | false =>
          simp only [RendersMembers, isNull] at renders
          obtain ⟨first, rest, renders, follows, rfl⟩ := renders
          rw [memberNodes_cons expand isNull]
          refine bind_eq_ok_iff.mpr ⟨first, each member List.mem_cons_self first renders, ?_⟩
          exact bind_eq_ok_iff.mpr ⟨rest, later rest follows, rfl⟩

theorem fieldNodes_of_renders (owner : String) {fields : List Field} {nodes : Fields}
    (each : ∀ field ∈ fields, ∀ result, Renders drawn field.type result →
      node expand field.type = .ok result)
    (renders : RendersFields drawn fields nodes) : fieldNodes expand owner fields = .ok nodes := by
  induction fields generalizing nodes with
  | nil =>
      rw [RendersFields] at renders
      rw [renders, fieldNodes]
      rfl
  | cons field fields ih =>
      obtain ⟨name, type, required, description, default⟩ := field
      rw [RendersFields] at renders
      obtain ⟨inner, rest, free, renders, follows, rfl⟩ := renders
      simp only [fieldNodes, free, if_false]
      refine bind_eq_ok_iff.mpr ⟨inner, each _ List.mem_cons_self inner renders, ?_⟩
      refine bind_eq_ok_iff.mpr ⟨rest, ?_, rfl⟩
      exact ih (fun other isOther => each other (List.mem_cons_of_mem _ isOther)) follows

/-- A node that follows a descriptor is the node of the descriptor, where structs expand to what stands
for them. -/
theorem node_of_renders (draws : ∀ id result, drawn id result → expand id = .ok result)
    {descriptor : Descriptor} {result : Value} (renders : Renders drawn descriptor result) :
    node expand descriptor = .ok result := by
  induction descriptor using Descriptor.induction generalizing result with
  | array element ih =>
      simp only [Renders] at renders
      obtain ⟨inner, renders, rfl⟩ := renders
      exact bind_eq_ok_iff.mpr ⟨inner, ih renders, rfl⟩
  | map key value keyIH valueIH =>
      simp only [Renders] at renders
      obtain ⟨keyNode, valueNode, keyRenders, valueRenders, rfl⟩ := renders
      refine bind_eq_ok_iff.mpr ⟨keyNode, keyIH keyRenders, ?_⟩
      exact bind_eq_ok_iff.mpr ⟨valueNode, valueIH valueRenders, rfl⟩
  | optional inner ih =>
      simp only [Renders] at renders
      obtain ⟨innerNode, renders, rfl⟩ := renders
      exact bind_eq_ok_iff.mpr ⟨innerNode, ih renders, rfl⟩
  | union members ih =>
      simp only [Renders] at renders
      obtain ⟨nodes, renders, rfl⟩ := renders
      exact bind_eq_ok_iff.mpr ⟨nodes, memberNodes_of_renders
        (fun member isMember _ => ih member isMember) renders, rfl⟩
  | fixed record ih =>
      simp only [Renders] at renders
      obtain ⟨nodes, renders, rfl⟩ := renders
      exact bind_eq_ok_iff.mpr ⟨nodes, fieldNodes_of_renders _
        (fun field isField _ => ih field isField) renders, rfl⟩
  | struct id =>
      simp only [Renders] at renders
      rw [node]
      exact draws id result renders
  | stray value => simp only [Renders] at renders
  | _ =>
      simp only [Renders] at renders
      rw [renders, node]
      rfl

end Renders

theorem writesOut_succ {depth : Nat} {id : StructId} {nodes : Fields}
    (renders : List.Forall₂ (RendersField (WritesOut options store depth)) (store.at id).fields
      nodes) :
    WritesOut options store (depth + 1) id (structNode options (store.at id) nodes) := by
  intro bottom
  refine bind_eq_ok_iff.mpr ⟨nodes, ?_, rfl⟩
  refine fieldNodes_of_renders _ (fun field _ result => node_of_renders ?_)
    ((rendersFields_iff _ _).mpr renders)
  exact fun id result writes => writes bottom

end Compile

namespace Gemini

open Compile

/-! ## Tags -/

theorem tagOf_declaring {properties rest : Fields} {kinds : Value} :
    tagOf (Fields.node (("type", kinds) :: ("properties", Fields.node properties) :: rest)) =
      ((properties.get? typeKey).bind (·.get? "const")).bind Value.text? := by
  simp [tagOf, Fields.get?_cons]

theorem tagOf_structNode (options : Options) (struct : Struct) {nodes : Fields}
    (free : typeKey ∉ nodes.map Prod.fst) :
    tagOf (structNode options struct nodes) = some struct.name := by
  refine tagOf_declaring.trans ?_
  rw [Fields.get?_putAll_of_not_mem free]
  simp [Fields.get?_cons, tagNode, Value.text?]

theorem tagOf_recordNode (name description : Option String) (names : List String) {nodes : Fields}
    (free : typeKey ∉ nodes.map Prod.fst) :
    tagOf (recordNode name description names nodes) = name := by
  refine tagOf_declaring.trans ?_
  rw [Fields.get?_putAll_of_not_mem free]
  cases name <;> simp [Fields.get?_cons, tagNode, Value.text?]

theorem tagOf_of_nullable {node : Value} (isCompiled : IsCompiled node) {name : String}
    (isTag : tagOf (nullable node) = some name) : tagOf node = some name := by
  obtain ⟨fields, rfl⟩ := isCompiled.named
  by_cases single : ∃ name, fields.get? "type" = some (.str name)
  · obtain ⟨type, single⟩ := single
    rw [nullable_of_single single] at isTag
    simpa [tagOf, Fields.get?_cons, Fields.get?_filter_ne] using isTag
  · rw [nullable_of_other fun name typed => single ⟨name, by simpa using typed⟩] at isTag
    simp [tagOf, Fields.get?_cons] at isTag

theorem tagOf_of_unionNode {nodes : List Value} (compiled : ∀ node ∈ nodes, IsCompiled node)
    {nilable : Bool} {name : String} (isTag : tagOf (unionNode nilable nodes) = some name) :
    ∀ node ∈ nodes, tagOf node = some name := by
  match nodes with
  | [] => exact fun _ isNode => nomatch isNode
  | [single] =>
      rw [List.forall_mem_singleton]
      cases nilable with
      | false => exact isTag
      | true => exact tagOf_of_nullable (compiled single List.mem_cons_self) isTag
  | first :: second :: rest => simp [unionNode, tagOf, Fields.get?_cons] at isTag

/-! ## Writing out and expanding -/

/-- What is asked of a pass for its structs to be written out: no struct reaches itself, and no name is
taken for another. -/
structure IsUnfoldable (options : Options) (store : Store) (target : Descriptor) (pass : Pass) :
    Prop where
  consistent : Consistent options store [] pass
  met : Met store target pass
  distinct : (pass.definitions.map Prod.fst).Nodup
  schemas : ∀ name node, pass.definitions.get? name = some node →
    IsSchema ["properties"] IsTextual node
  acyclic : ∀ id, Descriptor.Reaches store target (.struct id) →
    ¬Relation.TransGen (Descriptor.Part store) (.struct id) (.struct id)
  whole : ∀ id, Descriptor.Reaches store target (.struct id) →
    refName (store.at id).name = (store.at id).name
  apart : ∀ record id, Descriptor.Reaches store target (.fixed record) →
    Descriptor.Reaches store target (.struct id) → record.name ≠ some (store.at id).name

/-- A descriptor stands inside the structs of some names, and is written out to a depth that suffices
for all names that are left. -/
structure IsInside (store : Store) (target : Descriptor) (pass : Pass) (visited : List String)
    (depth : Nat) (descriptor : Descriptor) : Prop where
  reached : Descriptor.Reaches store target descriptor
  above : ∀ name ∈ visited, ∃ id, pass.structs.lookup name = some id ∧
    Relation.TransGen (Descriptor.Part store) (.struct id) descriptor
  distinct : visited.Nodup
  named : visited ⊆ "" :: store.map (·.name)
  enough : visited.length + depth = store.length + 2

/-- A node is shaped while the definitions of some names are expanded, all of them around the node but
for the one that the node itself may be. -/
structure IsExpanding (pass : Pass) (visited expanding : List String) (fuel : Nat) (node : Value) :
    Prop where
  distinct : expanding.Nodup
  defined : expanding ⊆ pass.definitions.map Prod.fst
  enough : pass.definitions.length < expanding.length + fuel
  around : ∀ name ∈ expanding, name ∈ visited ∨ tagOf node = some name

variable {options : Options} {store : Store} {target : Descriptor} {pass : Pass}
variable {visited expanding : List String} {depth fuel : Nat} {descriptor inner : Descriptor}

theorem IsInside.part (inside : IsInside store target pass visited depth descriptor)
    (isPart : Descriptor.Part store descriptor inner) :
    IsInside store target pass visited depth inner where
  reached := inside.reached.tail isPart
  above name isVisited := by
    obtain ⟨id, known, leads⟩ := inside.above name isVisited
    exact ⟨id, known, leads.tail isPart⟩
  distinct := inside.distinct
  named := inside.named
  enough := inside.enough

/-- A struct is not inside of a struct of its name. -/
theorem IsInside.not_mem {id : StructId} (unfoldable : IsUnfoldable options store target pass)
    (inside : IsInside store target pass visited depth (.struct id))
    (known : pass.structs.lookup (store.at id).name = some id) : (store.at id).name ∉ visited := by
  intro isVisited
  obtain ⟨other, isOther, leads⟩ := inside.above _ isVisited
  obtain rfl : other = id := Option.some.inj (isOther.symm.trans known)
  exact unfoldable.acyclic other inside.reached leads

/-- The fields of a struct are inside of it. -/
theorem IsInside.field {id : StructId} {field : Field}
    (inside : IsInside store target pass visited (depth + 1) (.struct id))
    (known : pass.structs.lookup (store.at id).name = some id)
    (notVisited : (store.at id).name ∉ visited) (isField : field ∈ (store.at id).fields) :
    IsInside store target pass ((store.at id).name :: visited) depth field.type where
  reached := inside.reached.tail (.field isField)
  above name isVisited := by
    rcases List.mem_cons.mp isVisited with rfl | isVisited
    · exact ⟨id, known, .single (.field isField)⟩
    · obtain ⟨other, isOther, leads⟩ := inside.above name isVisited
      exact ⟨other, isOther, leads.tail (.field isField)⟩
  distinct := List.nodup_cons.mpr ⟨notVisited, inside.distinct⟩
  named := List.cons_subset.mpr ⟨store.name_at_mem id, inside.named⟩
  enough := by
    have enough := inside.enough
    simp only [List.length_cons]
    omega

/-- Going on to a node in another keeps what is expanded around it. -/
theorem IsExpanding.part {node inner : Value}
    (isExpanding : IsExpanding pass visited expanding fuel node)
    (tag : ∀ name ∈ expanding, tagOf node = some name → tagOf inner = some name) :
    IsExpanding pass visited expanding fuel inner :=
  ⟨isExpanding.distinct, isExpanding.defined, isExpanding.enough, fun name isExpanded =>
    (isExpanding.around name isExpanded).imp_right (tag name isExpanded)⟩

theorem IsExpanding.exists_fuel {node : Value}
    (isExpanding : IsExpanding pass visited expanding fuel node) {name : String}
    (isDefined : name ∈ pass.definitions.map Prod.fst) (notExpanding : name ∉ expanding) :
    ∃ less, fuel = less + 1 ∧ pass.definitions.length < (name :: expanding).length + less := by
  have few := ((List.nodup_cons.mpr ⟨notExpanding, isExpanding.distinct⟩).subperm
    (List.cons_subset.mpr ⟨isDefined, isExpanding.defined⟩)).length_le
  have enough := isExpanding.enough
  simp only [List.length_cons, List.length_map] at few ⊢
  exact ⟨fuel - 1, by omega, by omega⟩

/-- What a reference is expanded to, in a schema with the definitions of a pass. -/
abbrev expansionIn (pass : Pass) (fuel : Nat) (expanding : List String) (name : String) :
    Outcome Value :=
  expansion (Value.entriesOf pass.definitions) fuel expanding name

/-- A node that follows a descriptor in a pass has a twin that follows it with every struct written
out. -/
def HasTwin (options : Options) (store : Store) (pass : Pass) (visited : List String) (depth : Nat)
    (descriptor : Descriptor) : Prop :=
  ∀ node expanding fuel, IsExpanding pass visited expanding fuel node →
    Renders (StandsFor options store pass) descriptor node →
      ∃ twin, Renders (WritesOut options store depth) descriptor twin ∧
        Twins (expansionIn pass fuel expanding) (expansion [] 1 []) node twin

namespace IsUnfoldable

variable (unfoldable : IsUnfoldable options store target pass)
include unfoldable

theorem total (fuel : Nat) (expanding : List String) (name : String) :
    IsShape (expansionIn pass fuel expanding name) := by
  refine isShape_expansion (fun name node found => ?_) fuel expanding name
  rw [Value.get?_entriesOf] at found
  exact unfoldable.schemas name node found

omit unfoldable in
theorem total_nil (name : String) : IsShape (expansion [] 1 [] name) :=
  isShape_expansion (fun _ _ found => by cases found) 1 [] name

theorem isCompiled {node : Value} (renders : Renders (StandsFor options store pass) descriptor node) :
    IsCompiled node :=
  renders.isCompiled fun id node stands => (StandsFor.standing unfoldable.consistent id node stands).1

/-- The nodes of the fields of a record have twins where those of their types do. -/
theorem exists_twinFields {fields : List Field} {nodes : Fields}
    (each : ∀ field ∈ fields, HasTwin options store pass visited depth field.type)
    (expands : ∀ inner, IsExpanding pass visited expanding fuel inner)
    (renders : List.Forall₂ (RendersField (StandsFor options store pass)) fields nodes) :
    ∃ twinNodes, List.Forall₂ (RendersField (WritesOut options store depth)) fields twinNodes ∧
      List.Forall₂ (TwinFields (expansionIn pass fuel expanding) (expansion [] 1 [])) nodes
        twinNodes := by
  refine exists_aligned_both renders ?_
  rintro field isField ⟨name, node⟩ - ⟨free, rfl, inner, renders, rfl⟩
  obtain ⟨twin, writes, twins⟩ := each field isField inner expanding fuel (expands inner) renders
  exact ⟨_, ⟨free, rfl, twin, writes, rfl⟩,
    twins.field (unfoldable.total fuel expanding) total_nil _ field.required field.description⟩

/-- The body of a struct has a twin where the types of its fields do. -/
theorem exists_twin_body {id : StructId} {nodes : Fields}
    (each : ∀ field ∈ (store.at id).fields,
      HasTwin options store pass ((store.at id).name :: visited) depth field.type)
    (expands : ∀ inner, IsExpanding pass ((store.at id).name :: visited) expanding fuel inner)
    (renders : RendersFields (StandsFor options store pass) (store.at id).fields nodes) :
    ∃ twin, WritesOut options store (depth + 1) id twin ∧
      Twins (expansionIn pass fuel expanding) (expansion [] 1 [])
        (structNode options (store.at id) nodes) twin := by
  have renders := (rendersFields_iff _ _).mp renders
  obtain ⟨twinNodes, writes, twins⟩ := unfoldable.exists_twinFields each expands renders
  exact ⟨_, writesOut_succ writes, twins_structNode (unfoldable.total fuel expanding) total_nil options
    (store.at id) twins (map_fst_of_renders renders)⟩

/-- A reference has the twin of the definition that it is expanded to. -/
theorem twins_reference {id : StructId} {nodes : Fields} {twin : Value}
    (reached : Descriptor.Reaches store target (.struct id))
    (defined : pass.definitions.get? (store.at id).name =
      some (structNode options (store.at id) nodes))
    (notExpanding : (store.at id).name ∉ expanding)
    (twins : Twins (expansionIn pass fuel ((store.at id).name :: expanding)) (expansion [] 1 [])
      (structNode options (store.at id) nodes) twin) :
    Twins (expansionIn pass (fuel + 1) expanding) (expansion [] 1 [])
      (refNode options (store.at id).name) twin := by
  have silent := isSilent_refNode options (store.at id).name
  have bodySilent := isSilent_structNode options (store.at id) nodes
  have isReference : Fields.get? [("$ref", .str (options.refPrefix ++ (store.at id).name))] "$ref" =
      some (.str (options.refPrefix ++ (store.at id).name)) := by
    rw [Fields.get?_cons, if_pos rfl]
  have isName : refName (options.refPrefix ++ (store.at id).name) = (store.at id).name := by
    rw [Options.refPrefix, refName_append, unfoldable.whole id reached]
  have found : (Value.entriesOf pass.definitions).get? (store.at id).name =
      some (structNode options (store.at id) nodes) := by
    rw [Value.get?_entriesOf, defined]
  have unmarked : expanding.contains (store.at id).name = false := by simpa using notExpanding
  have sameImage : shapeImage (expansionIn pass (fuel + 1) expanding)
      (refNode options (store.at id).name) =
        shapeImage (expansionIn pass fuel ((store.at id).name :: expanding))
          (structNode options (store.at id) nodes) := by
    rw [shapeImage, refNode, shapeWith_reference isReference, isName]
    simp only [expansion, found, unmarked, if_neg Bool.false_ne_true, shape_eq]
    rfl
  refine ⟨⟨isCompiled_refNode options _, twins.compiled.2⟩, ⟨?_, twins.schemas.2⟩, .inr ⟨?_, ?_⟩, ?_, ?_⟩
  · exact isSchema_refNode (permits_isTextual options store fun _ => True) trivial
  · exact silent.unsaid
  · rw [← twins.saysNull_eq]
    exact bodySilent.unsaid
  · rw [← twins.accepts, silent.withoutNull, bodySilent.withoutNull]
  · rw [sameImage]
    exact twins.alike

/-- What stands for a struct has a twin where the types of the struct's fields do. -/
theorem hasTwin_struct {id : StructId}
    (inside : IsInside store target pass visited (depth + 1) (.struct id))
    (each : ∀ field ∈ (store.at id).fields,
      IsInside store target pass ((store.at id).name :: visited) depth field.type →
        HasTwin options store pass ((store.at id).name :: visited) depth field.type) :
    HasTwin options store pass visited (depth + 1) (.struct id) := by
  intro node expanding fuel isExpanding renders
  simp only [Renders] at renders ⊢
  obtain ⟨known, stands⟩ := renders
  have notVisited := inside.not_mem unfoldable known
  obtain ⟨nodes, body, defined⟩ := unfoldable.consistent.exists_definition known
  have each := fun field isField =>
    each field isField (inside.field known notVisited isField)
  have around (name : String) (isVisited : name ∈ visited) : name ∈ (store.at id).name :: visited :=
    List.mem_cons_of_mem _ isVisited
  rcases stands with rfl | inPlace
  · have notExpanding : (store.at id).name ∉ expanding := by
      intro isExpanded
      rcases isExpanding.around _ isExpanded with isVisited | isTag
      · exact notVisited isVisited
      · simp [tagOf, refNode, Fields.get?_cons] at isTag
    have isDefined := List.mem_map_of_mem (f := Prod.fst) (Fields.mem_of_get? defined)
    obtain ⟨less, rfl, enough⟩ := isExpanding.exists_fuel isDefined notExpanding
    have expands : ∀ inner, IsExpanding pass ((store.at id).name :: visited)
        ((store.at id).name :: expanding) less inner := fun inner =>
      ⟨List.nodup_cons.mpr ⟨notExpanding, isExpanding.distinct⟩,
        List.cons_subset.mpr ⟨isDefined, isExpanding.defined⟩, enough, fun name isExpanded => by
          rcases List.mem_cons.mp isExpanded with rfl | isExpanded
          · exact .inl List.mem_cons_self
          · refine .inl (around name ((isExpanding.around name isExpanded).resolve_right ?_))
            simp [tagOf, refNode, Fields.get?_cons]⟩
    obtain ⟨twin, writes, twins⟩ := unfoldable.exists_twin_body each expands body
    exact ⟨twin, writes, unfoldable.twins_reference inside.reached defined notExpanding twins⟩
  · obtain rfl := Option.some.inj (inPlace.symm.trans defined)
    have expands : ∀ inner, IsExpanding pass ((store.at id).name :: visited) expanding fuel inner :=
      fun inner => ⟨isExpanding.distinct, isExpanding.defined, isExpanding.enough,
        fun name isExpanded => by
          rcases isExpanding.around name isExpanded with isVisited | isTag
          · exact .inl (around name isVisited)
          · rw [tagOf_structNode options (store.at id)
              (typeKey_not_mem_of_renders ((rendersFields_iff _ _).mp body))] at isTag
            exact .inl (Option.some.inj isTag ▸ List.mem_cons_self)⟩
    exact unfoldable.exists_twin_body each expands body

/-- Every descriptor has a twin where the structs in it do. -/
theorem hasTwin_of_structs
    (structs : ∀ id, IsInside store target pass visited depth (.struct id) →
      HasTwin options store pass visited depth (.struct id))
    (inside : IsInside store target pass visited depth descriptor) :
    HasTwin options store pass visited depth descriptor := by
  have total := unfoldable.total
  induction descriptor using Descriptor.induction with
  | scalar kind =>
      rintro node expanding fuel - renders
      simp only [Renders] at renders ⊢
      exact ⟨_, rfl, renders ▸ twins_scalarNode (total fuel expanding) total_nil kind⟩
  | enum type =>
      rintro node expanding fuel - renders
      simp only [Renders] at renders ⊢
      exact ⟨_, rfl, renders ▸ twins_enumNode (total fuel expanding) total_nil type⟩
  | array element ih =>
      intro node expanding fuel isExpanding renders
      simp only [Renders] at renders ⊢
      obtain ⟨inner, renders, rfl⟩ := renders
      obtain ⟨twin, writes, twins⟩ := ih (inside.part (.element _)) inner expanding fuel
        (isExpanding.part fun _ _ isTag => by simp [tagOf, Fields.get?_cons] at isTag) renders
      exact ⟨_, ⟨twin, writes, rfl⟩, twins.array (total fuel expanding) total_nil⟩
  | map key value keyIH valueIH =>
      intro node expanding fuel isExpanding renders
      simp only [Renders] at renders ⊢
      obtain ⟨keyNode, valueNode, keyRenders, valueRenders, rfl⟩ := renders
      have within (inner : Value) : IsExpanding pass visited expanding fuel inner :=
        isExpanding.part fun _ _ isTag => by simp [mapNode, tagOf, Fields.get?_cons] at isTag
      obtain ⟨keyTwin, keyWrites, -⟩ :=
        keyIH (inside.part (.key _ _)) keyNode expanding fuel (within _) keyRenders
      obtain ⟨valueTwin, valueWrites, twins⟩ :=
        valueIH (inside.part (.value _ _)) valueNode expanding fuel (within _) valueRenders
      exact ⟨_, ⟨keyTwin, valueTwin, keyWrites, valueWrites, rfl⟩,
        twins.map (total fuel expanding) total_nil⟩
  | optional inner ih =>
      intro node expanding fuel isExpanding renders
      simp only [Renders] at renders ⊢
      obtain ⟨innerNode, renders, rfl⟩ := renders
      have isCompiled := unfoldable.isCompiled renders
      obtain ⟨twin, writes, twins⟩ := ih (inside.part (.inner _)) innerNode expanding fuel
        (isExpanding.part fun _ _ => tagOf_of_nullable isCompiled) renders
      exact ⟨_, ⟨twin, writes, rfl⟩, twins.nullable (total fuel expanding) total_nil⟩
  | union members ih =>
      intro node expanding fuel isExpanding renders
      simp only [Renders, rendersMembers_iff] at renders ⊢
      obtain ⟨nodes, renders, rfl⟩ := renders
      have compiled : ∀ node ∈ nodes, IsCompiled node := fun node isNode => by
        obtain ⟨member, -, renders⟩ := exists_left_of_mem renders isNode
        exact unfoldable.isCompiled renders
      obtain ⟨twinNodes, writes, twins⟩ := exists_aligned_both renders
        fun member isMember node isNode renders =>
          have isMember := List.mem_of_mem_filter isMember
          ih member isMember (inside.part (.member isMember)) node expanding fuel
            (isExpanding.part fun _ _ isTag => tagOf_of_unionNode compiled isTag node isNode) renders
      exact ⟨_, ⟨twinNodes, writes, rfl⟩, twins_unionNode (total fuel expanding) total_nil twins _⟩
  | null =>
      rintro node expanding fuel - renders
      simp only [Renders] at renders ⊢
      exact ⟨_, rfl, renders ▸ twins_nullNode (total fuel expanding) total_nil⟩
  | fixed record ih =>
      intro node expanding fuel isExpanding renders
      simp only [Renders, rendersFields_iff] at renders ⊢
      obtain ⟨nodes, renders, rfl⟩ := renders
      -- What is expanded is a struct, and no struct has the name of a record.
      have expands : ∀ inner, IsExpanding pass visited expanding fuel inner := fun inner =>
        isExpanding.part fun name isExpanded isTag => by
          rw [tagOf_recordNode _ _ _ (typeKey_not_mem_of_renders renders)] at isTag
          obtain ⟨⟨_, body⟩, isDefined, rfl⟩ := List.mem_map.mp (isExpanding.defined isExpanded)
          obtain ⟨id, -, known, -⟩ := unfoldable.consistent.bodies _ body
            (Fields.get?_of_mem unfoldable.distinct isDefined)
          obtain ⟨reached, sameName⟩ := unfoldable.met _ id known
          exact (unfoldable.apart record id inside.reached reached (sameName ▸ isTag)).elim
      obtain ⟨twinNodes, writes, twins⟩ := unfoldable.exists_twinFields
        (fun field isField => ih field isField (inside.part (.field isField))) expands renders
      exact ⟨_, ⟨twinNodes, writes, rfl⟩, twins_recordNode (total fuel expanding) total_nil record
        twins (map_fst_of_renders renders)⟩
  | struct id => exact structs id inside
  | stray value =>
      rintro node expanding fuel - renders
      simp only [Renders] at renders

theorem hasTwin (inside : IsInside store target pass visited depth descriptor) :
    HasTwin options store pass visited depth descriptor := by
  induction depth generalizing visited descriptor with
  | zero => exact (not_exhausted inside.distinct inside.named inside.enough).elim
  | succ depth ih =>
      exact unfoldable.hasTwin_of_structs
        (fun id inside => unfoldable.hasTwin_struct inside fun field _ => ih) inside

end IsUnfoldable

end Gemini

open Gemini in
/-- Where no struct that is reached reaches itself, and no name is taken for another, the shape of a
compiled schema is the shape of the schema in which every struct is written out wherever it stands,
apart from descriptions and the order of keys. -/
theorem gemini_shape_of_unshared {options : Options} {store : Store} {target : Descriptor}
    {compiled : Compiled} (compiles : compile options store target = .ok compiled)
    (acyclic : ∀ id, Descriptor.Reaches store target (.struct id) →
      ¬Relation.TransGen (Descriptor.Part store) (.struct id) (.struct id))
    (unslashed : ∀ id, Descriptor.Reaches store target (.struct id) →
      '/' ∉ (store.at id).name.toList)
    (apart : ∀ record id, Descriptor.Reaches store target (.fixed record) →
      Descriptor.Reaches store target (.struct id) → record.name ≠ some (store.at id).name) :
    ∃ schema shaped flat,
      (∀ bottom, Compile.node (Compile.unshared options store bottom (store.length + 2)) target =
        .ok schema) ∧
      Gemini.ofCompiled compiled = .ok shaped ∧
      Gemini.ofCompiled ⟨schema, [], options.defsKey⟩ = .ok flat ∧
      (undescribed shaped).SameUpToOrder (undescribed flat) := by
  obtain ⟨pass, run, isCompiled⟩ := Compile.exists_pass_of_compile compiles
  obtain ⟨consistent, renders, met, distinct⟩ := Compile.settled_of_yields run
  have permits := permits_isTextual options store (Descriptor.Reaches store target)
  obtain ⟨⟨-, isSchema⟩, definitions, areDefinitions, -, each⟩ := Compile.good_of_compile
    (Compile.builds_isSchema (fun reaches isPart => reaches.tail isPart) permits) compiles
  obtain ⟨root, table, key⟩ := compiled
  simp only [Compiled.mk.injEq, true_and] at isCompiled
  obtain ⟨rfl, rfl⟩ := isCompiled
  have schemas (name : String) (node : Value)
      (found : (Value.entriesOf pass.definitions).get? name = some node) :
      IsSchema ["properties"] IsTextual node := by
    simp only at areDefinitions
    rw [areDefinitions, Value.get?_entriesOf] at found
    exact (each _ (Fields.mem_of_get? found)).1
  have unfoldable : IsUnfoldable options store target pass := {
    consistent, met, distinct, acyclic, apart
    schemas := fun name node found => schemas name node ((Value.get?_entriesOf _ _).trans found)
    whole := fun id reached => refName_of_unslashed (unslashed id reached) }
  have inside : IsInside store target pass [] (store.length + 2) target := by
    refine ⟨.refl, ?_, List.nodup_nil, List.nil_subset _, by simp⟩
    exact fun _ isVisited => (List.not_mem_nil isVisited).elim
  have isExpanding : IsExpanding pass []
      ((tagOf root).toList.filter (Value.entriesOf pass.definitions).has)
      ((Value.entriesOf pass.definitions).length + 1) root := by
    have isRoot (name : String)
        (isExpanded : name ∈ (tagOf root).toList.filter (Value.entriesOf pass.definitions).has) :
        tagOf root = some name ∧ name ∈ pass.definitions.map Prod.fst := by
      obtain ⟨isTag, isDefined⟩ := List.mem_filter.mp isExpanded
      refine ⟨Option.mem_toList.mp isTag, ?_⟩
      rw [Value.Entries.has, Value.get?_entriesOf] at isDefined
      obtain ⟨node, found⟩ := Option.isSome_iff_exists.mp isDefined
      exact List.mem_map_of_mem (f := Prod.fst) (Fields.mem_of_get? found)
    have single : (tagOf root).toList.Nodup := by cases tagOf root <;> simp
    refine ⟨List.filter_sublist.nodup single, fun name isExpanded => (isRoot name isExpanded).2, ?_,
      fun name isExpanded => .inr (isRoot name isExpanded).1⟩
    rw [Value.entriesOf, List.length_map]
    omega
  obtain ⟨twin, writes, twins⟩ := unfoldable.hasTwin inside root _ _ isExpanding renders
  refine ⟨twin, _, _, fun bottom => Compile.node_of_renders (fun _ _ writes => writes bottom) writes,
    ofCompiled_eq isSchema schemas, ofCompiled_eq twins.schemas.2 ?_, ?_⟩
  · exact fun _ _ found => by cases found
  · have unnamed : (tagOf twin).toList.filter (Value.Entries.has []) = [] := by
      rw [List.filter_eq_nil_iff]
      exact fun _ _ isDefined => Bool.false_ne_true isDefined
    rw [unnamed]
    exact twins.alike

/-- Points, and a way from one to another that may be open. -/
def points : Store := [⟨"Point", none, [⟨"x", .scalar .int, true, none, none⟩], none⟩]

def wayBetween : Descriptor :=
  .fixed ⟨[⟨"start", .struct 0, true, none, none⟩,
    ⟨"stop", .optional (.struct 0), false, some "Where it ends.", none⟩], none, none, none⟩

theorem wayBetween_throughout {condition : Descriptor → Prop}
    (holds : ∀ descriptor ∈ [wayBetween, .struct 0, .optional (.struct 0), .scalar .int],
      condition descriptor) : Descriptor.Throughout points condition wayBetween := by
  refine .of_list ?_ holds List.mem_cons_self
  simp [points, wayBetween, Descriptor.parts, Descriptor.fields, Store.at]

theorem points_acyclic : ¬Relation.TransGen (Descriptor.Part points) (.struct 0) (.struct 0) := by
  intro cyclic
  obtain ⟨part, isPart, leads⟩ := Relation.TransGen.head'_iff.mp cyclic
  rw [Descriptor.part_iff_mem_parts] at isPart
  obtain rfl : part = .scalar .int := by
    simpa [points, Descriptor.parts, Descriptor.fields, Store.at] using isPart
  rcases leads.cases_head with same | ⟨inner, isInner, -⟩
  · cases same
  · rw [Descriptor.part_iff_mem_parts] at isInner
    simp [Descriptor.parts, Descriptor.fields] at isInner

/-- The shape of a way between points, the second of which is a nullable reference, is the shape of
the schema in which both points are written out. -/
theorem wayBetween_shape_of_unshared :
    ∃ compiled, compile Options.defaults points wayBetween = .ok compiled ∧
      (∀ id, Descriptor.Reaches points wayBetween (.struct id) →
        ¬Relation.TransGen (Descriptor.Part points) (.struct id) (.struct id)) ∧
      (∀ id, Descriptor.Reaches points wayBetween (.struct id) →
        '/' ∉ (points.at id).name.toList) ∧
      (∀ record id, Descriptor.Reaches points wayBetween (.fixed record) →
        Descriptor.Reaches points wayBetween (.struct id) →
          record.name ≠ some (points.at id).name) ∧
      ∃ schema shaped flat,
        Compile.node (Compile.unshared Options.defaults points (fun _ => .ok .null) 3) wayBetween =
          .ok schema ∧
        Gemini.ofCompiled compiled = .ok shaped ∧
        Gemini.ofCompiled ⟨schema, [], Options.defaults.defsKey⟩ = .ok flat ∧
        (Gemini.undescribed shaped).SameUpToOrder (Gemini.undescribed flat) := by
  have struct : Descriptor.Throughout points (fun found => ∀ id, found = .struct id → id = 0)
      wayBetween := wayBetween_throughout (by simp [wayBetween])
  have record : Descriptor.Throughout points
      (fun found => ∀ record : FixedRecord, found = .fixed record → record.name = none)
      wayBetween := wayBetween_throughout (by simp [wayBetween])
  have acyclic (id : StructId) (reached : Descriptor.Reaches points wayBetween (.struct id)) :
      ¬Relation.TransGen (Descriptor.Part points) (.struct id) (.struct id) := by
    rw [struct _ reached id rfl]
    exact points_acyclic
  have unslashed (id : StructId) (reached : Descriptor.Reaches points wayBetween (.struct id)) :
      '/' ∉ (points.at id).name.toList := by
    rw [struct _ reached id rfl]
    decide
  have apart (fixed : FixedRecord) (id : StructId)
      (reached : Descriptor.Reaches points wayBetween (.fixed fixed))
      (_ : Descriptor.Reaches points wayBetween (.struct id)) :
      fixed.name ≠ some (points.at id).name := by
    rw [record _ reached fixed rfl]
    exact Option.some_ne_none _ |>.symm
  obtain ⟨schema, shaped, flat, writes, shapes, flattens, same⟩ :=
    @gemini_shape_of_unshared Options.defaults points wayBetween _ rfl acyclic unslashed apart
  exact ⟨_, rfl, acyclic, unslashed, apart, schema, shaped, flat, writes _, shapes, flattens, same⟩

end TypedReply
