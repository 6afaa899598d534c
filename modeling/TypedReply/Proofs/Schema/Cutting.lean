import TypedReply.Proofs.Schema.Origins
import TypedReply.Proofs.Schema.Places
import TypedReply.Proofs.Schema.Unsharing

/-!
# Where references are cut

A reference is cut inside an expansion of the name that it leads to, and the root counts as the
expansion of the name in its tag. A struct that is written out where it is met is no expansion, so
that inside it a reference to it is expanded once more; and a record that is the root only shares a
name with a struct, but no reference to the struct is expanded. Where neither comes up, a reference
is cut exactly inside the struct that it refers to.
-/

namespace TypedReply

namespace Gemini

open Compile (Renders RendersField StandsFor StemsFrom refName)

variable {options : Options} {store : Store} {target : Descriptor} {compiled : Compiled}

/-! ## Compiled schemas -/

/-- A finished pass leaves a compiled schema: its nodes stand for what they are compiled from, and
all of them are schemas. -/
structure Finishes (options : Options) (store : Store) (target : Descriptor) (pass : Pass)
    (compiled : Compiled) : Prop where
  consistent : Compile.Consistent options store [] pass
  met : Compile.Met store target pass
  renders : Renders (StandsFor options store pass) target compiled.schema
  definitions : ∀ name, compiled.definitions.get? name = pass.definitions.get? name
  isSchema : IsSchema ["properties"] IsTextual compiled.schema
  schemas : ∀ name node, compiled.definitions.get? name = some node →
    IsSchema ["properties"] IsTextual node

theorem exists_finishes (compiles : compile options store target = .ok compiled) :
    ∃ pass, Finishes options store target pass compiled := by
  obtain ⟨pass, run, isCompiled⟩ := Compile.exists_pass_of_compile compiles
  obtain ⟨consistent, renders, met, -⟩ := Compile.settled_of_yields run
  have permits := permits_isTextual options store (Descriptor.Reaches store target)
  obtain ⟨⟨-, isSchema⟩, definitions, areDefinitions, -, each⟩ := Compile.good_of_compile
    (Compile.builds_isSchema (fun reaches isPart => reaches.tail isPart) permits) compiles
  refine ⟨pass, consistent, met, renders, fun name => ?_, isSchema, fun name node found => ?_⟩
  · rw [isCompiled, Value.get?_entriesOf]
  · rw [areDefinitions, Value.get?_entriesOf] at found
    exact (each _ (Fields.mem_of_get? found)).1

namespace Finishes

variable {pass : Pass} (finishes : Finishes options store target pass compiled)
include finishes

theorem draws : Compile.DrawsBodies options store (StandsFor options store pass) where
  compiled _ _ stands := (stands.standing finishes.consistent).1
  bodies id node stands := by
    obtain ⟨isKnown, isReference | isBody⟩ := stands
    · exact .inl isReference
    · obtain ⟨nodes, renders, defined⟩ := finishes.consistent.exists_definition isKnown
      refine .inr ⟨nodes, (Compile.rendersFields_iff _ _).mp renders, ?_⟩
      exact Option.some.inj (isBody.symm.trans defined)

theorem lookup {id : StructId} (reached : Descriptor.Reaches store target (.struct id)) :
    pass.structs.lookup (store.at id).name = some id :=
  Compile.lookup_of_reaches finishes.consistent finishes.renders reached

/-- A definition is the body of the struct of its name. -/
theorem exists_struct {name : String} {body : Value}
    (defined : compiled.definitions.get? name = some body) : ∃ id nodes,
      Descriptor.Reaches store target (.struct id) ∧ (store.at id).name = name ∧
        List.Forall₂ (RendersField (StandsFor options store pass)) (store.at id).fields nodes ∧
        body = Compile.structNode options (store.at id) nodes ∧
        StandsFor options store pass id body := by
  rw [finishes.definitions] at defined
  obtain ⟨id, nodes, isKnown, renders, rfl⟩ := finishes.consistent.bodies name body defined
  obtain ⟨reached, rfl⟩ := finishes.met name id isKnown
  exact ⟨id, nodes, reached, rfl, (Compile.rendersFields_iff _ _).mp renders, rfl,
    isKnown, .inr defined⟩

theorem exists_body {id : StructId} (reached : Descriptor.Reaches store target (.struct id)) :
    ∃ body, compiled.definitions.get? (store.at id).name = some body := by
  obtain ⟨nodes, -, defined⟩ := finishes.consistent.exists_definition (finishes.lookup reached)
  exact ⟨_, (finishes.definitions _).trans defined⟩

end Finishes

/-! ## Inside of structs -/

/-- A descriptor is reached, and if the names of structs are found whole, from inside of each of the
structs of some names. -/
def Inside (store : Store) (target : Descriptor) (around : List String)
    (descriptor : Descriptor) : Prop :=
  Descriptor.Reaches store target descriptor ∧
    ((∀ id, Descriptor.Reaches store target (.struct id) →
        refName (store.at id).name = (store.at id).name) →
      ∀ name ∈ around, ∃ id, (store.at id).name = name ∧
        Descriptor.Reaches store target (.struct id) ∧
        Relation.TransGen (Descriptor.Part store) (.struct id) descriptor)

theorem Inside.part {around : List String} {descriptor part : Descriptor}
    (inside : Inside store target around descriptor)
    (isPart : Descriptor.Part store descriptor part) : Inside store target around part := by
  refine ⟨inside.1.tail isPart, fun whole name isAround => ?_⟩
  obtain ⟨id, isName, reached, leads⟩ := inside.2 whole name isAround
  exact ⟨id, isName, reached, leads.tail isPart⟩

theorem bodyOf_structNode (struct : Struct) {nodes : Fields}
    (free : typeKey ∉ nodes.map Prod.fst) :
    bodyOf (Compile.structNode options struct nodes) = some struct.name := by
  have isOpen : (Compile.structNode options struct nodes).get? "additionalProperties" = none := by
    unfold Compile.structNode
    cases options.structDescriptions <;> simp [Fields.get?_cons]
  rw [bodyOf, isOpen, tagOf_structNode options struct free]
  rfl

theorem isSome_properties_of_bodyOf {node : Value} {name : String}
    (isBody : bodyOf node = some name) :
    (node.get? "properties").isSome = true := by
  cases declared : node.get? "properties" with
  | none => simp [bodyOf, tagOf, declared] at isBody
  | some table => rfl

theorem tagOf_of_declared {node : Value} {name : Option String} {nodes : Fields}
    (declared : node.get? "properties" = some (Compile.propertiesOf name nodes))
    (free : typeKey ∉ nodes.map Prod.fst) : tagOf node = name := by
  rw [tagOf, declared, Compile.propertiesOf, Option.bind_some, Fields.get?_node,
    Fields.get?_putAll_of_not_mem free]
  cases name <;> simp [Fields.get?_cons, Compile.tagNode, Value.text?]

/-- The fields of a struct are inside of it, where its body is. -/
theorem Inside.field {around : List String} {descriptor : Descriptor} {body : Option String}
    {field : Field} (inside : Inside store target around descriptor)
    (isBody : ∀ name, body = some name →
      ∃ id, descriptor = .struct id ∧ (store.at id).name = name)
    (isField : field ∈ descriptor.fields store) :
    Inside store target (body.toList ++ around) field.type := by
  have isPart : Descriptor.Part store descriptor field.type := .field isField
  refine ⟨inside.1.tail isPart, fun whole name isAround => ?_⟩
  rcases List.mem_append.mp isAround with isBodyName | isAround
  · obtain ⟨id, rfl, isName⟩ := isBody name (Option.mem_toList.mp isBodyName)
    exact ⟨id, isName, inside.1, .single isPart⟩
  · exact (inside.part isPart).2 whole name isAround

theorem refName_refPrefix (options : Options) (name : String) :
    refName (options.refPrefix ++ name) = refName name := refName_append options.defsKey name

section Origins

variable {pass : Pass} (finishes : Finishes options store target pass compiled)
variable {shaped node shown inner innerShown : Value} {around expanding : List String}
include finishes

/-- What follows a descriptor is traced back to inside of the structs that the descriptor is in. -/
theorem Finishes.stemsFrom {descriptor : Descriptor}
    (inside : Inside store target around descriptor)
    (renders : Renders (StandsFor options store pass) descriptor node) :
    StemsFrom options store (StandsFor options store pass) (Inside store target around) node :=
  Compile.stemsFrom_of_renders finishes.draws Inside.part inside renders

/-- A property is traced back to inside of the struct whose body it stands in, too. -/
theorem Finishes.property
    (stems : StemsFrom options store (StandsFor options store pass)
      (Inside store target around) node)
    {table : Value.Entries} {key : Value}
    (declared : node.get? "properties" = some (.object table)) (isInner : (key, inner) ∈ table) :
    StemsFrom options store (StandsFor options store pass)
      (Inside store target ((bodyOf node).toList ++ around)) inner := by
  obtain ⟨descriptor, record, nodes, inside, isRecord, renders, isTable, isOpen⟩ :=
    stems.properties _ declared
  cases isTable
  obtain ⟨⟨name, value⟩, isEntry, same⟩ := List.mem_map.mp isInner
  cases same
  rcases Fields.mem_or_mem_of_mem_putAll isEntry with isTag | isField
  · obtain ⟨tag, -, isTag⟩ := List.mem_map.mp isTag
    cases isTag
    apply StemsFrom.leaf <;> rfl
  · obtain ⟨field, isField, -, -, typeNode, follows, isNode⟩ :=
      exists_left_of_mem renders isField
    rw [Descriptor.fields_of_record? isRecord] at isField
    have inField : Inside store target ((bodyOf node).toList ++ around) field.type := by
      refine inside.field (fun name isBody => ?_) isField
      rw [bodyOf, tagOf_of_declared declared (Compile.typeKey_not_mem_of_renders renders)]
        at isBody
      obtain ⟨closed, isName⟩ := ite_eq_iff.mp isBody |>.resolve_left fun no => nomatch no.2
      obtain ⟨id, rfl⟩ := isOpen.mp (by simpa using closed)
      cases isRecord
      exact ⟨id, rfl, Option.some.inj isName⟩
    cases isNode
    exact (finishes.stemsFrom inField follows).field
      (follows.isCompiled finishes.draws.compiled) inField follows _ _

/-- What stands in a node that is traced back to inside of some structs is traced back to inside of
the struct whose body the node is, too. -/
theorem Finishes.beside
    (stems : StemsFrom options store (StandsFor options store pass)
      (Inside store target around) node)
    (beside : Beside node shown inner innerShown) :
    StemsFrom options store (StandsFor options store pass)
      (Inside store target ((bodyOf node).toList ++ around)) inner := by
  have notBody (other : (node.get? "items").isSome ∨ (node.get? "anyOf").isSome) :
      bodyOf node = none := by
    by_contra isBody
    obtain ⟨name, isBody⟩ := Option.ne_none_iff_exists'.mp isBody
    obtain ⟨noItems, noMembers, -⟩ := stems.alone (isSome_properties_of_bodyOf isBody)
    simp [noItems, noMembers] at other
  have member {members : List Value} (found : node.get? "anyOf" = some (.list members))
      (isOther : inner ∈ members.filter (!Compile.saysNull ·)) :
      StemsFrom options store (StandsFor options store pass)
        (Inside store target ((bodyOf node).toList ++ around)) inner := by
    obtain ⟨isMember, notNull⟩ := List.mem_filter.mp isOther
    obtain ⟨part, inside, renders⟩ :=
      stems.members _ found inner isMember (by simpa using notNull)
    rw [notBody (.inr (by simp [found]))]
    exact finishes.stemsFrom inside renders
  cases beside with
  | property _ _ declared isInner =>
      exact finishes.property stems declared (List.mem_of_getElem? isInner)
  | item _ _ found =>
      obtain ⟨element, inside, renders⟩ := stems.items inner found
      rw [notBody (.inl (by simp [found]))]
      exact finishes.stemsFrom inside renders
  | only _ found others => exact member found (others ▸ List.mem_singleton_self inner)
  | alternative _ found _ isInner => exact member found (List.mem_of_getElem? isInner)

theorem Finishes.stemsFrom_root : StemsFrom options store (StandsFor options store pass)
    (Inside store target []) compiled.schema :=
  finishes.stemsFrom ⟨.refl, fun _ _ isAround => (List.not_mem_nil isAround).elim⟩ finishes.renders

theorem Place.stemsFrom (place : Place compiled shaped around expanding node shown) :
    StemsFrom options store (StandsFor options store pass) (Inside store target around) node := by
  induction place with
  | root => exact finishes.stemsFrom_root
  | inner _ beside ih => exact finishes.beside ih beside
  | @definition around _ _ _ body _ _ isReference defined _ ih =>
      obtain ⟨id, inside, isReference⟩ := ih.reference _ isReference
      obtain ⟨other, nodes, reached, isName, -, -, stands⟩ := finishes.exists_struct defined
      cases isReference
      rw [refName_refPrefix] at isName
      have renders : Renders (StandsFor options store pass) (.struct other) body := by
        simpa only [Renders] using stands
      refine finishes.stemsFrom ?_ renders
      refine ⟨reached, fun whole name isAround => ?_⟩
      -- A name that is found whole leads to the struct that is referred to.
      have known := finishes.lookup reached
      rw [isName, whole id inside.1, finishes.lookup inside.1] at known
      obtain rfl := Option.some.inj known
      exact inside.2 whole name isAround

/-- A name that is being expanded at a place is that of a struct that is written out around it, of
the body that stands there, or of the root in its tag only. -/
theorem Place.around_of_expanding {isOnlyTag : String → Prop}
    (root : ∀ name, tagOf compiled.schema = some name → compiled.definitions.has name = true →
      bodyOf compiled.schema = some name ∨ isOnlyTag name)
    (place : Place compiled shaped around expanding node shown) :
    ∀ name ∈ expanding, name ∈ around ∨ bodyOf node = some name ∨ isOnlyTag name := by
  induction place with
  | root =>
      intro name isExpanding
      obtain ⟨isTag, isDefined⟩ := List.mem_filter.mp isExpanding
      exact .inr (root name (Option.mem_toList.mp isTag) isDefined)
  | inner _ _ ih =>
      intro name isExpanding
      rcases ih name isExpanding with isAround | isBody | isTag
      · exact .inl (List.mem_append_right _ isAround)
      · exact .inl (List.mem_append_left _ (Option.mem_toList.mpr isBody))
      · exact .inr (.inr isTag)
  | definition place isReference defined _ ih =>
      intro name isExpanding
      rcases List.mem_cons.mp isExpanding with rfl | isExpanding
      · obtain ⟨id, nodes, -, isName, renders, rfl, -⟩ := finishes.exists_struct defined
        rw [← isName]
        exact .inr (.inl (bodyOf_structNode _ (Compile.typeKey_not_mem_of_renders renders)))
      · rcases ih name isExpanding with isAround | isBody | isTag
        · exact .inl isAround
        · have alone := (place.stemsFrom finishes).alone (isSome_properties_of_bodyOf isBody)
          rw [alone.2.2] at isReference
          cases isReference
        · exact .inr (.inr isTag)

omit finishes in
theorem Place.expanding_of_root (place : Place compiled shaped around expanding node shown) :
    (tagOf compiled.schema).toList.filter compiled.definitions.has ⊆ expanding := by
  induction place with
  | root => exact List.Subset.refl _
  | inner _ _ ih => exact ih
  | definition _ _ _ _ ih => exact List.subset_cons_of_subset _ ih

/-! ## References -/

theorem Finishes.agrees (shapes : ofCompiled compiled = .ok shaped)
    (place : Place compiled shaped around expanding node shown) :
    IsSchema ["properties"] IsTextual node ∧
      Agrees shown (shapeImage (replacement compiled.definitions expanding) node) :=
  place.agrees finishes.isSchema finishes.schemas shapes

omit finishes in
/-- The body of a struct is shaped as a plain node. -/
theorem image_structNode {expand : String → Outcome Value} {struct : Struct} {nodes : Fields}
    (total : ∀ name, IsShape (expand name))
    (isSchema : IsSchema ["properties"] IsTextual (Compile.structNode options struct nodes)) :
    ∃ fields shaped, Compile.structNode options struct nodes = Fields.node fields ∧
      shapeImage expand (Compile.structNode options struct nodes) = Fields.node shaped ∧
      ShapesTo (shapeImage expand) fields shaped := by
  have noReference := Compile.get?_ref_structNode options struct nodes
  have noAlternatives : (Compile.structNode options struct nodes).get? "anyOf" = none := by
    unfold Compile.structNode
    cases options.structDescriptions <;> simp [Fields.get?_cons]
  obtain ⟨fields, isNode⟩ := isSchema.exists_fields
  rw [isNode] at isSchema noReference noAlternatives ⊢
  rw [Fields.get?_node] at noReference noAlternatives
  obtain ⟨shaped, image, shapes⟩ := image_plain total isSchema noReference noAlternatives
  exact ⟨fields, shaped, rfl, image, shapes⟩

omit finishes in
/-- What is shown for the body of a struct is not cut. -/
theorem not_isCut_of_body {expand : String → Outcome Value} {struct : Struct} {nodes : Fields}
    (total : ∀ name, IsShape (expand name))
    (isSchema : IsSchema ["properties"] IsTextual (Compile.structNode options struct nodes))
    (agrees : Agrees shown (shapeImage expand (Compile.structNode options struct nodes))) :
    ¬IsCut shown := by
  intro isCut
  obtain ⟨fields, shaped, isNode, image, shapes⟩ := image_structNode total isSchema
  have declared : ((Compile.structNode options struct nodes).get? "properties").isSome = true := by
    unfold Compile.structNode
    cases options.structDescriptions <;> simp [Fields.get?_cons]
  rw [isNode, Fields.get?_node] at declared
  obtain ⟨table, declared⟩ := Option.isSome_iff_exists.mp declared
  have shown := (isCut "properties" (by decide)).symm.trans (agrees "properties" (by decide))
  rw [image, Fields.get?_node, shapes.properties, declared] at shown
  cases shown

/-- What is shown for a reference to a name: nothing but the bare object if the name that it leads
to is being expanded or undefined, and else the whole shape of the struct that has this name. -/
structure ShowsReference (options : Options) (store : Store) (compiled : Compiled)
    (expanding : List String) (name : String) (shown : Value) : Prop where
  cut : IsCut shown ↔ refName name ∈ expanding ∨ compiled.definitions.get? (refName name) = none
  whole : ¬IsCut shown → ∃ id nodes, (store.at id).name = refName name ∧
    nodes.map Prod.fst = (store.at id).fields.map (·.name) ∧
    compiled.definitions.get? (refName name) =
      some (Compile.structNode options (store.at id) nodes) ∧
    Agrees shown (shapeImage (replacement compiled.definitions (refName name :: expanding))
      (Compile.structNode options (store.at id) nodes))

theorem Finishes.showsReference (shapes : ofCompiled compiled = .ok shaped)
    (place : Place compiled shaped around expanding node shown) {name : String}
    (isReference : node.get? "$ref" = some (.str (options.refPrefix ++ name))) :
    ShowsReference options store compiled expanding name shown := by
  obtain ⟨isNode, agrees⟩ := finishes.agrees shapes place
  obtain ⟨fields, rfl⟩ := isNode.exists_fields
  rw [Fields.get?_node] at isReference
  have leads := refName_refPrefix options name
  by_cases isBare : compiled.definitions.get? (refName name) = none ∨ refName name ∈ expanding
  · rw [image_reference_of_cut fields isReference (by rwa [leads])] at agrees
    exact ⟨iff_of_true agrees isBare.symm, fun notCut => (notCut agrees).elim⟩
  · obtain ⟨defined, free⟩ := not_or.mp isBare
    obtain ⟨body, defined⟩ := Option.ne_none_iff_exists'.mp defined
    have whole := agrees
    rw [image_reference fields isReference (by rwa [leads]) (by rwa [leads]), leads] at whole
    obtain ⟨id, nodes, -, isName, renders, rfl, -⟩ := finishes.exists_struct defined
    have notCut := not_isCut_of_body (isShape_replacement finishes.schemas _)
      (finishes.schemas _ _ defined) whole
    refine ⟨iff_of_false notCut fun isBare' => isBare isBare'.symm, fun _ => ?_⟩
    exact ⟨id, nodes, isName, Compile.map_fst_of_renders renders, defined, whole⟩

end Origins

/-- The schema of a struct is its body. -/
theorem exists_root_body {id : StructId}
    (compiles : compile options store (.struct id) = .ok compiled) :
    ∃ nodes, compiled.schema = Compile.structNode options (store.at id) nodes ∧
      nodes.map Prod.fst = (store.at id).fields.map (·.name) ∧ typeKey ∉ nodes.map Prod.fst := by
  obtain ⟨pass, finishes⟩ := exists_finishes compiles
  obtain ⟨_, run, -⟩ := Compile.exists_pass_of_compile compiles
  have stands : StandsFor options store pass id compiled.schema := by
    simpa only [Renders] using finishes.renders
  simp only [Compile.descriptor, Compile.node] at run
  obtain ⟨-, ⟨met, -⟩ | ⟨-, -, fields, -, -, isBody, -⟩⟩ := Compile.struct_cases run
  · rcases met with isVisited | isDefined
    · exact (List.not_mem_nil isVisited).elim
    · cases isDefined
  · rcases finishes.draws.bodies id _ stands with isReference | ⟨nodes, renders, isNode⟩
    · have none := Compile.get?_ref_structNode options (store.at id) fields
      rw [← isBody, isReference] at none
      cases none
    · exact ⟨nodes, isNode, Compile.map_fst_of_renders renders,
        Compile.typeKey_not_mem_of_renders renders⟩

section Agreement

variable {pass : Pass} (finishes : Finishes options store target pass compiled)
variable {shaped node shown : Value} {around expanding : List String} {id : StructId}
variable (unslashed : ∀ id, Descriptor.Reaches store target (.struct id) →
  '/' ∉ (store.at id).name.toList)
include finishes unslashed

/-- Where only the root may come back to itself, what is inside of a struct of its own name is being
expanded. -/
theorem Finishes.mem_expanding (compiles : compile options store target = .ok compiled)
    (recursive : ∀ id, Descriptor.Reaches store target (.struct id) →
      Relation.TransGen (Descriptor.Part store) (.struct id) (.struct id) → target = .struct id)
    (place : Place compiled shaped around expanding node shown)
    (inside : Inside store target around (.struct id)) (isAround : (store.at id).name ∈ around) :
    (store.at id).name ∈ expanding := by
  obtain ⟨other, sameName, reached, leads⟩ :=
    inside.2 (fun id reached => refName_of_unslashed (unslashed id reached)) _ isAround
  have known := finishes.lookup reached
  rw [sameName, finishes.lookup inside.1] at known
  obtain rfl := Option.some.inj known
  obtain rfl := recursive _ reached leads
  obtain ⟨nodes, isRoot, -, free⟩ := exists_root_body compiles
  obtain ⟨body, defined⟩ := finishes.exists_body reached
  apply place.expanding_of_root
  rw [isRoot, tagOf_structNode _ _ free]
  exact List.mem_filter.mpr ⟨List.mem_singleton_self _, by simp [Value.Entries.has, defined]⟩

omit unslashed in
/-- A root that is tagged with the name of a struct is the body of a struct, where no record has the
name of one. -/
theorem Finishes.bodyOf_root
    (apart : ∀ record id, Descriptor.Reaches store target (.fixed record) →
      Descriptor.Reaches store target (.struct id) → record.name ≠ some (store.at id).name)
    {name : String} (isTag : tagOf compiled.schema = some name)
    (isDefined : compiled.definitions.has name = true) : bodyOf compiled.schema = some name := by
  have stems := finishes.stemsFrom_root
  obtain ⟨table, declared⟩ : ∃ table, compiled.schema.get? "properties" = some table := by
    cases declared : compiled.schema.get? "properties" with
    | none => simp [tagOf, declared] at isTag
    | some table => exact ⟨table, rfl⟩
  obtain ⟨descriptor, record, nodes, inside, isRecord, renders, rfl, isOpen⟩ :=
    stems.properties table declared
  have free := Compile.typeKey_not_mem_of_renders renders
  obtain ⟨body, defined⟩ := Option.isSome_iff_exists.mp isDefined
  obtain ⟨id, -, reached, isName, -⟩ := finishes.exists_struct defined
  cases descriptor with
  | struct other => rw [bodyOf, isOpen.mpr ⟨other, rfl⟩, isTag]; rfl
  | fixed fixed =>
      cases isRecord
      rw [tagOf_of_declared declared free] at isTag
      exact (apart fixed id inside.1 reached (isTag.trans (congrArg some isName.symm))).elim
  | _ => cases isRecord

end Agreement

/-- In the shape of a compiled schema every schema is shown at a place. What is shown for a
reference there is cut exactly if the name it leads to is being expanded or undefined, and is the
whole shape of the struct of that name otherwise. A name that is being expanded is that of a struct
that is written out around the place, unless it is only the tag of the root. Where only the root may
come back to itself, no name is taken for another and no record has the name of a struct, a
reference is cut exactly inside of the struct that it refers to. -/
theorem references_cut_where_expanded (compiles : compile options store target = .ok compiled) :
    ∃ shaped, ofCompiled compiled = .ok shaped ∧
      (∀ shown, Relation.ReflTransGen (Value.Child ["properties"]) shaped shown →
        ∃ around expanding node, Place compiled shaped around expanding node shown) ∧
      ∀ around expanding node shown reference, Place compiled shaped around expanding node shown →
        node.get? "$ref" = some reference →
          ∃ id, Descriptor.Reaches store target (.struct id) ∧
            reference = .str (options.refPrefix ++ (store.at id).name) ∧
            ShowsReference options store compiled expanding (store.at id).name shown ∧
            (∀ name ∈ expanding, name ∈ around ∨ tagOf compiled.schema = some name) ∧
            ((∀ id, Descriptor.Reaches store target (.struct id) →
                Relation.TransGen (Descriptor.Part store) (.struct id) (.struct id) →
                  target = .struct id) →
              (∀ id, Descriptor.Reaches store target (.struct id) →
                '/' ∉ (store.at id).name.toList) →
              (∀ record id, Descriptor.Reaches store target (.fixed record) →
                Descriptor.Reaches store target (.struct id) →
                  record.name ≠ some (store.at id).name) →
              (IsCut shown ↔ (store.at id).name ∈ around)) := by
  obtain ⟨pass, finishes⟩ := exists_finishes compiles
  have shapes := ofCompiled_eq finishes.isSchema finishes.schemas
  refine ⟨_, shapes, fun shown => exists_place finishes.isSchema finishes.schemas shapes, ?_⟩
  intro around expanding node shown reference place isReference
  have stems := place.stemsFrom finishes
  obtain ⟨id, inside, rfl⟩ := stems.reference _ isReference
  have shows := finishes.showsReference shapes place isReference
  have notBody {name : String} : bodyOf node ≠ some name := by
    intro isBody
    have alone := stems.alone (isSome_properties_of_bodyOf isBody)
    cases isReference.symm.trans alone.2.2
  refine ⟨id, inside.1, rfl, shows, fun name isExpanding => ?_, fun recursive unslashed apart => ?_⟩
  · rcases place.around_of_expanding finishes (fun _ isTag _ => .inr isTag) name isExpanding with
      isAround | isBody | isTag
    · exact .inl isAround
    · exact (notBody isBody).elim
    · exact .inr isTag
  · have whole := refName_of_unslashed (unslashed id inside.1)
    obtain ⟨body, defined⟩ := finishes.exists_body inside.1
    rw [shows.cut, whole, defined]
    have root (name) (isTag : tagOf compiled.schema = some name)
        (isDefined : compiled.definitions.has name = true) :
        bodyOf compiled.schema = some name ∨ False :=
      .inl (finishes.bodyOf_root apart isTag isDefined)
    constructor
    · intro isBare
      have isExpanding := isBare.resolve_right fun undefined => nomatch undefined
      rcases place.around_of_expanding finishes root _ isExpanding with isAround | isBody | no
      · exact isAround
      · exact (notBody isBody).elim
      · exact no.elim
    · intro isAround
      exact .inl (finishes.mem_expanding unslashed compiles recursive place inside isAround)

/-- Linked numbers are cut where they come back, and nowhere else. -/
theorem linkedNumbers_cut_inside :
    ∃ compiled shaped, compile Options.defaults linkedNumbers (.struct 0) = .ok compiled ∧
      ofCompiled compiled = .ok shaped ∧
      ∀ around expanding node shown, Place compiled shaped around expanding node shown →
        node.get? "$ref" = some (.str "#/$defs/Link") → (IsCut shown ↔ "Link" ∈ around) := by
  have linked := @linkedNumbers_throughout Descriptor.IsLinked fun _ => id
  obtain ⟨shaped, shapes, -, references⟩ :=
    @references_cut_where_expanded Options.defaults linkedNumbers (.struct 0) _ rfl
  refine ⟨_, shaped, rfl, shapes, fun around expanding node shown place isReference => ?_⟩
  obtain ⟨id, reached, -, -, -, exact⟩ := references _ _ _ _ _ place isReference
  have isFirst (id : StructId)
      (reached : Descriptor.Reaches linkedNumbers (.struct 0) (.struct id)) : id = 0 := by
    simpa [Descriptor.IsLinked] using linked _ reached
  obtain rfl := isFirst id reached
  apply exact
  · intro id reached _
    rw [isFirst id reached]
  · intro id reached
    rw [isFirst id reached]
    decide
  · intro record _ reached
    simpa [Descriptor.IsLinked] using linked _ reached

/-- Nodes of trees, each with the nodes below it, and a peek that stands for itself. -/
def treesAndPeeks : Store :=
  [⟨"TreeNode", none, [⟨"children", .array (.struct 0), true, none, none⟩], none⟩,
    ⟨"Peek", none, [⟨"line", .scalar .int, true, none, none⟩], none⟩]

def plantedTree : Descriptor :=
  .fixed ⟨[⟨"tree", .struct 0, true, none, none⟩], none, none, none⟩

/-- Two peeks in a record that is called the same. -/
def twoPeeks : Descriptor :=
  .fixed ⟨[⟨"first", .struct 1, true, none, none⟩, ⟨"second", .struct 1, true, none, none⟩],
    some "Peek", none, none⟩

/-- The body of a node of a tree, and its shape over that of the nodes below. -/
def treeBody : Value :=
  Compile.structNode Options.defaults (treesAndPeeks.at 0) [("children", Fields.node
    [("type", .str "array"), ("items", Compile.refNode Options.defaults "TreeNode")])]

def treeShape (below : Value) : Value :=
  Fields.node [("type", .str "object"), ("description", .str "TreeNode struct"),
    ("properties", Fields.node
      [(typeKey, Fields.node [("type", .str "string"), ("enum", .list [.str "TreeNode"])]),
        ("children", Fields.node [("type", .str "array"), ("items", below)])]),
    ("required", .list [.str typeKey, .str "children"])]

def peekBody : Value :=
  Compile.structNode Options.defaults (treesAndPeeks.at 1) [("line", Compile.typeNode "integer")]

def peekShape : Value :=
  Fields.node [("type", .str "object"), ("description", .str "Peek struct"),
    ("properties", Fields.node
      [(typeKey, Fields.node [("type", .str "string"), ("enum", .list [.str "Peek"])]),
        ("line", Compile.typeNode "integer")]),
    ("required", .list [.str typeKey, .str "line"])]

/-- A node of a tree that is first met in a record is written out inside of itself once more; and a
peek that does not come back is cut in a record that shares its name. -/
theorem plantedTree_whole_inside_and_twoPeeks_cut_outside :
    (∃ compiled shaped node shown,
      compile Options.defaults treesAndPeeks plantedTree = .ok compiled ∧
        ofCompiled compiled = .ok shaped ∧ Place compiled shaped ["TreeNode"] [] node shown ∧
        node.get? "$ref" = some (.str "#/$defs/TreeNode") ∧ ¬IsCut shown) ∧
      ∃ compiled shaped node shown,
        compile Options.defaults treesAndPeeks twoPeeks = .ok compiled ∧
          ofCompiled compiled = .ok shaped ∧ Place compiled shaped [] ["Peek"] node shown ∧
          node.get? "$ref" = some (.str "#/$defs/Peek") ∧ IsCut shown := by
  constructor
  · have start := @Place.root
      ⟨Compile.recordNode none none ["tree"] [("tree", treeBody)],
        Value.entriesOf [("TreeNode", treeBody)], "$defs"⟩
      (Fields.node [("type", .str "object"),
        ("properties", Fields.node [("tree", treeShape (treeShape bareObject))]),
        ("required", .list [.str "tree"])])
    have tree := start.inner (@Beside.property _ _ _ _ _ _ _ 0 rfl rfl rfl rfl rfl rfl)
    have children := tree.inner (@Beside.property _ _ _ _ _ _ _ 1 rfl rfl rfl rfl rfl rfl)
    have below := children.inner (.item rfl rfl rfl rfl)
    refine ⟨_, _, _, _, rfl, rfl, below, rfl, fun isCut => ?_⟩
    cases isCut "properties" (by decide)
  · have start := @Place.root
      ⟨Compile.recordNode (some "Peek") none ["first", "second"]
          [("first", peekBody), ("second", Compile.refNode Options.defaults "Peek")],
        Value.entriesOf [("Peek", peekBody)], "$defs"⟩
      (Fields.node [("type", .str "object"), ("properties", Fields.node
          [(typeKey, Fields.node [("type", .str "string"), ("enum", .list [.str "Peek"])]),
            ("first", peekShape), ("second", bareObject)]),
        ("required", .list [.str typeKey, .str "first", .str "second"])])
    have second := start.inner (@Beside.property _ _ _ _ _ _ _ 2 rfl rfl rfl rfl rfl rfl)
    exact ⟨_, _, _, _, rfl, rfl, second, rfl, .refl _⟩

end Gemini

end TypedReply
