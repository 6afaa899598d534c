import TypedReply.Proofs.Schema.Cutting

/-!
# Descriptions of fields in a shape

The description of a field is written on the node of the field. Shaping carries it along with a
plain node and with alternatives, but what a reference is replaced by brings the description of the
struct, or none where the reference is cut; the description beside a reference is lost.
-/

namespace TypedReply

namespace Compile

theorem get?_description_fieldNode {node : Value} (isCompiled : IsCompiled node) (required : Bool)
    {description : Option String} {text : String} (described : nonEmpty description = some text) :
    (fieldNode required description node).get? "description" = some (.str text) := by
  obtain ⟨fields, widened, -⟩ := exists_fieldNode isCompiled required description
  have isNode : fieldNode required description node =
      Fields.node (Fields.put fields "description" (.str text)) := by
    simp only [fieldNode, ← widened, described]
    simp only [Fields.node, Value.ofFields_eq, Value.entries?, put_ofFields]
  rw [isNode, Fields.get?_node, Fields.get?_put_self]

theorem ne_empty_of_nonEmpty {description : Option String} {text : String}
    (described : nonEmpty description = some text) : text ≠ "" := by
  simpa using (Option.filter_eq_some_iff.mp described).2

/-- What the node of a struct says about the struct. -/
def structDescription (options : Options) (struct : Struct) : Option Value :=
  if options.structDescriptions then
    some (.str ((nonEmpty struct.description).getD (struct.name ++ " struct")))
  else none

theorem get?_description_structNode (options : Options) (struct : Struct) (nodes : Fields) :
    (structNode options struct nodes).get? "description" = structDescription options struct := by
  unfold structNode structDescription
  cases options.structDescriptions <;> simp [Fields.get?_cons]

end Compile

namespace Gemini

open Compile (Renders RendersField StandsFor StemsFrom refName)

variable {expand : String → Outcome Value} {node : Value}

theorem get?_description_noted {nullable : Bool} {description : Value} {base : Fields}
    (isTruthy : description.isTruthy = true) :
    (noted nullable (some description) base).get? "description" = some description := by
  unfold noted
  simp [isTruthy]

/-- What is not a reference is shown with its description. -/
theorem get?_description_image (total : ∀ name, IsShape (expand name))
    (isSchema : IsSchema ["properties"] IsTextual node) (noReference : node.get? "$ref" = none)
    {text : String} (nonempty : text ≠ "")
    (described : node.get? "description" = some (.str text)) :
    (shapeImage expand node).get? "description" = some (.str text) := by
  obtain ⟨fields, rfl⟩ := isSchema.exists_fields
  rw [Fields.get?_node] at noReference described
  cases alternatives : fields.get? "anyOf" with
  | some value =>
      obtain ⟨members, rfl, -⟩ := isSchema.members alternatives
      obtain ⟨base, -, -, image⟩ := image_alternatives total isSchema noReference alternatives
      rw [image, Fields.get?_node, described]
      exact get?_description_noted (by simpa [Value.isTruthy, Value.text?] using nonempty)
  | none =>
      obtain ⟨shaped, image, shapes⟩ := image_plain total isSchema noReference alternatives
      rw [image, Fields.get?_node, shapes.description, described]

/-- The shape of a struct says what the node of the struct says about it. -/
theorem get?_description_image_body {options : Options} {struct : Struct} {nodes : Fields}
    (total : ∀ name, IsShape (expand name))
    (isSchema : IsSchema ["properties"] IsTextual (Compile.structNode options struct nodes)) :
    (shapeImage expand (Compile.structNode options struct nodes)).get? "description" =
      Compile.structDescription options struct := by
  obtain ⟨fields, shaped, isNode, image, shapes⟩ := image_structNode total isSchema
  rw [image, Fields.get?_node, shapes.description, ← Fields.get?_node, ← isNode,
    Compile.get?_description_structNode]

variable {options : Options} {store : Store} {target : Descriptor} {compiled : Compiled}
variable {around expanding : List String}

/-- What is said of a described field at a place: its text, unless its node is a reference, and
there nothing if the reference is cut, and what the struct says about itself if not. -/
structure ShowsDescription (options : Options) (store : Store) (target : Descriptor)
    (text : String) (inner innerShown : Value) : Prop where
  written : inner.get? "description" = some (.str text)
  kept : inner.get? "$ref" = none → innerShown.get? "description" = some (.str text)
  replaced : ∀ reference, inner.get? "$ref" = some reference →
    ∃ id, Descriptor.Reaches store target (.struct id) ∧
      reference = .str (options.refPrefix ++ (store.at id).name) ∧
      (IsCut innerShown ∧ innerShown.get? "description" = none ∨
        ∃ other, (store.at other).name = refName (store.at id).name ∧
          innerShown.get? "description" = Compile.structDescription options (store.at other))

/-- The property of a described field is shown with the description of the field, or with that of
what stands for a reference. -/
theorem Finishes.showsDescription {pass : Pass}
    (finishes : Finishes options store target pass compiled)
    (stems : StemsFrom options store (StandsFor options store pass)
      (Inside store target around) node)
    (isSchema : IsSchema ["properties"] IsTextual node) {text : String} (nonempty : text ≠ "")
    (described : node.get? "description" = some (.str text)) :
    ShowsDescription options store target text node
      (shapeImage (replacement compiled.definitions expanding) node) := by
  refine ⟨described, fun noReference => ?_, fun reference isReference => ?_⟩
  · exact get?_description_image (isShape_replacement finishes.schemas _) isSchema noReference
      nonempty described
  · obtain ⟨id, inside, rfl⟩ := stems.reference reference isReference
    refine ⟨id, inside.1, rfl, ?_⟩
    obtain ⟨fields, rfl⟩ := isSchema.exists_fields
    rw [Fields.get?_node] at isReference
    have leads := refName_refPrefix options (store.at id).name
    by_cases isBare : compiled.definitions.get? (refName (store.at id).name) = none ∨
        refName (store.at id).name ∈ expanding
    · rw [image_reference_of_cut fields isReference (by rwa [leads])]
      exact .inl ⟨.refl _, rfl⟩
    · obtain ⟨defined, free⟩ := not_or.mp isBare
      obtain ⟨body, defined⟩ := Option.ne_none_iff_exists'.mp defined
      rw [image_reference fields isReference (by rwa [leads]) (by rwa [leads])]
      obtain ⟨other, nodes, -, isName, -, rfl, -⟩ := finishes.exists_struct defined
      refine .inr ⟨other, isName, ?_⟩
      exact get?_description_image_body (isShape_replacement finishes.schemas _)
        (finishes.schemas _ _ defined)

/-- What a finished pass lets stand for a struct stands for it in the compiled schema. -/
theorem Finishes.stands {pass : Pass} (finishes : Finishes options store target pass compiled)
    {fields : List Field} {nodes : Fields}
    (renders : List.Forall₂ (RendersField (StandsFor options store pass)) fields nodes) :
    List.Forall₂ (RendersField (compiled.Stands options store)) fields nodes := by
  rw [← Compile.rendersFields_iff] at renders ⊢
  refine renders.mono (fun id node stands => ?_) _ _
  exact stands.2.imp_right ((finishes.definitions _).trans ·)

/-- Wherever a record is shown in the shape of a compiled schema, its properties are its tag and its
fields, and a field with a description, the last of its name, is shown with this description unless
the node of the field is a reference: then the description is lost, and what stands for the
reference says of itself what the struct says, or nothing if the reference is cut. -/
theorem field_descriptions_shown (compiles : compile options store target = .ok compiled) :
    ∃ shaped, ofCompiled compiled = .ok shaped ∧
      (∀ shown, Relation.ReflTransGen (Value.Child ["properties"]) shaped shown →
        ∃ around expanding node, Place compiled shaped around expanding node shown) ∧
      ∀ around expanding node shown table, Place compiled shaped around expanding node shown →
        node.get? "properties" = some table →
          ∃ descriptor record nodes, Descriptor.Reaches store target descriptor ∧
            descriptor.record? store = some record ∧
            List.Forall₂ (RendersField (compiled.Stands options store)) record.fields nodes ∧
            table = Compile.propertiesOf record.name nodes ∧
            ∀ before field after text, record.fields = before ++ field :: after →
              field.name ∉ after.map (·.name) → Compile.nonEmpty field.description = some text →
                ∃ inner innerShown,
                  Place compiled shaped ((bodyOf node).toList ++ around) expanding inner
                    innerShown ∧
                  table.get? field.name = some inner ∧
                  (shown.get? "properties").bind (·.get? field.name) = some innerShown ∧
                  ShowsDescription options store target text inner innerShown := by
  obtain ⟨pass, finishes⟩ := exists_finishes compiles
  have shapes := ofCompiled_eq finishes.isSchema finishes.schemas
  refine ⟨_, shapes, fun shown => exists_place finishes.isSchema finishes.schemas shapes, ?_⟩
  intro around expanding node shown table place declared
  have stems := place.stemsFrom finishes
  obtain ⟨isSchema, agrees⟩ := finishes.agrees shapes place
  obtain ⟨descriptor, record, nodes, inside, isRecord, renders, rfl, -⟩ :=
    stems.properties table declared
  obtain ⟨-, noAlternatives, noReference⟩ := stems.alone (by rw [declared]; rfl)
  refine ⟨descriptor, record, nodes, inside.1, isRecord, finishes.stands renders, rfl, ?_⟩
  intro before field after text split last described
  rw [split] at renders
  obtain ⟨earlier, ⟨name, inner⟩, later, rfl, ⟨free, isName, typeNode, follows, isNode⟩, rest⟩ :=
    exists_split_of_aligned renders
  obtain rfl : name = field.name := isName
  obtain rfl : inner = Compile.fieldNode field.required field.description typeNode := isNode
  have isLast : field.name ∉ later.map Prod.fst := by
    rwa [Compile.map_fst_of_renders rest]
  have found := Fields.get?_putAll_of_last (record.name.toList.map fun name =>
    (typeKey, Compile.tagNode name)) earlier
    (Compile.fieldNode field.required field.description typeNode) isLast
  obtain ⟨beside, isShown⟩ := beside_property (isShape_replacement finishes.schemas expanding)
    isSchema agrees noReference noAlternatives declared found
  refine ⟨_, _, place.inner beside, ?_, isShown, ?_⟩
  · rw [Compile.propertiesOf, Fields.get?_node, found]
  · exact finishes.showsDescription (finishes.beside stems beside)
      (finishes.agrees shapes (place.inner beside)).1 (Compile.ne_empty_of_nonEmpty described)
      (Compile.get?_description_fieldNode (follows.isCompiled finishes.draws.compiled) _ described)

/-- The way between two points says where it ends: the point there is an alternative to null, which
carries the description of its field. -/
theorem wayBetween_described :
    ∃ compiled shaped inner innerShown,
      compile Options.defaults points wayBetween = .ok compiled ∧
        ofCompiled compiled = .ok shaped ∧ Place compiled shaped [] [] inner innerShown ∧
        (shaped.get? "properties").bind (·.get? "stop") = some innerShown ∧
        innerShown.get? "description" = some (.str "Where it ends.") := by
  obtain ⟨shaped, shapes, -, fields⟩ :=
    @field_descriptions_shown Options.defaults points wayBetween _ rfl
  obtain ⟨descriptor, record, nodes, reached, isRecord, -, isTable, described⟩ :=
    fields _ _ _ _ _ .root rfl
  have known := wayBetween_throughout (fun _ => id) descriptor reached
  -- The properties of the root begin with no tag, so they are those of the record, not of a point.
  obtain rfl : descriptor = wayBetween := by
    simp only [List.mem_cons, List.not_mem_nil, or_false] at known
    rcases known with rfl | rfl | rfl | rfl
    · rfl
    · cases isRecord
      have untagged : (Compile.propertiesOf (some "Point") nodes).get? typeKey = none :=
        isTable ▸ rfl
      rw [Compile.propertiesOf, Fields.get?_node, Fields.get?_eq_none_iff] at untagged
      exact (untagged (Fields.mem_map_fst_putAll.mpr (.inl (List.mem_singleton_self _)))).elim
    · cases isRecord
    · cases isRecord
  cases isRecord
  obtain ⟨inner, innerShown, place, found, isShown, shows⟩ :=
    described [_] ⟨"stop", .optional (.struct 0), false, some "Where it ends.", none⟩ [] _ rfl
      List.not_mem_nil rfl
  refine ⟨_, shaped, inner, innerShown, rfl, shapes, place, isShown, shows.kept ?_⟩
  cases found
  rfl

/-- Two peeks, the second of which is described. -/
def describedPeeks : Descriptor :=
  .fixed ⟨[⟨"first", .struct 1, true, none, none⟩,
    ⟨"second", .struct 1, true, some "Where to look next.", none⟩], none, none, none⟩

/-- The second peek is a reference, and what stands for it says what the struct says of itself. -/
theorem describedPeeks_lose_description :
    ∃ compiled shaped inner innerShown,
      compile Options.defaults treesAndPeeks describedPeeks = .ok compiled ∧
        ofCompiled compiled = .ok shaped ∧ Place compiled shaped [] [] inner innerShown ∧
        (shaped.get? "properties").bind (·.get? "second") = some innerShown ∧
        inner.get? "description" = some (.str "Where to look next.") ∧
        innerShown.get? "description" = some (.str "Peek struct") := by
  have start := @Place.root
    ⟨Compile.recordNode none none ["first", "second"] [("first", peekBody), ("second", Fields.node
        [("$ref", .str "#/$defs/Peek"), ("description", .str "Where to look next.")])],
      Value.entriesOf [("Peek", peekBody)], "$defs"⟩
    (Fields.node [("type", .str "object"),
      ("properties", Fields.node [("first", peekShape), ("second", peekShape)]),
      ("required", .list [.str "first", .str "second"])])
  have second := start.inner (@Beside.property _ _ _ _ _ _ _ 1 rfl rfl rfl rfl rfl rfl)
  exact ⟨_, _, _, _, rfl, rfl, second, rfl, rfl, rfl⟩

end Gemini

end TypedReply
