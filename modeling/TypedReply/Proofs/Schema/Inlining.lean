import TypedReply.Proofs.Schema.Likeness
import TypedReply.Proofs.Schema.Narrowing

/-!
# Inlining references

Shaping writes out what a reference refers to, whatever cycles the references form. A name is not
expanded inside its own expansion, so every expansion leaves fewer names to expand, and between two
expansions the nodes get smaller. What is left at the end are nodes of Gemini's subset, wherever a
schema stands in the shape.
-/

namespace TypedReply

/-- A condition holds of a schema and of every schema that stands in it. -/
def Value.Everywhere (condition : Value → Prop) (schema : Value) : Prop :=
  ∀ node, Relation.ReflTransGen (Value.Child ["properties"]) schema node → condition node

theorem Value.Everywhere.of_children {condition : Value → Prop} {schema : Value}
    (here : condition schema)
    (children : ∀ sub, Value.Child ["properties"] schema sub → sub.Everywhere condition) :
    schema.Everywhere condition := by
  intro node reaches
  rcases reaches.cases_head with rfl | ⟨sub, isChild, reaches⟩
  · exact here
  · exact children sub isChild node reaches

theorem Value.Everywhere.child {condition : Value → Prop} {schema sub : Value}
    (everywhere : schema.Everywhere condition) (isChild : Value.Child ["properties"] schema sub) :
    sub.Everywhere condition :=
  fun node reaches => everywhere node (.head isChild reaches)

theorem Value.Child.sizeOf_lt {tables : List String} {node sub : Value}
    (isChild : Value.Child tables node sub) : sizeOf sub < sizeOf node := by
  cases isChild with
  | entry _ found isEntry =>
      have table := Value.sizeOf_lt_of_get? found
      have inside := List.sizeOf_lt_of_mem isEntry
      have held (entry : Value × Value) : sizeOf entry.2 < sizeOf entry := by
        cases entry
        simp only [Prod.mk.sizeOf_spec]
        omega
      simp only [Value.object.sizeOf_spec] at table
      exact (held _).trans (by omega)
  | inside _ found => exact Value.sizeOf_lt_of_get? found
  | member found isMember =>
      exact (Value.sizeOf_lt_of_mem_list isMember).trans (Value.sizeOf_lt_of_get? found)

namespace Gemini

variable {definitions : Value.Entries} {expanding : List String}

/-! ## Names to expand -/

/-- The names of definitions that are not being expanded. -/
def pending (definitions : Value.Entries) (expanding : List String) : List String :=
  (definitions.filterMap (·.1.text?)).filter fun name => !expanding.contains name

theorem length_pending_le (definitions : Value.Entries) (expanding : List String) :
    (pending definitions expanding).length ≤ definitions.length :=
  (List.length_filter_le _ _).trans (List.length_filterMap_le _ _)

theorem mem_pending {name : String} {target : Value} (defined : definitions.get? name = some target)
    (free : name ∉ expanding) : name ∈ pending definitions expanding := by
  obtain ⟨⟨key, _⟩, hit, rfl⟩ := Option.map_eq_some_iff.mp defined
  have isKey : key.text? = some name := by
    simpa [Value.isText] using List.find?_some hit
  apply List.mem_filter.mpr
  exact ⟨List.mem_filterMap.mpr ⟨_, List.mem_of_find?_eq_some hit, isKey⟩, by simpa using free⟩

/-- Expanding a name leaves fewer names to expand. -/
theorem pending_lt {name : String} {target : Value} (defined : definitions.get? name = some target)
    (free : name ∉ expanding) :
    (pending definitions (name :: expanding)).length < (pending definitions expanding).length := by
  have fewer : pending definitions (name :: expanding) =
      (pending definitions expanding).filter (· != name) := by
    rw [pending, pending, List.filter_filter]
    congr 1
    funext other
    simp only [List.contains_cons, Bool.not_or]
    rfl
  rw [fewer, List.length_filter_lt_length_iff_exists]
  exact ⟨name, mem_pending defined free, by simp⟩

/-! ## Termination -/

/-- The shapes that the shape of a node takes: those of the schemas that stand in it, and that of
the definition that it refers to, inside which the name is being expanded. -/
inductive Calls (definitions : Value.Entries) : List String × Value → List String × Value → Prop
  where
  | part {expanding : List String} {node sub : Value}
      (isPart : Value.Child ["properties"] node sub) :
      Calls definitions (expanding, sub) (expanding, node)
  | definition {expanding : List String} {node target : Value} {reference : String}
      (isReference : node.get? "$ref" = some (.str reference))
      (defined : definitions.get? (Compile.refName reference) = some target)
      (free : Compile.refName reference ∉ expanding) :
      Calls definitions (Compile.refName reference :: expanding, target) (expanding, node)

theorem wellFounded_calls (definitions : Value.Entries) : WellFounded (Calls definitions) := by
  -- A definition may be larger than the reference to it, so the names that are left come first.
  refine Subrelation.wf ?_ (InvImage.wf
    (fun call : List String × Value => ((pending definitions call.1).length, sizeOf call.2))
    (Prod.lex Nat.lt_wfRel Nat.lt_wfRel).wf)
  intro callee caller calls
  cases calls with
  | part isPart => exact Prod.Lex.right _ isPart.sizeOf_lt
  | definition _ defined free => exact Prod.Lex.left _ _ (pending_lt defined free)

/-! ## Fuel -/

/-- What a reference is expanded to does not depend on the fuel, if there is some for every name
that is not being expanded. -/
theorem expansion_eq_of_enough {fuel more : Nat}
    (enough : (pending definitions expanding).length ≤ fuel)
    (alsoEnough : (pending definitions expanding).length ≤ more) :
    expansion definitions fuel expanding = expansion definitions more expanding := by
  have bare {expanding : List String} {name : String} (fuel : Nat)
      (isBare : definitions.get? name = none ∨ name ∈ expanding) :
      expansion definitions fuel expanding name = .ok bareObject := by
    cases fuel with
    | zero => rfl
    | succ fuel =>
        rw [expansion]
        rcases isBare with undefined | inside
        · rw [undefined]
        · cases definitions.get? name with
          | none => rfl
          | some definition => exact if_pos (by simpa using inside)
  induction fuel generalizing more expanding with
  | zero =>
      funext name
      have isBare : definitions.get? name = none ∨ name ∈ expanding := by
        by_contra other
        obtain ⟨defined, free⟩ := not_or.mp other
        obtain ⟨target, defined⟩ := Option.ne_none_iff_exists'.mp defined
        have isPending := List.length_pos_of_mem (mem_pending defined free)
        omega
      rw [bare 0 isBare, bare more isBare]
  | succ fuel ih =>
      funext name
      by_cases isBare : definitions.get? name = none ∨ name ∈ expanding
      · rw [bare _ isBare, bare _ isBare]
      · obtain ⟨defined, free⟩ := not_or.mp isBare
        obtain ⟨target, defined⟩ := Option.ne_none_iff_exists'.mp defined
        have fewer := pending_lt defined free
        cases more with
        | zero => omega
        | succ more =>
            have same := @ih (name :: expanding) more (by omega) (by omega)
            simp only [expansion, defined, shape_eq, same]

/-- The shape of a node where some names are being expanded. -/
def inlined (definitions : Value.Entries) (expanding : List String) (node : Value) :
    Outcome Value :=
  shape definitions (definitions.length + 1) expanding node

/-- What a reference is replaced by: a bare object if there is no definition of its name or it is
being expanded, and else the shape of the definition, inside which it is being expanded. -/
def replacement (definitions : Value.Entries) (expanding : List String) (name : String) :
    Outcome Value :=
  match definitions.get? name with
  | some definition =>
    if expanding.contains name then .ok bareObject
    else inlined definitions (name :: expanding) definition
  | none => .ok bareObject

theorem expansion_eq_replacement {fuel : Nat}
    (enough : (pending definitions expanding).length ≤ fuel) :
    expansion definitions fuel expanding = replacement definitions expanding := by
  have bound := length_pending_le definitions expanding
  rw [@expansion_eq_of_enough _ _ fuel (definitions.length + 2) enough (by omega)]
  funext name
  rw [expansion, replacement]
  rfl

theorem shape_eq_inlined {fuel : Nat} (enough : definitions.length ≤ fuel) (node : Value) :
    shape definitions fuel expanding node = inlined definitions expanding node := by
  have bound := length_pending_le definitions expanding
  rw [inlined, shape_eq, shape_eq,
    expansion_eq_of_enough (bound.trans enough) (bound.trans (Nat.le_succ _))]

/-- The shape of a node follows from those of its parts and of what its references are replaced
by. -/
theorem inlined_eq (definitions : Value.Entries) (expanding : List String) (node : Value) :
    inlined definitions expanding node =
      shapeWith (replacement definitions expanding) node := by
  have bound := length_pending_le definitions expanding
  rw [inlined, shape_eq, expansion_eq_replacement (by omega)]

/-- Shaping tells three kinds of schemas apart: references, alternatives, and plain nodes, in which
properties and items stand. -/
@[elab_as_elim]
theorem shaping_induction {motive : Value → Prop} {schema : Value}
    (isSchema : IsSchema ["properties"] IsTextual schema)
    (reference : ∀ fields reference, fields.get? "$ref" = some (.str reference) →
      motive (Fields.node fields))
    (alternatives : ∀ fields members, IsSchema ["properties"] IsTextual (Fields.node fields) →
      fields.get? "$ref" = none → fields.get? "anyOf" = some (.list members) →
        (∀ member ∈ members, motive member) → motive (Fields.node fields))
    (plain : ∀ fields, IsSchema ["properties"] IsTextual (Fields.node fields) →
      fields.get? "$ref" = none → fields.get? "anyOf" = none →
        (∀ table, fields.get? "properties" = some (.object table) →
          ∀ inner ∈ table.map Prod.snd, motive inner) →
        (∀ inner, fields.get? "items" = some inner → motive inner) →
          motive (Fields.node fields)) : motive schema := by
  induction isSchema with
  | node fields regular meets isTable inTable items additional isList among
      tables inside _ members =>
      have isSchema :=
        IsSchema.node fields regular meets isTable inTable items additional isList among
      cases isReference : fields.get? "$ref" with
      | some value =>
          obtain ⟨name, rfl⟩ := meets.reference value isReference
          exact reference fields name isReference
      | none =>
          cases areAlternatives : fields.get? "anyOf" with
          | some value =>
              obtain ⟨listed, rfl⟩ := isList value areAlternatives
              exact alternatives fields listed isSchema isReference areAlternatives
                (members listed areAlternatives)
          | none =>
              refine plain fields isSchema isReference areAlternatives ?_ inside
              intro table declared inner isProperty
              obtain ⟨properties, isTabled⟩ := isTable "properties" (by simp) _ declared
              cases isTabled
              obtain ⟨_, isEntry, rfl⟩ := List.mem_map.mp isProperty
              obtain ⟨property, isListed, rfl⟩ := List.mem_map.mp isEntry
              exact tables "properties" (by simp) properties declared property isListed

/-! ## Gemini's subset -/

def subsetKeywords : List String :=
  ["type", "nullable", "description", "format", "enum", "properties", "required", "items", "anyOf"]

/-- A node that carries keywords of the subset only, and each of them once. -/
def IsSubsetNode (node : Value) : Prop :=
  ∃ fields, node = Fields.node fields ∧ (fields.map Prod.fst).Nodup ∧
    fields.map Prod.fst ⊆ subsetKeywords

theorem IsSubsetNode.get?_eq_none {node : Value} (isSubset : IsSubsetNode node) {keyword : String}
    (other : keyword ∉ subsetKeywords) : node.get? keyword = none := by
  obtain ⟨fields, rfl, -, known⟩ := isSubset
  rw [Fields.get?_node]
  exact Fields.get?_eq_none_of_not_mem fun isName => other (known isName)

/-- A node of the subset over such nodes. -/
theorem everywhere_of_parts {fields : Fields} (distinct : (fields.map Prod.fst).Nodup)
    (known : ∀ name ∉ subsetKeywords, fields.get? name = none)
    (properties : ∀ table, fields.get? "properties" = some (.object table) →
      ∀ entry ∈ table, entry.2.Everywhere IsSubsetNode)
    (items : ∀ sub, fields.get? "items" = some sub → sub.Everywhere IsSubsetNode)
    (members : ∀ among, fields.get? "anyOf" = some (.list among) →
      ∀ member ∈ among, member.Everywhere IsSubsetNode) :
    (Fields.node fields).Everywhere IsSubsetNode := by
  have isSubset : IsSubsetNode (Fields.node fields) := by
    refine ⟨fields, rfl, distinct, fun name isName => ?_⟩
    by_contra other
    exact Fields.get?_eq_none_iff.mp (known name other) isName
  apply Value.Everywhere.of_children isSubset
  intro sub isChild
  cases isChild with
  | entry isTable found isEntry =>
      obtain rfl := List.mem_singleton.mp isTable
      exact properties _ (by simpa using found) _ isEntry
  | inside isKeyword found =>
      rcases isKeyword with rfl | rfl
      · exact items sub (by simpa using found)
      · rw [isSubset.get?_eq_none (by decide)] at found
        cases found
  | member found isMember => exact members _ (by simpa using found) _ isMember

theorem everywhere_bareObject : bareObject.Everywhere IsSubsetNode := by
  apply everywhere_of_parts <;> simp +contextual [Fields.get?_cons, subsetKeywords]

theorem everywhere_noted {base : Fields} (distinct : (base.map Prod.fst).Nodup)
    (everywhere : (Fields.node base).Everywhere IsSubsetNode) (nullable : Bool)
    (description : Option Value) :
    (Fields.node (noted nullable description base)).Everywhere IsSubsetNode := by
  apply everywhere_of_parts (nodup_noted distinct _ _)
  · intro name other
    have apart : name ≠ "nullable" ∧ name ≠ "description" := by
      constructor <;> exact fun same => other (same ▸ by decide)
    rw [get?_noted_of_ne apart, ← Fields.get?_node]
    exact (everywhere _ .refl).get?_eq_none other
  · intro table found entry isEntry
    rw [get?_noted_of_ne (by decide)] at found
    exact everywhere.child (.entry (List.mem_singleton_self _) (by simpa using found) isEntry)
  · intro sub found
    rw [get?_noted_of_ne (by decide)] at found
    exact everywhere.child (.inside (.inl rfl) (by simpa using found))
  · intro among found member isMember
    rw [get?_noted_of_ne (by decide)] at found
    exact everywhere.child (.member (by simpa using found) isMember)

theorem everywhere_base {expand : String → Outcome Value} {others : List Value} {base : Fields}
    (isBase : IsBase expand others base)
    (each : ∀ member ∈ others, (shapeImage expand member).Everywhere IsSubsetNode) :
    (Fields.node base).Everywhere IsSubsetNode := by
  have several (isSeveral : base = [("anyOf", .list (others.map (shapeImage expand)))]) :
      (Fields.node base).Everywhere IsSubsetNode := by
    subst isSeveral
    apply everywhere_of_parts <;>
      simp +contextual [Fields.get?_cons, subsetKeywords, each, eq_comm]
  match others, isBase with
  | [single], isSingle => exact isSingle ▸ each single List.mem_cons_self
  | [], isSeveral => exact several isSeveral
  | _ :: _ :: _, isSeveral => exact several isSeveral

/-- The shape of a plain node is in the subset where those of its properties and items are. -/
theorem everywhere_plain {expand : String → Outcome Value} {fields shaped : Fields}
    (shapes : ShapesTo (shapeImage expand) fields shaped)
    (properties : ∀ table, fields.get? "properties" = some (.object table) →
      ∀ inner ∈ table.map Prod.snd, (shapeImage expand inner).Everywhere IsSubsetNode)
    (items : ∀ inner, fields.get? "items" = some inner →
      (shapeImage expand inner).Everywhere IsSubsetNode) :
    (Fields.node shaped).Everywhere IsSubsetNode := by
  apply everywhere_of_parts shapes.distinct
  · intro name other
    exact shapes.get?_of_not_mem fun isKeyword => other (List.mem_append_left ["anyOf"] isKeyword)
  · intro table declared shownEntry isShown
    rw [shapes.properties] at declared
    obtain ⟨given, isGiven, isTabled⟩ := Option.map_eq_some_iff.mp declared
    cases isTabled
    obtain ⟨entry, isEntry, rfl⟩ := List.mem_map.mp isShown
    cases entries : given.entries? with
    | none => simp [entries] at isEntry
    | some table =>
        obtain rfl := Value.entries?_eq_some_iff.mp entries
        exact properties table isGiven _ (List.mem_map_of_mem isEntry)
  · intro sub isItems
    rw [shapes.items] at isItems
    obtain ⟨inner, isInner, rfl⟩ := Option.map_eq_some_iff.mp isItems
    exact items inner isInner
  · intro among isAmong
    rw [shapes.get?_of_not_mem (by decide)] at isAmong
    cases isAmong

theorem everywhere_image {expand : String → Outcome Value} (total : ∀ name, IsShape (expand name))
    (replaced : ∀ name shaped, expand name = .ok shaped → shaped.Everywhere IsSubsetNode)
    {schema : Value} (isSchema : IsSchema ["properties"] IsTextual schema) :
    (shapeImage expand schema).Everywhere IsSubsetNode := by
  refine shaping_induction isSchema ?reference ?alternatives ?plain
  case reference =>
    intro fields reference isReference
    obtain ⟨shaped, -, isShape⟩ := total (Compile.refName reference)
    rw [shapeImage, shapeWith_reference isReference, isShape]
    exact replaced _ _ isShape
  case alternatives =>
    intro fields members isSchema noReference areMembers each
    obtain ⟨base, distinct, isBase, image⟩ :=
      image_alternatives total isSchema noReference areMembers
    rw [image]
    refine everywhere_noted distinct (everywhere_base isBase fun member isOther => ?_) _ _
    exact each member (List.mem_of_mem_filter isOther)
  case plain =>
    intro fields isSchema noReference noAlternatives properties items
    obtain ⟨shaped, image, shapes⟩ := image_plain total isSchema noReference noAlternatives
    rw [image]
    exact everywhere_plain shapes properties items

/-- What a reference is expanded to lies in the subset where the definitions are schemas. -/
theorem everywhere_expansion
    (schemas : ∀ name target, definitions.get? name = some target →
      IsSchema ["properties"] IsTextual target) (fuel : Nat) (expanding : List String)
    (name : String) (shaped : Value)
    (isShaped : expansion definitions fuel expanding name = .ok shaped) :
    shaped.Everywhere IsSubsetNode := by
  induction fuel generalizing expanding name shaped with
  | zero => exact Except.ok.inj isShaped ▸ everywhere_bareObject
  | succ fuel ih =>
      rw [expansion] at isShaped
      cases found : definitions.get? name with
      | none =>
          rw [found] at isShaped
          exact Except.ok.inj isShaped ▸ everywhere_bareObject
      | some definition =>
          simp only [found] at isShaped
          split at isShaped
          · exact Except.ok.inj isShaped ▸ everywhere_bareObject
          · have isSchema := schemas name definition found
            have total := isShape_expansion schemas fuel (name :: expanding)
            rw [shape_eq, (exists_shape total isSchema).eq_image] at isShaped
            exact Except.ok.inj isShaped ▸ everywhere_image total (ih _) isSchema

/-- Shaping ends for every schema beside every table of schemas, whatever their references lead to:
no descent into schemas and definitions is endless, and the shape is the same with any fuel that
suffices for the definitions. Wherever a schema stands in the shape, it carries keywords of the
subset only, whatever its properties are called. -/
theorem inlining_ends_in_subset {compiled : Compiled}
    (isSchema : IsSchema ["properties"] IsTextual compiled.schema)
    (schemas : ∀ name target, compiled.definitions.get? name = some target →
      IsSchema ["properties"] IsTextual target) :
    WellFounded (Calls compiled.definitions) ∧
      ∃ expanding shaped, rootName compiled = .ok expanding ∧ ofCompiled compiled = .ok shaped ∧
        (∀ fuel ≥ compiled.definitions.length,
          shape compiled.definitions fuel expanding compiled.schema = .ok shaped) ∧
        ∀ node, Relation.ReflTransGen (Value.Child ["properties"]) shaped node →
          IsSubsetNode node ∧ node.get? "$ref" = none ∧ node.get? "const" = none ∧
            node.get? "additionalProperties" = none := by
  have shapes := ofCompiled_eq isSchema schemas
  refine ⟨wellFounded_calls _, _, _, rootName_eq (fun _ => IsTextual.constant) isSchema, shapes,
    ?_, ?_⟩
  · intro fuel enough
    have total := isShape_expansion schemas (compiled.definitions.length + 1)
      ((tagOf compiled.schema).toList.filter compiled.definitions.has)
    rw [shape_eq_inlined enough, inlined, shape_eq]
    exact (exists_shape total isSchema).eq_image
  · intro node reaches
    have isSubset :=
      everywhere_image (isShape_expansion schemas _ _) (everywhere_expansion schemas _ _)
        isSchema node reaches
    exact ⟨isSubset, isSubset.get?_eq_none (by decide), isSubset.get?_eq_none (by decide),
      isSubset.get?_eq_none (by decide)⟩

/-- A table in which a definition refers to itself, to another that refers back, and to one that is
missing, with properties that are called like keywords. -/
def tangledTable : Compiled where
  schema := Fields.node [("type", .str "object"), ("properties", Fields.node
    [("$ref", Fields.node [("$ref", .str "#/$defs/A")]),
      ("const", Fields.node [("type", .str "string"), ("const", .str "here")])])]
  definitions := Value.entriesOf
    [("A", Fields.node [("anyOf", .list [Fields.node [("$ref", .str "#/$defs/A")],
        Fields.node [("$ref", .str "#/$defs/B")],
        Fields.node [("$ref", .str "#/$defs/Missing")]])]),
      ("B", Fields.node [("$ref", .str "#/$defs/A")])]
  defsKey := "$defs"

theorem isSchema_tangledTable :
    IsSchema ["properties"] IsTextual tangledTable.schema ∧
      ∀ name target, tangledTable.definitions.get? name = some target →
        IsSchema ["properties"] IsTextual target := by
  have refers (reference : String) :
      IsSchema ["properties"] IsTextual (Fields.node [("$ref", .str reference)]) := by
    apply IsSchema.leaf
    · constructor <;> simp [Fields.get?_cons, emittedKeywords, keywordNames]
    · constructor <;> simp [Fields.get?_cons]
    all_goals simp [Fields.get?_cons]
  have tag : IsSchema ["properties"] IsTextual (Compile.tagNode "here") := by
    apply IsSchema.leaf
    · constructor <;> simp [Fields.get?_cons, emittedKeywords, keywordNames]
    · constructor <;> simp [Fields.get?_cons]
    all_goals simp [Fields.get?_cons]
  constructor
  · apply IsSchema.node
    · constructor <;> simp [Fields.get?_cons, emittedKeywords, keywordNames]
    · constructor <;> simp [Fields.get?_cons]
    all_goals simp +contextual [Fields.get?_cons, Fields.node_inj]
    rintro name property (⟨-, rfl⟩ | ⟨-, rfl⟩)
    · exact refers _
    · exact tag
  · intro name target found
    rw [tangledTable, Value.get?_entriesOf] at found
    rcases List.mem_pair.mp (Fields.mem_of_get? found) with isFirst | isSecond
    · obtain ⟨-, rfl⟩ := Prod.mk.inj isFirst
      apply IsSchema.node
      · constructor <;> simp [Fields.get?_cons, emittedKeywords, keywordNames]
      · constructor <;> simp [Fields.get?_cons]
      all_goals simp +contextual [Fields.get?_cons, refers]
    · obtain ⟨-, rfl⟩ := Prod.mk.inj isSecond
      exact refers _

/-- The tangled table is shaped into the subset, and its references are cut where they come back. -/
theorem tangledTable_ends_in_subset :
    ((IsSchema ["properties"] IsTextual tangledTable.schema) ∧
      ∀ name target, tangledTable.definitions.get? name = some target →
        IsSchema ["properties"] IsTextual target) ∧
      WellFounded (Calls tangledTable.definitions) ∧
      ∃ shaped, ofCompiled tangledTable = .ok shaped ∧
        ∀ node, Relation.ReflTransGen (Value.Child ["properties"]) shaped node →
          IsSubsetNode node := by
  obtain ⟨ends, _, shaped, -, shapes, -, subset⟩ :=
    inlining_ends_in_subset isSchema_tangledTable.1 isSchema_tangledTable.2
  exact ⟨isSchema_tangledTable, ends, shaped, shapes, fun node reaches => (subset node reaches).1⟩

end Gemini

end TypedReply
