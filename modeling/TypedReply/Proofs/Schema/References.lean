import TypedReply.Proofs.Schema.Cutting
import TypedReply.Proofs.Schema.Documents
import TypedReply.Proofs.Schema.Pointer

/-!
# Where references lead

A reference is made of the key of the definitions and the name of a struct, as they stand. As a pointer
into the document it is read as the two only if neither has a character that pointers escape, and then
it leads to the definition of the struct. Gemini's shape looks up the part of it after the last slash,
which is the name of the struct only if that has no slash.
-/

namespace TypedReply

namespace Gemini

open Compile (RendersField refName)

variable {options : Options} {store : Store} {target : Descriptor} {compiled : Compiled}

/-- What stands for a struct in a compiled schema: a reference to it or its definition. -/
def IsDrawn (options : Options) (store : Store) (compiled : Compiled) (id : StructId) (node : Value) :
    Prop :=
  node = Compile.refNode options (store.at id).name ∨
    compiled.definitions.get? (store.at id).name = some node

/-- The node of a struct, made of the nodes of its fields. -/
def IsNodeOf (options : Options) (store : Store) (compiled : Compiled) (id : StructId)
    (node : Value) : Prop :=
  ∃ nodes, List.Forall₂ (RendersField (IsDrawn options store compiled)) (store.at id).fields nodes ∧
    node = Compile.structNode options (store.at id) nodes

theorem Finishes.exists_isNodeOf {pass : Pass} (finishes : Finishes options store target pass compiled)
    {name : String} {body : Value} (defined : compiled.definitions.get? name = some body) :
    ∃ id, Descriptor.Reaches store target (.struct id) ∧ (store.at id).name = name ∧
      IsNodeOf options store compiled id body := by
  obtain ⟨id, nodes, reached, isName, renders, isBody, -⟩ := finishes.exists_struct defined
  refine ⟨id, reached, isName, nodes, renders.imp fun field entry isRendered => ?_, isBody⟩
  obtain ⟨free, isField, inner, isInner, isEntry⟩ := isRendered
  refine ⟨free, isField, inner, isInner.mono ?_, isEntry⟩
  exact fun id node stands => stands.2.imp_right (finishes.definitions _).trans

theorem Finishes.eq_of_name_eq {pass : Pass} (finishes : Finishes options store target pass compiled)
    {id other : StructId} (reached : Descriptor.Reaches store target (.struct id))
    (reachedOther : Descriptor.Reaches store target (.struct other))
    (same : (store.at other).name = (store.at id).name) : other = id := by
  have known := finishes.lookup reachedOther
  rw [same, finishes.lookup reached] at known
  exact (Option.some.inj known).symm

/-! ## Documents -/

/-- If a node is a reference, it is one to a struct that is reached. -/
def RefersToReached (options : Options) (store : Store) (target : Descriptor) (fields : Fields) :
    Prop :=
  ∀ reference, fields.get? "$ref" = some reference →
    ∃ id, Descriptor.Reaches store target (.struct id) ∧
      reference = .str (options.refPrefix ++ (store.at id).name)

theorem permits_refersToReached (options : Options) (store : Store) (target : Descriptor) :
    Compile.Permits options store (Descriptor.Reaches store target)
      (RefersToReached options store target) where
  typed _ _ none reference found := by
    rw [none] at found
    cases found
  enum type fields _ isNode reference found := by
    obtain ⟨kinds, choices, isEnum⟩ := Compile.exists_enumNode type
    obtain rfl := Fields.node_inj.mp (isNode.symm.trans isEnum)
    simp [Fields.get?_cons] at found
  ref id reached reference found := by
    have same : reference = .str (options.refPrefix ++ (store.at id).name) := by
      simpa [Fields.get?_cons, eq_comm] using found
    exact ⟨id, reached, same⟩
  described text refers reference found :=
    refers reference ((Fields.get?_put_of_ne _ _ (by decide)).symm.trans found)

/-- Every reference in a document is one to a struct that is reached. -/
theorem exists_struct_of_reference (compiles : compile options store target = .ok compiled)
    (free : options.defsKey ∉ emittedKeywords) {node reference : Value}
    (reaches : Relation.ReflTransGen (Value.Child ["properties", options.defsKey])
      (compiled.document none) node) (isReference : node.get? "$ref" = some reference) :
    ∃ id, Descriptor.Reaches store target (.struct id) ∧
      reference = .str (options.refPrefix ++ (store.at id).name) := by
  have isSchema := isSchema_document compiles free (permits_refersToReached options store target)
    fun definitions refers reference found => by
      refine refers reference ((Fields.get?_put_of_ne _ _ ?_).symm.trans found)
      intro isKey
      exact free (isKey ▸ by decide)
  rcases isSchema.reaches reaches with rfl | isNode
  · cases isReference
  · obtain ⟨fields, rfl⟩ := isNode.exists_fields
    rw [Fields.get?_node] at isReference
    exact isNode.meets reference isReference

theorem get?_defsKey_document (compiles : compile options store target = .ok compiled) {name : String}
    {body : Value} (defined : compiled.definitions.get? name = some body) :
    (compiled.document none).get? options.defsKey = some (.object compiled.definitions) := by
  obtain ⟨_, finishes⟩ := exists_finishes compiles
  obtain ⟨fields, isNode⟩ := finishes.isSchema.exists_fields
  obtain ⟨pass, -, isCompiled⟩ := Compile.exists_pass_of_compile compiles
  have areDefinitions := congrArg Compiled.definitions isCompiled
  have isDocument : compiled.document none =
      Fields.node (mounted options.defsKey fields pass.definitions) := by
    rw [isCompiled, isNode, document_eq_mounted]
  have notEmpty : ¬pass.definitions.isEmpty = true := by
    intro isEmpty
    rw [areDefinitions, List.isEmpty_iff.mp isEmpty] at defined
    cases defined
  rw [isDocument, Fields.get?_node, mounted, if_neg notEmpty, Fields.get?_put_self, areDefinitions]
  rfl

theorem resolve_of_plain (compiles : compile options store target = .ok compiled) {name : String}
    {body : Value} (defined : compiled.definitions.get? name = some body)
    (plainKey : Pointer.IsPlain options.defsKey) (plainName : Pointer.IsPlain name) :
    Pointer.resolve (compiled.document none) (options.refPrefix ++ name) = some body := by
  have isRead : Pointer.read (options.refPrefix ++ name) = some [options.defsKey, name] :=
    (Pointer.read_eq_pair_iff _ _).mpr ⟨plainKey, plainName⟩
  have key : (compiled.document none).step options.defsKey = some (.object compiled.definitions) :=
    get?_defsKey_document compiles defined
  have named : (Value.object compiled.definitions).step name = some body := defined
  simp [Pointer.resolve, isRead, key, named]

/-! ## Shapes -/

theorem refName_eq_self_iff (name : String) : refName name = name ↔ '/' ∉ name.toList := by
  refine ⟨fun whole isSlashed => ?_, refName_of_unslashed⟩
  rw [← whole, refName, String.toList_ofList, List.mem_reverse] at isSlashed
  simpa using List.mem_takeWhile_imp isSlashed

/-- What is shown for a reference to a struct. It is cut exactly if the last part of the name is being
expanded or names no definition, and it is the shape of the struct of that name otherwise, which is the
struct itself exactly if its name has no slash. -/
structure ShowsTarget (options : Options) (store : Store) (compiled : Compiled)
    (expanding : List String) (id : StructId) (shown : Value) : Prop where
  cut : IsCut shown ↔ refName (store.at id).name ∈ expanding ∨
    compiled.definitions.get? (refName (store.at id).name) = none
  own : '/' ∉ (store.at id).name.toList → (IsCut shown ↔ (store.at id).name ∈ expanding)
  whole : ¬IsCut shown → ∃ other body,
    compiled.definitions.get? (refName (store.at id).name) = some body ∧
    IsNodeOf options store compiled other body ∧
    Agrees shown (shapeImage (replacement compiled.definitions
      (refName (store.at id).name :: expanding)) body) ∧
    (other = id ↔ '/' ∉ (store.at id).name.toList)

theorem Finishes.showsTarget {pass : Pass} (finishes : Finishes options store target pass compiled)
    {shaped node shown : Value} {around expanding : List String}
    (shapes : ofCompiled compiled = .ok shaped)
    (place : Place compiled shaped around expanding node shown) {id : StructId}
    (reached : Descriptor.Reaches store target (.struct id))
    (isReference : node.get? "$ref" = some (.str (options.refPrefix ++ (store.at id).name))) :
    ShowsTarget options store compiled expanding id shown := by
  have shows := finishes.showsReference shapes place isReference
  constructor
  · exact shows.cut
  · intro unslashed
    obtain ⟨body, defined⟩ := finishes.exists_body reached
    rw [shows.cut, refName_of_unslashed unslashed, defined]
    simp
  · intro notCut
    obtain ⟨_, _, -, -, defined, agrees⟩ := shows.whole notCut
    obtain ⟨other, reachedOther, isName, isNode⟩ := finishes.exists_isNodeOf defined
    refine ⟨other, _, defined, isNode, agrees, ?_⟩
    rw [← refName_eq_self_iff]
    constructor
    · rintro rfl
      exact isName.symm
    · exact fun whole => finishes.eq_of_name_eq reached reachedOther (isName.trans whole)

/-- Every reference in a document is one to a struct that is reached, and the node of the struct is
among the definitions under its name. As a pointer into the document it is read as the key of the
definitions and the name exactly if neither has a character that pointers escape, and then it leads to
that node. Where a reference stands in what the shape is made of, the shape shows what its last part
names, which is the struct itself exactly if its name has no slash. -/
theorem references_lead_to_structs (compiles : compile options store target = .ok compiled)
    (free : options.defsKey ∉ emittedKeywords) :
    (∀ node reference, Relation.ReflTransGen (Value.Child ["properties", options.defsKey])
        (compiled.document none) node → node.get? "$ref" = some reference →
      ∃ id body, Descriptor.Reaches store target (.struct id) ∧
        reference = .str (options.refPrefix ++ (store.at id).name) ∧
        compiled.definitions.get? (store.at id).name = some body ∧
        IsNodeOf options store compiled id body ∧
        (Pointer.read (options.refPrefix ++ (store.at id).name) =
            some [options.defsKey, (store.at id).name] ↔
          Pointer.IsPlain options.defsKey ∧ Pointer.IsPlain (store.at id).name) ∧
        (Pointer.IsPlain options.defsKey → Pointer.IsPlain (store.at id).name →
          Pointer.resolve (compiled.document none) (options.refPrefix ++ (store.at id).name) =
            some body)) ∧
    ∃ shaped, ofCompiled compiled = .ok shaped ∧
      (∀ shown, Relation.ReflTransGen (Value.Child ["properties"]) shaped shown →
        ∃ around expanding node, Place compiled shaped around expanding node shown) ∧
      ∀ around expanding node shown reference, Place compiled shaped around expanding node shown →
        node.get? "$ref" = some reference →
          ∃ id, Descriptor.Reaches store target (.struct id) ∧
            reference = .str (options.refPrefix ++ (store.at id).name) ∧
            ShowsTarget options store compiled expanding id shown := by
  obtain ⟨pass, finishes⟩ := exists_finishes compiles
  have shapes := ofCompiled_eq finishes.isSchema finishes.schemas
  refine ⟨fun node reference reaches isReference => ?_, _, shapes,
    fun shown => exists_place finishes.isSchema finishes.schemas shapes, ?_⟩
  · obtain ⟨id, reached, rfl⟩ := exists_struct_of_reference compiles free reaches isReference
    obtain ⟨body, defined⟩ := finishes.exists_body reached
    obtain ⟨other, reachedOther, isName, isNode⟩ := finishes.exists_isNodeOf defined
    obtain rfl := finishes.eq_of_name_eq reached reachedOther isName
    exact ⟨other, body, reached, rfl, defined, isNode, Pointer.read_eq_pair_iff _ _,
      resolve_of_plain compiles defined⟩
  · intro around expanding node shown reference place isReference
    obtain ⟨id, inside, rfl⟩ := (place.stemsFrom finishes).reference _ isReference
    exact ⟨id, inside.1, rfl, finishes.showsTarget shapes place inside.1 isReference⟩

def lineAndMark (line mark : String) : Store :=
  [⟨line, none, [⟨"at", .scalar .int, true, none, none⟩], none⟩, ⟨mark, none, [], none⟩]

/-- A record of two lines and a mark. -/
def linesAndMark : Descriptor :=
  .fixed ⟨[⟨"first", .struct 0, true, none, none⟩, ⟨"again", .struct 0, true, none, none⟩,
    ⟨"mark", .struct 1, true, none, none⟩], none, none, none⟩

def lineNode (line mark : String) : Value :=
  Compile.structNode Options.defaults ((lineAndMark line mark).at 0) [("at", Compile.typeNode "integer")]

def markNode (line mark : String) : Value :=
  Compile.structNode Options.defaults ((lineAndMark line mark).at 1) []

/-- The reference to a line leads to its definition. -/
theorem line_resolved :
    ∃ compiled body, compile Options.defaults (lineAndMark "Line" "Mark") linesAndMark = .ok compiled ∧
      Options.defaults.defsKey ∉ emittedKeywords ∧ compiled.definitions.get? "Line" = some body ∧
      Pointer.resolve (compiled.document none) "#/$defs/Line" = some body := by
  have free : Options.defaults.defsKey ∉ emittedKeywords := by decide
  obtain ⟨references, -⟩ :=
    @references_lead_to_structs Options.defaults (lineAndMark "Line" "Mark") linesAndMark _ rfl free
  obtain ⟨id, body, -, same, defined, -, -, resolves⟩ :=
    references (Compile.refNode Options.defaults "Line") (.str "#/$defs/Line")
      (.single (@Value.Child.entry _ _ "properties" _
        (.str "again", Compile.refNode Options.defaults "Line") (by simp) rfl (.tail _ (.head _)))) rfl
  have isName : "Line" = ((lineAndMark "Line" "Mark").at id).name :=
    (String.append_right_inj Options.defaults.refPrefix).mp (Value.str.inj same)
  rw [← isName] at defined resolves
  exact ⟨_, body, rfl, free, defined, resolves (by decide) (by decide)⟩

/-- The shape of a struct with some properties, all of them required. -/
def structShape (name : String) (properties : Fields) : Value :=
  Fields.node [("type", .str "object"), ("description", .str (name ++ " struct")),
    ("properties", Fields.node
      ((typeKey, Fields.node [("type", .str "string"), ("enum", .list [.str name])]) :: properties)),
    ("required", .list ((typeKey :: properties.map Prod.fst).map .str))]

/-- A line whose name has a slash is referred to by a pointer that leads to nothing, and where the
reference stands the mark is shown that is called like the last part of the name; and the pointer to a
line whose name has a tilde leads to the mark whose name is escaped in it. -/
theorem slashed_and_tilded_lost :
    (∃ compiled shaped node,
      compile Options.defaults (lineAndMark "x/Mark" "Mark") linesAndMark = .ok compiled ∧
        Relation.ReflTransGen (Value.Child ["properties", "$defs"]) (compiled.document none) node ∧
        node.get? "$ref" = some (.str "#/$defs/x/Mark") ∧
        Pointer.resolve (compiled.document none) "#/$defs/x/Mark" = none ∧
        ofCompiled compiled = .ok shaped ∧
        Place compiled shaped [] [] node (structShape "Mark" [])) ∧
    ∃ compiled node,
      compile Options.defaults (lineAndMark "x~1Mark" "x/Mark") linesAndMark = .ok compiled ∧
        Relation.ReflTransGen (Value.Child ["properties", "$defs"]) (compiled.document none) node ∧
        node.get? "$ref" = some (.str "#/$defs/x~1Mark") ∧
        Pointer.resolve (compiled.document none) "#/$defs/x~1Mark" =
          some (markNode "x~1Mark" "x/Mark") := by
  have slashed : Pointer.read "#/$defs/x/Mark" = some ["$defs", "x", "Mark"] :=
    (@Pointer.read_of_plain _ "/$defs/x/Mark".toList (by decide) (by decide)).trans (by decide +kernel)
  have tilded : Pointer.read "#/$defs/x~1Mark" = some ["$defs", "x/Mark"] :=
    (@Pointer.read_of_plain _ "/$defs/x~1Mark".toList (by decide) (by decide)).trans (by decide +kernel)
  constructor
  · have start := @Place.root
      ⟨Compile.recordNode none none ["first", "again", "mark"]
          [("first", lineNode "x/Mark" "Mark"),
            ("again", Compile.refNode Options.defaults "x/Mark"), ("mark", markNode "x/Mark" "Mark")],
        Value.entriesOf [("x/Mark", lineNode "x/Mark" "Mark"), ("Mark", markNode "x/Mark" "Mark")],
        "$defs"⟩
      (Fields.node [("type", .str "object"), ("properties", Fields.node
          [("first", structShape "x/Mark" [("at", Compile.typeNode "integer")]),
            ("again", structShape "Mark" []), ("mark", structShape "Mark" [])]),
        ("required", .list [.str "first", .str "again", .str "mark"])])
    have again := start.inner (@Beside.property _ _ _ _ _ _ _ 1 rfl rfl rfl rfl rfl rfl)
    refine ⟨_, _, _, rfl, ?_, rfl, ?_, rfl, again⟩
    · exact .single (@Value.Child.entry _ _ "properties" _
        (.str "again", Compile.refNode Options.defaults "x/Mark") (by simp) rfl (.tail _ (.head _)))
    · rw [Pointer.resolve, slashed]
      rfl
  · refine ⟨_, Compile.refNode Options.defaults "x~1Mark", rfl, ?_, rfl, ?_⟩
    · exact .single (@Value.Child.entry _ _ "properties" _
        (.str "again", Compile.refNode Options.defaults "x~1Mark") (by simp) rfl (.tail _ (.head _)))
    · rw [Pointer.resolve, tilded]
      rfl

end Gemini

end TypedReply
