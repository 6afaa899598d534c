import TypedReply.Proofs.Schema.Definitions

/-!
# Building schemas

A property of nodes that each way of building a node preserves holds of everything that is compiled:
of the schema and of the definitions beside it. The ways of building a node from enumerations, fixed
records and structs have to preserve it only for those that the descriptor reaches.
-/

namespace TypedReply

namespace Compile

variable {options : Options} {store : Store} {reached : Descriptor → Prop} {good : Value → Prop}

/-- Every way of building a node preserves a property, for the descriptors that are reached. -/
structure Builds (options : Options) (store : Store) (reached : Descriptor → Prop)
    (good : Value → Prop) : Prop where
  parts : ∀ {descriptor part}, reached descriptor → Descriptor.Part store descriptor part →
    reached part
  scalar : ∀ kind, good (scalarNode kind)
  enum : ∀ type, reached (.enum type) → good (enumNode type)
  array : ∀ {inner}, good inner → good (Fields.node [("type", .str "array"), ("items", inner)])
  map : ∀ {key value}, good value → good (mapNode key value)
  null : good nullNode
  nullable : ∀ {inner}, IsCompiled inner → good inner → good (nullable inner)
  union : ∀ {nodes}, (∀ node ∈ nodes, IsCompiled node ∧ good node) → ∀ nilable,
    good (unionNode nilable nodes)
  field : ∀ {inner}, IsCompiled inner → good inner → ∀ required description,
    good (fieldNode required description inner)
  fixed : ∀ record {nodes : Fields}, reached (.fixed record) →
    nodes.map Prod.fst = record.fields.map (·.name) → typeKey ∉ nodes.map Prod.fst →
    (∀ node ∈ nodes, good node.2) →
      good (recordNode record.name record.description (record.fields.map (·.name)) nodes)
  struct : ∀ id {nodes : Fields}, reached (.struct id) →
    nodes.map Prod.fst = (store.at id).fields.map (·.name) → typeKey ∉ nodes.map Prod.fst →
    (∀ node ∈ nodes, good node.2) → good (structNode options (store.at id) nodes)
  ref : ∀ id, reached (.struct id) → good (refNode options (store.at id).name)

variable (builds : Builds options store reached good)
include builds

namespace Builds

/-- The nodes of the fields of a record have the property where those of their types do. -/
theorem fields {drawn : StructId → Value → Prop} {fields : List Field} {nodes : Fields}
    (compiled : ∀ id node, drawn id node → IsCompiled node)
    (renders : List.Forall₂ (RendersField drawn) fields nodes)
    (each : ∀ field ∈ fields, ∀ inner, Renders drawn field.type inner → good inner) :
    ∀ node ∈ nodes, good node.2 := by
  intro node isNode
  obtain ⟨field, isField, -, -, inner, follows, isInner⟩ := exists_left_of_mem renders isNode
  rw [isInner]
  exact builds.field (follows.isCompiled compiled) (each field isField inner follows) _ _

/-- What follows a descriptor has the property where what stands for structs does. -/
theorem renders {drawn : StructId → Value → Prop}
    (compiled : ∀ id node, drawn id node → IsCompiled node)
    (stands : ∀ id node, reached (.struct id) → drawn id node → good node)
    {descriptor : Descriptor} {node : Value} (isReached : reached descriptor)
    (renders : Renders drawn descriptor node) : good node := by
  induction descriptor using Descriptor.induction generalizing node with
  | scalar kind =>
      simp only [Renders] at renders
      exact renders ▸ builds.scalar kind
  | enum type =>
      simp only [Renders] at renders
      exact renders ▸ builds.enum type isReached
  | array element ih =>
      simp only [Renders] at renders
      obtain ⟨inner, renders, rfl⟩ := renders
      exact builds.array (ih (builds.parts isReached (.element _)) renders)
  | map key value keyIH valueIH =>
      simp only [Renders] at renders
      obtain ⟨keyNode, valueNode, -, renders, rfl⟩ := renders
      exact builds.map (valueIH (builds.parts isReached (.value _ _)) renders)
  | optional inner ih =>
      simp only [Renders] at renders
      obtain ⟨innerNode, renders, rfl⟩ := renders
      exact builds.nullable (renders.isCompiled compiled)
        (ih (builds.parts isReached (.inner _)) renders)
  | union members ih =>
      simp only [Renders, rendersMembers_iff] at renders
      obtain ⟨nodes, renders, rfl⟩ := renders
      refine builds.union (fun node isNode => ?_) _
      obtain ⟨member, isMember, renders⟩ := exists_left_of_mem renders isNode
      have isMember := List.mem_of_mem_filter isMember
      exact ⟨renders.isCompiled compiled,
        ih member isMember (builds.parts isReached (.member isMember)) renders⟩
  | null =>
      simp only [Renders] at renders
      exact renders ▸ builds.null
  | fixed record ih =>
      simp only [Renders, rendersFields_iff] at renders
      obtain ⟨nodes, renders, rfl⟩ := renders
      refine builds.fixed record isReached (map_fst_of_renders renders)
        (typeKey_not_mem_of_renders renders) (builds.fields compiled renders ?_)
      exact fun field isField inner => ih field isField (builds.parts isReached (.field isField))
  | struct id =>
      simp only [Renders] at renders
      exact stands id node isReached renders
  | stray value => simp only [Renders] at renders

end Builds

/-! ## Passes -/

/-- The definitions of a pass have a property, as far as their structs are reached. -/
def DefinesGood (reached : Descriptor → Prop) (good : Value → Prop) (pass : Pass) : Prop :=
  ∀ name node id, pass.definitions.get? name = some node → pass.structs.lookup name = some id →
    reached (.struct id) → good node

omit builds in
/-- A struct that is entered has no definition yet. -/
theorem DefinesGood.opening {pass : Pass} (defines : DefinesGood reached good pass) {id : StructId}
    (undefined : pass.definitions.get? (store.at id).name = none) :
    DefinesGood reached good
      { pass with structs := ((store.at id).name, id) :: pass.structs } := by
  intro name node other defined known isReached
  have different : (name == (store.at id).name) = false := by
    rw [beq_eq_false_iff_ne]
    rintro rfl
    rw [undefined] at defined
    cases defined
  rw [List.lookup_cons, different] at known
  exact defines name node other defined known isReached

omit builds in
/-- A struct is defined by a node that has the property if the struct is reached. -/
theorem DefinesGood.closing {pass : Pass} (defines : DefinesGood reached good pass) {name : String}
    {id : StructId} {node : Value} (known : pass.structs.lookup name = some id)
    (isGood : reached (.struct id) → good node) :
    DefinesGood reached good { pass with definitions := pass.definitions.put name node } := by
  intro other found owner defined isOwner isReached
  by_cases same : other = name
  · subst same
    simp only [Fields.get?_put_self, Option.some.injEq] at defined
    obtain rfl : id = owner := Option.some.inj (known.symm.trans isOwner)
    exact defined ▸ isGood isReached
  · simp only [Fields.get?_put, same, if_false] at defined
    exact defines other found owner defined isOwner isReached

/-- While fuel is left for every name that is not being compiled, a struct is expanded into a node
that has the property if the struct is reached, and so have the definitions. -/
theorem expands_good (fuel : Nat) (visited : List String) (distinct : visited.Nodup)
    (named : visited ⊆ "" :: store.map (·.name))
    (enough : visited.length + fuel = store.length + 2) :
    Expands (struct options store fuel visited)
      (fun pass => Consistent options store visited pass ∧ DefinesGood reached good pass)
      (LeadsTo visited) (fun pass id node => StandsFor options store pass id node ∧
        IsCompiled node ∧ (reached (.struct id) → good node)) := by
  induction fuel generalizing visited with
  | zero => exact (not_exhausted distinct named enough).elim
  | succ fuel ih =>
      have shared := expands_shared options store (fuel + 1) visited distinct named enough
      refine ⟨.refl, .trans, fun leads id node drawn => ⟨drawn.1.mono leads, drawn.2⟩, ?_⟩
      rintro id before node after ⟨consistent, defines⟩ yields
      obtain ⟨kept, leads, stands⟩ := shared.expands consistent yields
      have compiled := (stands.standing kept).1
      obtain ⟨own, ⟨-, rfl, rfl⟩ | ⟨unvisited, undefined, fields, between, run, rfl, rfl⟩⟩ :=
        struct_cases yields
      · exact ⟨⟨kept, defines⟩, leads, stands, compiled, builds.ref id⟩
      · have inside := ih ((store.at id).name :: visited)
          (List.nodup_cons.mpr ⟨unvisited, distinct⟩)
          (List.cons_subset.mpr ⟨store.name_at_mem id, named⟩) (by simp; omega)
        obtain ⟨⟨-, inner⟩, led, renders⟩ := inside.fieldNodes _ _ _ _ _
          ⟨consistent.opening own, defines.opening undefined⟩ run
        have renders := (rendersFields_iff _ _).mp renders
        have isGood (isReached : reached (.struct id)) :
            good (structNode options (store.at id) fields) := by
          refine builds.struct id isReached (map_fst_of_renders renders)
            (typeKey_not_mem_of_renders renders)
            (builds.fields (fun _ _ drawn => drawn.2.1) renders ?_)
          exact fun field isField inner => builds.renders (fun _ _ drawn => drawn.2.1)
            (fun _ _ isReached drawn => drawn.2.2 isReached)
            (builds.parts isReached (.field isField))
        have known := led.structs (store.at id).name id (by simp)
        exact ⟨⟨kept, inner.closing known isGood⟩, leads, stands, compiled, isGood⟩

omit builds in
/-- What is compiled has every property that is preserved by building, and so have the definitions,
which are those of the structs that are reached. -/
theorem good_of_compile {target : Descriptor} {compiled : Compiled}
    (builds : Builds options store (Descriptor.Reaches store target) good)
    (compiles : compile options store target = .ok compiled) :
    (IsCompiled compiled.schema ∧ good compiled.schema) ∧
      ∃ definitions : Fields, compiled.definitions = Value.entriesOf definitions ∧
        (definitions.map Prod.fst).Nodup ∧ ∀ entry ∈ definitions, good entry.2 ∧
          ∃ id fields, Descriptor.Reaches store target (.struct id) ∧
            entry = ((store.at id).name, structNode options (store.at id) fields) := by
  obtain ⟨pass, run, isCompiled⟩ := exists_pass_of_compile compiles
  obtain ⟨consistent, -, met, nodup⟩ := settled_of_yields run
  have known := expands_good builds (store.length + 2) [] List.nodup_nil (List.nil_subset _)
    (by simp)
  have fresh : DefinesGood (Descriptor.Reaches store target) good ⟨[], []⟩ :=
    fun _ _ _ defined => nomatch defined
  obtain ⟨⟨-, defines⟩, -, renders⟩ :=
    known.node target _ _ pass ⟨.fresh options store, fresh⟩ run
  refine ⟨⟨renders.isCompiled fun _ _ drawn => drawn.2.1, builds.renders
    (fun _ _ drawn => drawn.2.1) (fun _ _ isReached drawn => drawn.2.2 isReached) .refl renders⟩,
    pass.definitions, by rw [isCompiled], nodup, ?_⟩
  rintro ⟨name, node⟩ isEntry
  have defined := Fields.get?_of_mem nodup isEntry
  obtain ⟨id, fields, isKnown, -, rfl⟩ := consistent.bodies name node defined
  obtain ⟨isReached, rfl⟩ := met name id isKnown
  exact ⟨defines _ _ id defined isKnown isReached, id, fields, isReached, rfl⟩

end Compile

end TypedReply
