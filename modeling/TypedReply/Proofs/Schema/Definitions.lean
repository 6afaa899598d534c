import TypedReply.Proofs.Schema.Failure
import TypedReply.Proofs.Schema.Meaning
import TypedReply.Proofs.Schema.Subschemas

/-!
# The table of definitions

A reference is made while its target is still being compiled, so it resolves only at the end of a
pass. What holds of the marks of every node, be they references or the names of struct bodies, is
carried along a pass from part to part; at its end every struct that is reached is defined, every
reference leads to a definition, and no struct is written out twice.
-/

namespace TypedReply

namespace Compile

variable {options : Options} {store : Store} {target : Descriptor} {α : Type}

/-! ## Marks along a pass -/

/-- Every record that a descriptor reaches names its fields differently. -/
def DistinctFields (store : Store) : Descriptor → Prop :=
  Descriptor.Throughout store fun descriptor => ((descriptor.fields store).map (·.name)).Nodup

/-- What is known of the marks of a node and of the passes before and after it is put together from
what is known of the parts of the node. -/
structure Carries (options : Options) (store : Store) (mark : Value → Option α)
    (carried : Pass → List α → Pass → Prop) : Prop where
  refl : ∀ pass, carried pass [] pass
  append : ∀ {first between last found more}, carried first found between →
    carried between more last → carried first (found ++ more) last
  drop : ∀ {before found after}, carried before found after → carried before [] after
  refers : ∀ pass id, pass.structs.lookup (store.at id).name = some id →
    carried pass (mark (refNode options (store.at id).name)).toList pass
  defines : ∀ {before between id fields found},
    LeadsTo [(store.at id).name]
      { before with structs := ((store.at id).name, id) :: before.structs } between →
    (∀ other, before.structs.lookup (store.at id).name = some other → other = id) →
    before.definitions.get? (store.at id).name = none →
    carried { before with structs := ((store.at id).name, id) :: before.structs } found between →
    (fields.map Prod.fst).Nodup → typeKey ∉ fields.map Prod.fst →
    marks mark (structNode options (store.at id) fields) =
      (mark (structNode options (store.at id) fields)).toList ++ found →
    carried before (marks mark (structNode options (store.at id) fields))
      { between with definitions :=
          between.definitions.put (store.at id).name (structNode options (store.at id) fields) }

section Carries

variable {mark : Value → Option α} {carried : Pass → List α → Pass → Prop}
variable {expand : StructId → Action Value} {kept : Pass → Prop} {leads : Pass → Pass → Prop}
variable {drawnIn : Pass → StructId → Value → Prop}
variable (carries : Carries options store mark carried) (known : Expands expand kept leads drawnIn)
include carries known

theorem carried_memberNodes {members : List Descriptor}
    (each : ∀ member ∈ members, ∀ before node after, kept before →
      Yields (Compile.node expand member) before node after →
        carried before (marks mark node) after)
    (before : Pass) (nodes : List Value) (after : Pass) (holds : kept before)
    (yields : Yields (memberNodes expand members) before nodes after) :
    carried before (nodes.flatMap (marks mark)) after := by
  induction members generalizing before nodes with
  | nil =>
      simp only [memberNodes, yields_pure] at yields
      obtain ⟨rfl, rfl⟩ := yields
      exact carries.refl _
  | cons member members ih =>
      have rest := ih fun other isOther => each other (List.mem_cons_of_mem _ isOther)
      cases isNull : member.isNull with
      | true =>
          obtain rfl := Descriptor.eq_null_of_isNull isNull
          simp only [memberNodes] at yields
          exact rest before nodes holds yields
      | false =>
          simp only [memberNodes_cons expand isNull, yields_bind, yields_pure] at yields
          obtain ⟨first, between, run, others, last, runs, rfl, rfl⟩ := yields
          have keeps := (known.node member _ _ _ holds run).1
          exact carries.append (each member List.mem_cons_self _ _ _ holds run)
            (rest between others keeps runs)

variable (isMark : IsMark mark)
variable (compiled : ∀ pass, kept pass → ∀ id node, drawnIn pass id node → IsCompiled node)
include isMark compiled

theorem carried_fieldNodes (owner : String) (fields : List Field)
    (each : ∀ field ∈ fields, ∀ before node after, kept before →
      Yields (Compile.node expand field.type) before node after →
        carried before (marks mark node) after)
    (before : Pass) (nodes : Fields) (after : Pass) (holds : kept before)
    (yields : Yields (fieldNodes expand owner fields) before nodes after) :
    carried before (nodes.flatMap fun entry => marks mark entry.2) after := by
  induction fields generalizing before nodes with
  | nil =>
      simp only [fieldNodes, yields_pure] at yields
      obtain ⟨rfl, rfl⟩ := yields
      exact carries.refl _
  | cons field fields ih =>
      have first := each field List.mem_cons_self
      have rest := ih fun other isOther => each other (List.mem_cons_of_mem _ isOther)
      obtain ⟨name, type, required, description, default⟩ := field
      by_cases isReserved : name = typeKey
      · simp [fieldNodes, isReserved] at yields
      · simp only [fieldNodes, isReserved, if_false, yields_bind, yields_pure] at yields
        obtain ⟨inner, between, run, others, last, runs, rfl, rfl⟩ := yields
        obtain ⟨keeps, -, renders⟩ := known.node type _ _ _ holds run
        rw [List.flatMap_cons, marks_fieldNode isMark (renders.isCompiled (compiled between keeps))]
        exact carries.append (first _ _ _ holds run) (rest between others keeps runs)

/-- What is carried through the expansion of every struct is carried through the node of a
descriptor, if it goes with the marks of the fixed records themselves. -/
theorem carried_node (distinct : DistinctFields store target)
    (records : ∀ record nodes pass, Descriptor.Reaches store target (.fixed record) →
      (nodes.map Prod.fst).Nodup → typeKey ∉ nodes.map Prod.fst →
      carried pass (mark (recordNode record.name record.description (record.fields.map (·.name))
        nodes)).toList pass)
    (expands : ∀ id, Descriptor.Reaches store target (.struct id) → ∀ before node after,
      kept before → Yields (expand id) before node after → carried before (marks mark node) after)
    (descriptor : Descriptor) (reached : Descriptor.Reaches store target descriptor) (before : Pass)
    (result : Value) (after : Pass) (holds : kept before)
    (yields : Yields (Compile.node expand descriptor) before result after) :
    carried before (marks mark result) after := by
  induction descriptor using Descriptor.induction generalizing before result after with
  | scalar kind =>
      simp only [Compile.node, yields_pure] at yields
      obtain ⟨rfl, rfl⟩ := yields
      simpa only [marks_scalarNode isMark] using carries.refl after
  | enum type =>
      simp only [Compile.node, yields_pure] at yields
      obtain ⟨rfl, rfl⟩ := yields
      simpa only [marks_enumNode isMark] using carries.refl after
  | array element ih =>
      simp only [Compile.node, yields_bind, yields_pure] at yields
      obtain ⟨inner, between, run, rfl, rfl⟩ := yields
      rw [marks_arrayNode isMark]
      exact ih (reached.tail (.element element)) _ _ _ holds run
  | map key value keyIH valueIH =>
      simp only [Compile.node, yields_bind, yields_pure] at yields
      obtain ⟨keyNode, between, keyRun, valueNode, last, valueRun, rfl, rfl⟩ := yields
      -- The node of the keys is not kept, but the pass has gone on by it.
      have keys := carries.drop (keyIH (reached.tail (.key key value)) _ _ _ holds keyRun)
      have keeps := (known.node key _ _ _ holds keyRun).1
      rw [marks_mapNode isMark]
      exact carries.append keys (valueIH (reached.tail (.value key value)) _ _ _ keeps valueRun)
  | optional inner ih =>
      simp only [Compile.node, yields_bind, yields_pure] at yields
      obtain ⟨innerNode, between, run, rfl, rfl⟩ := yields
      obtain ⟨keeps, -, renders⟩ := known.node inner _ _ _ holds run
      rw [marks_nullable isMark (renders.isCompiled (compiled _ keeps))]
      exact ih (reached.tail (.inner inner)) _ _ _ holds run
  | union members ih =>
      simp only [Compile.node, yields_bind, yields_pure] at yields
      obtain ⟨nodes, between, run, rfl, rfl⟩ := yields
      obtain ⟨keeps, -, renders⟩ := known.memberNodes members _ _ _ holds run
      rw [marks_unionNode isMark fun node isNode => by
        obtain ⟨member, -, renders⟩ := exists_left_of_mem ((rendersMembers_iff _ _).mp renders) isNode
        exact renders.isCompiled (compiled _ keeps)]
      exact carried_memberNodes carries known (fun member isMember =>
        ih member isMember (reached.tail (.member isMember))) _ _ _ holds run
  | null =>
      simp only [Compile.node, yields_pure] at yields
      obtain ⟨rfl, rfl⟩ := yields
      simpa only [marks_nullNode isMark] using carries.refl after
  | fixed record ih =>
      have own := records record
      simp only [Compile.node, yields_bind, yields_pure] at yields
      obtain ⟨nodes, between, run, rfl, rfl⟩ := yields
      have renders := (rendersFields_iff _ _).mp (known.fieldNodes _ _ _ _ _ holds run).2.2
      have free := typeKey_not_mem_of_renders renders
      have differ : (nodes.map Prod.fst).Nodup := by
        rw [map_fst_of_renders renders]
        exact distinct _ reached
      rw [marks_recordNode isMark _ _ _ differ free]
      exact carries.append (own nodes before reached differ free)
        (carried_fieldNodes carries known isMark
        compiled _ _ (fun field isField => ih field isField (reached.tail (.field isField))) _ _ _
        holds run)
  | struct id =>
      simp only [Compile.node] at yields
      exact expands id reached _ _ _ holds yields
  | stray value => simp only [Compile.node, not_yields_throw] at yields

end Carries

section Structs

variable {mark : Value → Option α} {carried : Pass → List α → Pass → Prop}
variable (carries : Carries options store mark carried) (isMark : IsMark mark)
variable (distinct : DistinctFields store target)
variable (records : ∀ record nodes pass, Descriptor.Reaches store target (.fixed record) →
  (nodes.map Prod.fst).Nodup → typeKey ∉ nodes.map Prod.fst →
  carried pass (mark (recordNode record.name record.description (record.fields.map (·.name))
    nodes)).toList pass)
include carries isMark distinct records

theorem carried_struct (fuel : Nat) (visited : List String) (nodup : visited.Nodup)
    (named : visited ⊆ "" :: store.map (·.name))
    (enough : visited.length + fuel = store.length + 2) (id : StructId)
    (reached : Descriptor.Reaches store target (.struct id)) (before : Pass) (result : Value)
    (after : Pass) (consistent : Consistent options store visited before)
    (yields : Yields (struct options store fuel visited id) before result after) :
    carried before (marks mark result) after := by
  induction fuel generalizing visited id before result after with
  | zero => exact (not_exhausted nodup named enough).elim
  | succ fuel ih =>
      have known := expands_shared options store (fuel + 1) visited nodup named enough
      have met := (known.expands consistent yields).2.2.1
      obtain ⟨own, ⟨-, rfl, rfl⟩ | ⟨unvisited, undefined, fields, between, run, rfl, rfl⟩⟩ :=
        struct_cases yields
      · rw [marks_refNode]
        exact carries.refers after id met
      · have nodup : ((store.at id).name :: visited).Nodup := List.nodup_cons.mpr ⟨unvisited, nodup⟩
        have named := List.cons_subset.mpr ⟨store.name_at_mem id, named⟩
        have enough : ((store.at id).name :: visited).length + fuel = store.length + 2 := by
          rw [List.length_cons]
          omega
        have inside := expands_shared options store fuel _ nodup named enough
        have opened := consistent.opening own
        obtain ⟨-, leads, renders⟩ := inside.fieldNodes _ _ _ _ _ opened run
        have renders := (rendersFields_iff _ _).mp renders
        have compiled (pass)
            (consistent : Consistent options store ((store.at id).name :: visited) pass) (id node)
            (stands : StandsFor options store pass id node) : IsCompiled node :=
          (stands.standing consistent).1
        have parts := carried_fieldNodes carries inside isMark compiled _ _
          (fun field isField => carried_node carries inside isMark compiled distinct records
            (ih _ nodup named enough) field.type (reached.tail (.field isField))) _ _ _ opened run
        have free := typeKey_not_mem_of_renders renders
        have differ : (fields.map Prod.fst).Nodup := by
          rw [map_fst_of_renders renders]
          exact distinct _ reached
        exact carries.defines (leads.mono (by simp)) own undefined parts differ free
          (marks_structNode isMark _ _ differ free)

theorem carried_fresh {result : Value} {pass : Pass}
    (yields : Yields (descriptor options store [] target) ⟨[], []⟩ result pass) :
    carried ⟨[], []⟩ (marks mark result) pass :=
  carried_node carries (expands_shared options store _ [] List.nodup_nil (List.nil_subset _) (by simp))
    isMark (fun _ consistent _ _ stands => (stands.standing consistent).1) distinct records
    (carried_struct carries isMark distinct records _ [] List.nodup_nil (List.nil_subset _) (by simp))
    target .refl _ _ _ (.fresh options store) yields

end Structs

end Compile

/-! ## References -/

def Value.references (schema : Value) : List Value := marks (·.get? "$ref") schema

theorem isMark_reference : IsMark (·.get? "$ref") where
  empty := rfl
  same _ _ _ same := by simpa using same
  closed := rfl

namespace Compile

theorem get?_ref_structNode (options : Options) (struct : Struct) (fields : Fields) :
    (structNode options struct fields).get? "$ref" = none := by
  unfold structNode
  cases options.structDescriptions <;> simp [Fields.get?_cons]

theorem get?_ref_recordNode (name description : Option String) (names : List String)
    (fields : Fields) : (recordNode name description names fields).get? "$ref" = none := by
  unfold recordNode
  cases nonEmpty description <;> simp [Fields.get?_cons]

/-- A reference names a struct that a pass has met. -/
def IsKnown (options : Options) (pass : Pass) (reference : Value) : Prop :=
  ∃ name id, reference = .str (options.refPrefix ++ name) ∧ pass.structs.lookup name = some id

/-- The definitions of a pass refer to structs that it has met. -/
def Closed (options : Options) (pass : Pass) : Prop :=
  ∀ name node, pass.definitions.get? name = some node → ∀ reference ∈ node.references,
    IsKnown options pass reference

/-- References are known after a pass has gone on, those of the definitions among them. -/
structure Knows (options : Options) (before : Pass) (found : List Value) (after : Pass) : Prop where
  grows : ∀ reference, IsKnown options before reference → IsKnown options after reference
  closed : Closed options before → Closed options after
  known : ∀ reference ∈ found, IsKnown options after reference

theorem carries_references (options : Options) (store : Store) :
    Carries options store (·.get? "$ref") (Knows options) where
  refl pass := ⟨fun _ known => known, fun closed => closed, by simp⟩
  append first rest :=
    { grows reference known := rest.grows reference (first.grows reference known)
      closed closed := rest.closed (first.closed closed)
      known reference isFound := (List.mem_append.mp isFound).elim
        (fun isFound => rest.grows _ (first.known reference isFound)) (rest.known reference) }
  drop carried := ⟨carried.grows, carried.closed, by simp⟩
  refers pass id met := by
    refine ⟨fun _ known => known, fun closed => closed, fun reference isFound => ?_⟩
    obtain rfl : reference = Value.str (options.refPrefix ++ (store.at id).name) := by
      simpa [refNode, Fields.get?_cons] using isFound
    exact ⟨_, id, rfl, met⟩
  defines := by
    intro before between id fields found leads own undefined carried differ free marked
    have parts : ∀ reference ∈ (structNode options (store.at id) fields).references,
        IsKnown options between reference := by
      intro reference isReference
      rw [Value.references, marked, get?_ref_structNode] at isReference
      exact carried.known reference (by simpa using isReference)
    have opened : ∀ reference, IsKnown options before reference → IsKnown options
        { before with structs := ((store.at id).name, id) :: before.structs } reference := by
      rintro reference ⟨name, other, isName, known⟩
      have opens : LeadsTo [] before _ := .opening own
      exact ⟨name, other, isName, opens.structs _ _ known⟩
    refine ⟨fun reference known => carried.grows _ (opened _ known), ?_, parts⟩
    intro closed name node defined
    have closed := carried.closed fun name node defined reference isReference =>
      opened reference (closed name node defined reference isReference)
    by_cases same : name = (store.at id).name
    · subst same
      simp only [Fields.get?_put_self, Option.some.injEq] at defined
      exact defined ▸ parts
    · exact closed name node (by simpa [Fields.get?_put, same] using defined)

end Compile

/-! ## Bodies -/

/-- The name that the node of a record shows in its tag. -/
def Value.bodyName? (schema : Value) : Option String :=
  ((schema.get? "properties").bind (·.get? typeKey)).bind fun tag =>
    (tag.get? "const").bind Value.text?

/-- The names of the records that are written out in a schema. -/
def Value.bodyNames (schema : Value) : List String := marks Value.bodyName? schema

theorem isMark_bodyName : IsMark Value.bodyName? where
  empty := rfl
  same _ _ same _ := by simp only [Value.bodyName?, Fields.get?_node, same]
  closed := rfl

namespace Compile

theorem get?_const_tagNode (name : String) : (tagNode name).get? "const" = some (.str name) := by
  simp [tagNode, Fields.get?_cons]

theorem bodyName?_structNode (options : Options) (struct : Struct) {fields : Fields}
    (differ : (fields.map Prod.fst).Nodup) (free : typeKey ∉ fields.map Prod.fst) :
    (structNode options struct fields).bodyName? = some struct.name := by
  have tagged := get?_properties differ free (some (tagNode struct.name)) typeKey
  simp only [Option.toList_some, List.map_cons, List.map_nil, if_true] at tagged
  unfold structNode
  cases options.structDescriptions <;>
    simp [Value.bodyName?, Fields.get?_cons, tagged, get?_const_tagNode, Value.text?]

theorem bodyName?_recordNode (name description : Option String) (names : List String)
    {fields : Fields} (differ : (fields.map Prod.fst).Nodup)
    (free : typeKey ∉ fields.map Prod.fst) :
    (recordNode name description names fields).bodyName? = name := by
  have tagged := get?_properties differ free (name.map tagNode) typeKey
  unfold recordNode
  cases name <;> cases nonEmpty description <;>
    simp_all [Value.bodyName?, Fields.get?_cons, get?_const_tagNode, Value.text?]

/-- Whether a pass has defined a struct of a name, as a number. -/
def defined (name : String) (pass : Pass) : Nat := if (pass.definitions.get? name).isSome then 1 else 0

theorem carries_bodies (options : Options) (store : Store) (name : String) :
    Carries options store Value.bodyName? fun before found after =>
      found.count name + defined name before ≤ defined name after where
  refl pass := by simp
  append first rest := by
    rw [List.count_append]
    omega
  drop carried := by
    rw [List.count_nil]
    omega
  refers pass id _ := by
    simp [refNode, Value.bodyName?, Fields.get?_cons]
  defines := by
    intro before between id fields found leads own undefined carried differ free marked
    rw [marked, List.count_append, bodyName?_structNode options _ differ free]
    by_cases same : (store.at id).name = name
    · subst same
      have still : between.definitions.get? (store.at id).name = none :=
        (leads.unfinished _ List.mem_cons_self).trans undefined
      simp_all [defined]
    · have later (body : Value) : defined name { between with
          definitions := between.definitions.put (store.at id).name body } =
            defined name between := by
        simp [defined, Fields.get?_put, Ne.symm same]
      rw [later, Option.toList_some, List.count_cons_of_ne same, List.count_nil, Nat.zero_add]
      exact carried

/-! ## Fresh passes -/

theorem expands_nodup (options : Options) (store : Store) (fuel : Nat) (visited : List String) :
    Expands (struct options store fuel visited)
      (fun pass => (pass.definitions.map Prod.fst).Nodup) (fun _ _ => True)
      (fun _ _ _ => True) := by
  induction fuel generalizing visited with
  | zero =>
      refine ⟨fun _ => trivial, fun _ _ => trivial, fun _ _ _ _ => trivial, ?_⟩
      intro id before node after holds yields
      obtain ⟨-, rfl⟩ := (yields_pure _ _).mp yields
      exact ⟨holds, trivial, trivial⟩
  | succ fuel ih =>
      refine ⟨fun _ => trivial, fun _ _ => trivial, fun _ _ _ _ => trivial, ?_⟩
      intro id before node after holds yields
      obtain ⟨-, ⟨-, -, rfl⟩ | ⟨-, -, fields, between, run, -, rfl⟩⟩ := struct_cases yields
      · exact ⟨holds, trivial, trivial⟩
      · have inside := ((ih _).fieldNodes _ _ _ _ _ (by exact holds) run).1
        refine ⟨?_, trivial, trivial⟩
        rw [Fields.map_fst_put]
        split
        · exact inside
        next new =>
          refine List.nodup_append.mpr ⟨inside, by simp, ?_⟩
          rintro name isName _ isOwn rfl
          exact new (List.mem_singleton.mp isOwn ▸ isName)

theorem isReal_of_renders {pass : Pass} (consistent : Consistent options store [] pass)
    {drawn : Value} (renders : Renders (StandsFor options store pass) target drawn) :
    target.Throughout store Descriptor.IsReal := by
  intro descriptor reached value isStray
  obtain ⟨node, renders⟩ := exists_renders_of_reaches consistent renders reached
  simp only [isStray, Renders] at renders

/-- A fresh pass that succeeds leaves a consistent table that has met what is reached, under names
that differ. -/
theorem settled_of_yields {result : Value} {pass : Pass}
    (yields : Yields (descriptor options store [] target) ⟨[], []⟩ result pass) :
    Consistent options store [] pass ∧ Renders (StandsFor options store pass) target result ∧
      Met store target pass ∧ (pass.definitions.map Prod.fst).Nodup := by
  have shared := expands_shared options store (store.length + 2) [] List.nodup_nil
    (List.nil_subset _) (by simp)
  obtain ⟨consistent, -, renders⟩ := shared.node target _ _ pass (.fresh options store) yields
  have real := isReal_of_renders consistent renders
  have met := (ends_node (ends_struct options real _ []) (fun error flaw => ⟨error, rfl, flaw⟩) real
    target .refl ⟨[], []⟩ fun _ _ known => by cases known).of_yields yields
  have nodup := ((expands_nodup options store (store.length + 2) []).node target _ _ pass
    (by exact List.nodup_nil) yields).1
  exact ⟨consistent, renders, met, nodup⟩

theorem known_of_yields (distinct : DistinctFields store target) {result : Value} {pass : Pass}
    (yields : Yields (descriptor options store [] target) ⟨[], []⟩ result pass) :
    (∀ reference ∈ result.references, IsKnown options pass reference) ∧ Closed options pass := by
  have carries := carries_references options store
  have knows := carried_fresh carries isMark_reference distinct
    (fun record nodes pass _ _ _ => by
      rw [get?_ref_recordNode]
      exact carries.refl pass) yields
  exact ⟨knows.known, knows.closed fun _ _ defined => by cases defined⟩

theorem count_bodies_le (distinct : DistinctFields store target) {result : Value} {pass : Pass}
    (yields : Yields (descriptor options store [] target) ⟨[], []⟩ result pass) {name : String}
    (unnamed : ∀ record, Descriptor.Reaches store target (.fixed record) →
      record.name ≠ some name) : result.bodyNames.count name ≤ 1 := by
  have counted := carried_fresh (carries_bodies options store name) isMark_bodyName distinct
    (fun record nodes pass reached differ free => by
      have absent : (record.name.toList).count name = 0 :=
        List.count_eq_zero.mpr (by simpa using unnamed record reached)
      simp only [bodyName?_recordNode _ _ _ differ free, absent, Nat.zero_add, Nat.le_refl]) yields
  have few : defined name pass ≤ 1 := by
    unfold defined
    split <;> decide
  exact Nat.le_trans (Nat.le_add_right _ _) (Nat.le_trans counted few)

/-- The body of a struct: an object that shows the tag and then the fields as they are declared, and
requires the tag and then the fields that must be given. -/
structure IsBody (drawn : StructId → Value → Prop) (struct : Struct) (body : Value) : Prop where
  type : body.get? "type" = some (.str "object")
  properties : ∃ nodes, List.Forall₂ (RendersField drawn) struct.fields nodes ∧
    body.get? "properties" = some (Fields.node ((typeKey, tagNode struct.name) :: nodes))
  required : body.get? "required" =
    some (.list ((typeKey :: requiredNames struct.fields).map .str))

theorem isBody_structNode {drawn : StructId → Value → Prop} (options : Options) {struct : Struct}
    {nodes : Fields} (differ : (nodes.map Prod.fst).Nodup)
    (renders : List.Forall₂ (RendersField drawn) struct.fields nodes) :
    IsBody drawn struct (structNode options struct nodes) := by
  have free := typeKey_not_mem_of_renders renders
  have properties : Fields.putAll [(typeKey, tagNode struct.name)] nodes =
      (typeKey, tagNode struct.name) :: nodes :=
    Fields.putAll_eq_append differ fun name isField isTag => by
      obtain rfl : name = typeKey := by simpa using isTag
      exact free isField
  unfold structNode
  rw [properties]
  refine ⟨?_, ⟨nodes, renders, ?_⟩, ?_⟩ <;>
    cases options.structDescriptions <;> simp [Fields.get?_cons]

end Compile

/-- A node of a compiled schema that stands for a struct: a reference to its definition, or the
definition itself. -/
def Compiled.Stands (compiled : Compiled) (options : Options) (store : Store) (id : StructId)
    (node : Value) : Prop :=
  node = Compile.refNode options (store.at id).name ∨
    compiled.definitions.get? (store.at id).name = some node

/-- The definitions of a compiled schema are complete: the structs that the descriptor reaches are
defined once each, by their bodies; every reference leads to a definition; and no struct is written
out twice in the schema itself, where a reference stands for it otherwise. -/
structure Compiled.Tabulates (compiled : Compiled) (options : Options) (store : Store)
    (target : Descriptor) : Prop where
  names : ∃ names : List String, names.Nodup ∧
    compiled.definitions.map Prod.fst = names.map .str ∧
      ∀ name, name ∈ names ↔
        ∃ id, Descriptor.Reaches store target (.struct id) ∧ (store.at id).name = name
  resolved : ∀ schema ∈ compiled.schema :: compiled.definitions.map Prod.snd,
    ∀ reference ∈ schema.references, ∃ name, reference = .str (options.refPrefix ++ name) ∧
      (compiled.definitions.get? name).isSome = true
  bodies : ∀ id, Descriptor.Reaches store target (.struct id) → ∃ body,
    compiled.definitions.get? (store.at id).name = some body ∧
      Compile.IsBody (compiled.Stands options store) (store.at id) body
  drawn : Compile.Renders (compiled.Stands options store) target compiled.schema
  once : ∀ name,
    (∀ record, Descriptor.Reaches store target (.fixed record) → record.name ≠ some name) →
      compiled.schema.bodyNames.count name ≤ 1

/-- A fresh pass that succeeds leaves a complete table of definitions. -/
theorem compile_tabulates {options : Options} {store : Store} {target : Descriptor}
    {compiled : Compiled} (compiles : compile options store target = .ok compiled)
    (distinct : Compile.DistinctFields store target) :
    compiled.Tabulates options store target := by
  obtain ⟨pass, run, isCompiled⟩ := Compile.exists_pass_of_compile compiles
  obtain ⟨consistent, renders, met, nodup⟩ := Compile.settled_of_yields run
  have found (name : String) : compiled.definitions.get? name = pass.definitions.get? name := by
    rw [isCompiled, Value.get?_entriesOf]
  have stands (id node) (stands : Compile.StandsFor options store pass id node) :
      compiled.Stands options store id node := stands.2.imp_right ((found _).trans ·)
  have isDefined (name : String) (id) (known : pass.structs.lookup name = some id) :
      (pass.definitions.get? name).isSome = true :=
    (consistent.settled name id known).resolve_left List.not_mem_nil
  have leads (reference) (known : Compile.IsKnown options pass reference) :
      ∃ name, reference = .str (options.refPrefix ++ name) ∧
        (compiled.definitions.get? name).isSome = true := by
    obtain ⟨name, id, isName, known⟩ := known
    exact ⟨name, isName, by rw [found]; exact isDefined name id known⟩
  obtain ⟨known, closed⟩ := Compile.known_of_yields distinct run
  refine ⟨⟨pass.definitions.map Prod.fst, nodup, ?_, fun name => ⟨fun isName => ?_, ?_⟩⟩, ?_, ?_,
    renders.mono stands, ?_⟩
  · rw [isCompiled]
    simp [Value.entriesOf]
  · obtain ⟨⟨_, node⟩, isDefinition, rfl⟩ := List.mem_map.mp isName
    obtain ⟨id, -, known, -⟩ := consistent.bodies _ node (Fields.get?_of_mem nodup isDefinition)
    exact ⟨id, met _ id known⟩
  · rintro ⟨id, reached, rfl⟩
    have known := Compile.lookup_of_reaches consistent renders reached
    obtain ⟨node, isDefinition⟩ := Option.isSome_iff_exists.mp (isDefined _ id known)
    exact List.mem_map_of_mem (Fields.mem_of_get? isDefinition)
  · intro schema isSchema reference isReference
    refine leads reference ?_
    rcases List.mem_cons.mp isSchema with rfl | isSchema
    · exact known reference isReference
    · rw [isCompiled] at isSchema
      simp only [Value.entriesOf, List.map_map, List.mem_map] at isSchema
      obtain ⟨⟨name, node⟩, isDefinition, rfl⟩ := isSchema
      exact closed name node (Fields.get?_of_mem nodup isDefinition) reference isReference
  · intro id reached
    have known := Compile.lookup_of_reaches consistent renders reached
    obtain ⟨node, isDefinition⟩ := Option.isSome_iff_exists.mp (isDefined _ id known)
    obtain ⟨other, nodes, isKnown, follows, rfl⟩ := consistent.bodies _ node isDefinition
    obtain rfl : other = id := Option.some.inj (isKnown.symm.trans known)
    refine ⟨_, (found _).trans isDefinition, ?_⟩
    have follows := (Compile.rendersFields_iff _ _).mp (follows.mono stands)
    refine Compile.isBody_structNode options ?_ follows
    rw [Compile.map_fst_of_renders follows]
    exact distinct _ reached
  · exact fun name unnamed => Compile.count_bodies_le distinct run unnamed

/-- The table of linked numbers holds the one struct, which is written out once. -/
theorem linkedNumbers_tabulated :
    ∃ compiled, compile Options.defaults linkedNumbers (.struct 0) = .ok compiled ∧
      Compile.DistinctFields linkedNumbers (.struct 0) ∧
      compiled.Tabulates Options.defaults linkedNumbers (.struct 0) ∧
      compiled.schema.bodyNames = ["Link"] ∧
      compiled.schema.references = [.str "#/$defs/Link"] := by
  have distinct := linkedNumbers_throughout fun _ linked =>
    (Descriptor.IsLinked.regular linked).distinct
  exact ⟨_, rfl, distinct, compile_tabulates rfl distinct, by decide, rfl⟩

end TypedReply
