import TypedReply.Proofs.Schema.Sharing

/-!
# When compiling fails

A pass skips a struct whose name it has met, so it could pass over a record that it should refuse.
It does not: what a successful pass has met is all that the descriptor reaches, and a pass fails
exactly if a record that is reached declares a field named like the tag, or two structs that are
reached share a name. However the structs refer to one another, a pass comes to an end: the names
that it is not inside of grow fewer with each struct that it goes into.
-/

namespace TypedReply

namespace Descriptor

/-- Whether a descriptor is one, and not a value in the place of one. -/
def IsReal (descriptor : Descriptor) : Prop := ∀ value, descriptor ≠ .stray value

/-- What keeps a descriptor from being compiled: a record that it reaches declares a field named like
the tag, or two different structs that it reaches have one name. -/
inductive Flaw (store : Store) (target : Descriptor) : SchemaError → Prop where
  | reserved {descriptor : Descriptor} {record : RecordView}
      (reached : Reaches store target descriptor)
      (isRecord : descriptor.record? store = some record)
      (declared : typeKey ∈ record.fields.map (·.name)) :
      Flaw store target ⟨record.kind, .reservedField⟩
  | shared {id other : StructId} (reached : Reaches store target (.struct id))
      (otherReached : Reaches store target (.struct other)) (different : other ≠ id)
      (sameName : (store.at other).name = (store.at id).name) :
      Flaw store target ⟨(store.at id).name, .sharedName⟩

end Descriptor

namespace Compile

variable {options : Options} {store : Store} {target : Descriptor}

/-! ## Failures -/

section Ends

variable {expand : StructId → Action Value} {kept : Pass → Prop} {failed : Failure → Prop}

theorem ends_memberNodes {members : List Descriptor}
    (each : ∀ member ∈ members, ∀ before, kept before →
      Ends (node expand member) before (fun _ => kept) failed) (before : Pass)
    (holds : kept before) : Ends (memberNodes expand members) before (fun _ => kept) failed := by
  induction members generalizing before with
  | nil => simpa only [memberNodes, ends_pure] using holds
  | cons member members ih =>
      have rest := ih fun other isOther => each other (List.mem_cons_of_mem _ isOther)
      cases isNull : member.isNull with
      | true =>
          obtain rfl := Descriptor.eq_null_of_isNull isNull
          simpa only [memberNodes] using rest before holds
      | false =>
          simp only [memberNodes_cons expand isNull, ends_bind, ends_pure]
          exact (each member List.mem_cons_self before holds).mono fun _ => rest

/-- The fields of a record are compiled unless one is named like the tag. -/
theorem ends_fieldNodes (owner : String) (fields : List Field)
    (reserved : typeKey ∈ fields.map (·.name) → failed (.schema ⟨owner, .reservedField⟩))
    (each : ∀ field ∈ fields, ∀ before, kept before →
      Ends (node expand field.type) before (fun _ => kept) failed) (before : Pass)
    (holds : kept before) :
    Ends (fieldNodes expand owner fields) before (fun _ => kept) failed := by
  induction fields generalizing before with
  | nil => simpa only [fieldNodes, ends_pure] using holds
  | cons field fields ih =>
      have first := each field List.mem_cons_self before holds
      have rest := ih (fun isReserved => reserved (List.mem_cons_of_mem _ isReserved))
        fun other isOther => each other (List.mem_cons_of_mem _ isOther)
      obtain ⟨name, type, required, description, default⟩ := field
      by_cases isReserved : name = typeKey
      · simpa [fieldNodes, isReserved] using reserved (by simp [isReserved])
      · simp only [fieldNodes, isReserved, if_false, ends_bind, ends_pure]
        exact first.mono fun _ => rest

/-- The run of a descriptor that is reached keeps what every expansion of a struct keeps, and fails
only as expansions, records and strays that are reached do. -/
theorem ends_node_of_reached
    (expands : ∀ id, Descriptor.Reaches store target (.struct id) → ∀ before, kept before →
      Ends (expand id) before (fun _ => kept) failed)
    (reserved : ∀ descriptor record, Descriptor.Reaches store target descriptor →
      descriptor.record? store = some record → typeKey ∈ record.fields.map (·.name) →
        failed (.schema ⟨record.kind, .reservedField⟩))
    (strays : ∀ value, Descriptor.Reaches store target (.stray value) →
      failed (.fault (.notDescriptor value)))
    (descriptor : Descriptor) (reached : Descriptor.Reaches store target descriptor)
    (before : Pass) (holds : kept before) :
    Ends (node expand descriptor) before (fun _ => kept) failed := by
  induction descriptor using Descriptor.induction generalizing before with
  | scalar => simpa only [node, ends_pure] using holds
  | enum => simpa only [node, ends_pure] using holds
  | array element ih =>
      simp only [node, ends_bind, ends_pure]
      exact ih (reached.tail (.element element)) before holds
  | map key value keyIH valueIH =>
      simp only [node, ends_bind, ends_pure]
      exact (keyIH (reached.tail (.key key value)) before holds).mono fun _ =>
        valueIH (reached.tail (.value key value))
  | optional inner ih =>
      simp only [node, ends_bind, ends_pure]
      exact ih (reached.tail (.inner inner)) before holds
  | union members ih =>
      simp only [node, ends_bind, ends_pure]
      exact ends_memberNodes
        (fun member isMember => ih member isMember (reached.tail (.member isMember))) before holds
  | null => simpa only [node, ends_pure] using holds
  | fixed record ih =>
      simp only [node, ends_bind, ends_pure]
      exact ends_fieldNodes _ _ (fun declared => reserved _ _ reached rfl declared)
        (fun field isField => ih field isField (reached.tail (.field isField))) before holds
  | struct id =>
      simp only [node]
      exact expands id reached before holds
  | stray value =>
      simp only [node, ends_throw]
      exact strays value reached

/-- The run of a real descriptor that is reached keeps what every expansion of a struct keeps, and
fails only as expansions and records do. -/
theorem ends_node
    (expands : ∀ id, Descriptor.Reaches store target (.struct id) → ∀ before, kept before →
      Ends (expand id) before (fun _ => kept) failed)
    (fails : ∀ error, target.Flaw store error → failed (.schema error))
    (real : target.Throughout store Descriptor.IsReal) (descriptor : Descriptor)
    (reached : Descriptor.Reaches store target descriptor) (before : Pass)
    (holds : kept before) : Ends (node expand descriptor) before (fun _ => kept) failed :=
  ends_node_of_reached expands
    (fun _ _ isReached isRecord declared => fails _ (.reserved isReached isRecord declared))
    (fun value isReached => (real _ isReached value rfl).elim) descriptor reached before holds

end Ends

/-- The structs that a pass has met are reached, each under its name. -/
def Met (store : Store) (target : Descriptor) (pass : Pass) : Prop :=
  ∀ name id, pass.structs.lookup name = some id →
    Descriptor.Reaches store target (.struct id) ∧ (store.at id).name = name

theorem Met.opening {pass : Pass} (met : Met store target pass) {id : StructId}
    (reached : Descriptor.Reaches store target (.struct id)) :
    Met store target { pass with structs := ((store.at id).name, id) :: pass.structs } := by
  intro name found known
  by_cases same : name = (store.at id).name
  · subst same
    obtain rfl : id = found := by simpa using known
    exact ⟨reached, rfl⟩
  · have unequal : (name == (store.at id).name) = false := by simpa using same
    exact met name found (by simpa [List.lookup_cons, unequal] using known)

/-- Expanding a struct that is reached meets structs that are reached, and fails only for a flaw. -/
theorem ends_struct (options : Options) (real : target.Throughout store Descriptor.IsReal)
    (fuel : Nat) (visited : List String) (id : StructId)
    (reached : Descriptor.Reaches store target (.struct id)) (before : Pass)
    (met : Met store target before) :
    Ends (struct options store fuel visited id) before (fun _ => Met store target)
      (fun failure => ∃ error, failure = .schema error ∧ target.Flaw store error) := by
  induction fuel generalizing visited id before with
  | zero => simpa only [struct, ends_pure] using met
  | succ fuel ih =>
      have fields := ends_fieldNodes (store.at id).name (store.at id).fields
        (fun reserved => ⟨_, rfl, .reserved reached rfl reserved⟩)
        (fun field isField => ends_node (ih ((store.at id).name :: visited))
          (fun error flaw => ⟨error, rfl, flaw⟩) real field.type
          (reached.tail (.field isField)))
      simp only [struct, ends_bind, ends_get, ends_ite, ends_throw, ends_pure, ends_set, ends_modify]
      split
      next shared =>
        obtain ⟨other, known, different⟩ : ∃ other,
            before.structs.lookup (store.at id).name = some other ∧ other ≠ id := by
          simpa [Option.any_eq_true] using shared
        obtain ⟨otherReached, sameName⟩ := met _ other known
        exact ⟨_, rfl, .shared reached otherReached different sameName⟩
      next =>
        split
        · exact met
        · exact fields _ (met.opening reached)

/-! ## What a pass has met -/

/-- What is drawn in a consistent table has its parts drawn in it. -/
theorem exists_renders_of_part {pass : Pass} (consistent : Consistent options store [] pass)
    {descriptor part : Descriptor} {drawn : Value}
    (renders : Renders (StandsFor options store pass) descriptor drawn)
    (isPart : Descriptor.Part store descriptor part) :
    ∃ partDrawn, Renders (StandsFor options store pass) part partDrawn := by
  have ofFields {fields : List Field} {compiled : Fields}
      (renders : RendersFields (StandsFor options store pass) fields compiled) {field : Field}
      (isField : field ∈ fields) :
      ∃ partDrawn, Renders (StandsFor options store pass) field.type partDrawn := by
    obtain ⟨_, -, -, -, inner, renders, -⟩ :=
      exists_right_of_mem ((rendersFields_iff _ _).mp renders) isField
    exact ⟨inner, renders⟩
  cases isPart with
  | element =>
      simp only [Renders] at renders
      exact renders.imp fun _ drawn => drawn.1
  | key =>
      simp only [Renders] at renders
      obtain ⟨keyNode, _, renders, -, -⟩ := renders
      exact ⟨keyNode, renders⟩
  | value =>
      simp only [Renders] at renders
      obtain ⟨_, valueNode, -, renders, -⟩ := renders
      exact ⟨valueNode, renders⟩
  | inner =>
      simp only [Renders] at renders
      exact renders.imp fun _ drawn => drawn.1
  | member isMember =>
      simp only [Renders, rendersMembers_iff] at renders
      obtain ⟨nodes, renders, -⟩ := renders
      by_cases isNull : part.isNull = true
      · exact ⟨nullNode, by simp only [Descriptor.eq_null_of_isNull isNull, Renders]⟩
      · have notNull : part ∈ Descriptor.nonNull _ := List.mem_filter.mpr
          ⟨isMember, by simpa using isNull⟩
        obtain ⟨drawn, -, renders⟩ := exists_right_of_mem renders notNull
        exact ⟨drawn, renders⟩
  | field isField =>
      cases descriptor with
      | fixed record =>
          simp only [Renders] at renders
          obtain ⟨compiled, renders, -⟩ := renders
          exact ofFields renders isField
      | struct id =>
          simp only [Renders] at renders
          obtain ⟨compiled, renders, -⟩ := exists_body consistent renders
          exact ofFields renders isField
      | _ => cases isField

theorem exists_renders_of_reaches {pass : Pass} (consistent : Consistent options store [] pass)
    {drawn : Value} (renders : Renders (StandsFor options store pass) target drawn)
    {descriptor : Descriptor} (reached : Descriptor.Reaches store target descriptor) :
    ∃ partDrawn, Renders (StandsFor options store pass) descriptor partDrawn := by
  induction reached with
  | refl => exact ⟨drawn, renders⟩
  | tail _ isPart ih =>
      obtain ⟨_, renders⟩ := ih
      exact exists_renders_of_part consistent renders isPart

/-- A consistent table in which a descriptor is drawn has met every struct that it reaches. -/
theorem lookup_of_reaches {pass : Pass} (consistent : Consistent options store [] pass)
    {drawn : Value} (renders : Renders (StandsFor options store pass) target drawn) {id : StructId}
    (reached : Descriptor.Reaches store target (.struct id)) :
    pass.structs.lookup (store.at id).name = some id := by
  obtain ⟨node, stands⟩ := exists_renders_of_reaches consistent renders reached
  simp only [Renders] at stands
  exact stands.1

theorem not_flaw_of_renders {pass : Pass} (consistent : Consistent options store [] pass)
    {drawn : Value} (renders : Renders (StandsFor options store pass) target drawn)
    (error : SchemaError) : ¬target.Flaw store error := by
  intro flaw
  cases flaw with
  | @reserved descriptor record reached isRecord declared =>
      obtain ⟨node, renders⟩ := exists_renders_of_reaches consistent renders reached
      obtain ⟨compiled, renders⟩ : ∃ compiled,
          RendersFields (StandsFor options store pass) record.fields compiled := by
        cases descriptor with
        | fixed shape =>
            cases isRecord
            simp only [Renders] at renders
            exact renders.imp fun _ drawn => drawn.1
        | struct id =>
            cases isRecord
            simp only [Renders] at renders
            exact (exists_body consistent renders).imp fun _ body => body.1
        | _ => cases isRecord
      obtain ⟨field, isField, isReserved⟩ := List.mem_map.mp declared
      obtain ⟨_, -, free, -⟩ := exists_right_of_mem ((rendersFields_iff _ _).mp renders) isField
      exact free isReserved
  | shared reached otherReached different sameName =>
      have known := lookup_of_reaches consistent renders reached
      have otherKnown := lookup_of_reaches consistent renders otherReached
      rw [sameName, known] at otherKnown
      exact different (Option.some.inj otherKnown).symm

/-! ## Termination -/

/-- One step of the recursion over structs: the node of a struct by means of the expansions of the
structs inside it, at which more names are being compiled. -/
def expandStep (options : Options) (store : Store)
    (inside : List String → StructId → Action Value) (visited : List String) (id : StructId) :
    Action Value := do
  let found := store.at id
  let name := found.name
  let pass ← getThe Pass
  if (pass.structs.lookup name).any (· != id) then throw (.schema ⟨name, .sharedName⟩)
  else if visited.contains name || (pass.definitions.get? name).isSome then
    return refNode options name
  else
    set { pass with structs := (name, id) :: pass.structs }
    let fields ← fieldNodes (inside (name :: visited)) name found.fields
    let compiled := structNode options found fields
    modifyThe Pass fun pass => { pass with definitions := pass.definitions.put name compiled }
    return compiled

/-- The recursion over structs to some depth, below which anything may happen. -/
def unrolled (options : Options) (store : Store) (bottom : List String → StructId → Action Value) :
    Nat → List String → StructId → Action Value
  | 0 => bottom
  | depth + 1 => expandStep options store (unrolled options store bottom depth)

section Alike

variable {expand other : StructId → Action Value} {kept : Pass → Prop}
variable {leads : Pass → Pass → Prop} {drawn : Pass → StructId → Value → Prop}
variable (known : Expands expand kept leads drawn)
include known

theorem alike_memberNodes {members : List Descriptor}
    (each : ∀ member ∈ members, ∀ before, kept before →
      Alike (node expand member) (node other member) before) (before : Pass) (holds : kept before) :
    Alike (memberNodes expand members) (memberNodes other members) before := by
  induction members generalizing before with
  | nil => simpa only [memberNodes] using .refl _
  | cons member members ih =>
      have rest := ih fun later isLater => each later (List.mem_cons_of_mem _ isLater)
      cases isNull : member.isNull with
      | true =>
          obtain rfl := Descriptor.eq_null_of_isNull isNull
          simpa only [memberNodes] using rest before holds
      | false =>
          rw [memberNodes_cons expand isNull, memberNodes_cons other isNull]
          refine (each member List.mem_cons_self before holds).bind fun first between run => ?_
          exact (rest between (known.node member _ _ _ holds run).1).bind fun _ _ _ => .refl _

theorem alike_fieldNodes (owner : String) (fields : List Field)
    (each : ∀ field ∈ fields, ∀ before, kept before →
      Alike (node expand field.type) (node other field.type) before) (before : Pass)
    (holds : kept before) :
    Alike (fieldNodes expand owner fields) (fieldNodes other owner fields) before := by
  induction fields generalizing before with
  | nil => simpa only [fieldNodes] using .refl _
  | cons field fields ih =>
      have first := each field List.mem_cons_self before holds
      have rest := ih fun later isLater => each later (List.mem_cons_of_mem _ isLater)
      obtain ⟨name, type, required, description, default⟩ := field
      by_cases isReserved : name = typeKey
      · simpa [fieldNodes, isReserved] using .refl _
      · simp only [fieldNodes, isReserved, if_false]
        refine first.bind fun inner between run => ?_
        exact (rest between (known.node type _ _ _ holds run).1).bind fun _ _ _ => .refl _

/-- A descriptor is compiled alike where structs are. -/
theorem alike_node
    (same : ∀ id before, kept before → Alike (expand id) (other id) before)
    (descriptor : Descriptor) (before : Pass) (holds : kept before) :
    Alike (node expand descriptor) (node other descriptor) before := by
  induction descriptor using Descriptor.induction generalizing before with
  | array element ih =>
      simp only [node]
      exact (ih before holds).bind fun _ _ _ => .refl _
  | map key value keyIH valueIH =>
      simp only [node]
      refine (keyIH before holds).bind fun keyNode between run => ?_
      exact (valueIH between (known.node key _ _ _ holds run).1).bind fun _ _ _ => .refl _
  | optional inner ih =>
      simp only [node]
      exact (ih before holds).bind fun _ _ _ => .refl _
  | union members ih =>
      simp only [node]
      exact (alike_memberNodes known ih before holds).bind fun _ _ _ => .refl _
  | fixed record ih =>
      simp only [node]
      exact (alike_fieldNodes known _ _ ih before holds).bind fun _ _ _ => .refl _
  | struct id =>
      simp only [node]
      exact same id before holds
  | _ => simpa only [node] using .refl _

end Alike

/-- While fuel is left for every name that is not being compiled, it does not matter what lies below
the depth of the recursion. -/
theorem alike_unrolled (bottom : List String → StructId → Action Value) (fuel : Nat)
    (visited : List String) (distinct : visited.Nodup)
    (named : visited ⊆ "" :: store.map (·.name))
    (enough : visited.length + fuel = store.length + 2) (id : StructId) (before : Pass)
    (consistent : Consistent options store visited before) :
    Alike (struct options store fuel visited id) (unrolled options store bottom fuel visited id)
      before := by
  induction fuel generalizing visited id before with
  | zero => exact (not_exhausted distinct named enough).elim
  | succ fuel ih =>
      change Alike (expandStep options store (struct options store fuel) visited id)
        (expandStep options store (unrolled options store bottom fuel) visited id) before
      refine (Alike.refl _).bind fun pass between run => ?_
      obtain ⟨rfl, rfl⟩ := (yields_get _).mp run
      split
      · exact .refl _
      next own =>
        split
        · exact .refl _
        next unknown =>
          simp only [Bool.or_eq_true, not_or, List.contains_iff_mem] at unknown
          have distinct : ((store.at id).name :: visited).Nodup :=
            List.nodup_cons.mpr ⟨unknown.1, distinct⟩
          have named := List.cons_subset.mpr ⟨store.name_at_mem id, named⟩
          have enough : ((store.at id).name :: visited).length + fuel = store.length + 2 := by
            rw [List.length_cons]
            omega
          refine (Alike.refl _).bind fun _ opened run => ?_
          obtain rfl := (yields_set _ _).mp run
          have inside := expands_shared options store fuel _ distinct named enough
          have fields := alike_fieldNodes inside (store.at id).name (store.at id).fields
            (fun field _ => alike_node inside (ih _ distinct named enough) field.type) _
            (consistent.opening fun other found => by simpa [found] using own)
          exact fields.bind fun _ _ _ => .refl _

theorem alike_fresh (bottom : List String → StructId → Action Value) (target : Descriptor) :
    Alike (descriptor options store [] target)
      (node (unrolled options store bottom (store.length + 2) []) target) ⟨[], []⟩ :=
  alike_node (expands_shared options store _ [] List.nodup_nil (List.nil_subset _) (by simp))
    (alike_unrolled bottom _ [] List.nodup_nil (List.nil_subset _) (by simp)) target _
    (.fresh options store)

/-- A fresh pass returns a schema, or fails for a flaw. -/
theorem compile_ends (options : Options) (real : target.Throughout store Descriptor.IsReal) :
    (∃ compiled, compile options store target = .ok compiled) ∨
      ∃ error, compile options store target = .error (.schema error) ∧
        target.Flaw store error := by
  have ends : Ends (descriptor options store [] target) ⟨[], []⟩ (fun _ => Met store target)
      (fun failure => ∃ error, failure = .schema error ∧ target.Flaw store error) :=
    ends_node (ends_struct options real _ []) (fun error flaw => ⟨error, rfl, flaw⟩) real target
      .refl _ fun _ _ known => by cases known
  unfold Ends at ends
  unfold compile compileNode
  rcases run : (descriptor options store [] target).run ⟨[], []⟩ with ⟨failure | schema, pass⟩
  · rw [run] at ends
    obtain ⟨error, rfl, flaw⟩ := ends
    exact .inr ⟨error, rfl, flaw⟩
  · exact .inl ⟨_, rfl⟩

end Compile

/-- The fresh pass of a descriptor comes to an end whatever lies below its depth; it fails exactly
for a flaw of what the descriptor reaches, which it names, and otherwise returns a schema. -/
theorem compile_fails_iff_flawed (options : Options) {store : Store} {target : Descriptor}
    (real : target.Throughout store Descriptor.IsReal) :
    (∀ bottom, (Compile.node (Compile.unrolled options store bottom (store.length + 2) [])
        target).run ⟨[], []⟩ = (Compile.descriptor options store [] target).run ⟨[], []⟩) ∧
      ((∃ error, compile options store target = .error (.schema error)) ↔
        ∃ error, target.Flaw store error) ∧
      (∀ error, compile options store target = .error (.schema error) →
        target.Flaw store error) ∧
      ((∀ error, ¬target.Flaw store error) →
        ∃ compiled, compile options store target = .ok compiled) := by
  have flawless (compiled) (compiles : compile options store target = .ok compiled)
      (error : SchemaError) : ¬target.Flaw store error := by
    obtain ⟨pass, consistent, renders, -⟩ := Compile.compile_cases compiles
    exact Compile.not_flaw_of_renders consistent renders error
  have ends : (∃ compiled, compile options store target = .ok compiled) ∨
      ∃ error, compile options store target = .error (.schema error) ∧ target.Flaw store error :=
    Compile.compile_ends options real
  refine ⟨fun bottom => ?_, ⟨?_, ?_⟩, ?_, ?_⟩
  · exact (Compile.alike_fresh bottom target).symm
  · rintro ⟨error, fails⟩
    rcases ends with ⟨compiled, compiles⟩ | ⟨_, -, flaw⟩
    · cases compiles.symm.trans fails
    · exact ⟨_, flaw⟩
  · rintro ⟨error, flaw⟩
    rcases ends with ⟨compiled, compiles⟩ | ⟨found, fails, -⟩
    · exact (flawless compiled compiles error flaw).elim
    · exact ⟨found, fails⟩
  · intro error fails
    rcases ends with ⟨compiled, compiles⟩ | ⟨found, failsSo, flaw⟩
    · cases compiles.symm.trans fails
    · cases failsSo.symm.trans fails
      exact flaw
  · intro sound
    rcases ends with compiles | ⟨found, -, flaw⟩
    · exact compiles
    · exact (sound found flaw).elim

/-- Two structs of one name that refer to each other. -/
def namesakes : Store :=
  [⟨"Node", none, [⟨"next", .struct 1, true, none, none⟩], none⟩,
    ⟨"Node", none, [⟨"back", .optional (.struct 0), false, none, none⟩], none⟩]

def namesakeDescriptors : List Descriptor := [.struct 0, .struct 1, .optional (.struct 0)]

theorem namesakes_real : (Descriptor.struct 0).Throughout namesakes Descriptor.IsReal := by
  refine @Descriptor.Throughout.of_list _ _ _ namesakeDescriptors ?_ ?_ List.mem_cons_self
  · simp [namesakeDescriptors, namesakes, Descriptor.parts, Descriptor.fields, Store.at]
  · simp [namesakeDescriptors, Descriptor.IsReal]

/-- Structs of one name that refer to each other are refused. -/
theorem namesakes_refused :
    (Descriptor.struct 0).Throughout namesakes Descriptor.IsReal ∧
      ∃ error, compile Options.defaults namesakes (.struct 0) = .error (.schema error) := by
  have next : Descriptor.Reaches namesakes (.struct 0) (.struct 1) :=
    .single (@Descriptor.Part.field namesakes (.struct 0) ⟨"next", .struct 1, true, none, none⟩
      List.mem_cons_self)
  have flaw := Descriptor.Flaw.shared .refl next (by decide) rfl
  exact ⟨namesakes_real,
    (compile_fails_iff_flawed Options.defaults namesakes_real).2.1.mpr ⟨_, flaw⟩⟩

end TypedReply
