import TypedReply.Proofs.Action
import TypedReply.Proofs.Aligned
import TypedReply.Proofs.Descriptor.Reach
import TypedReply.Proofs.Schema.Nodes

/-!
# Nodes of a pass

What a pass makes of a descriptor, apart from the order in which it works: a node follows its
descriptor down to the structs, and each struct's node is left to a relation. Whatever every
expansion of a struct keeps and produces, a whole descriptor keeps and produces.
-/

namespace TypedReply

theorem Descriptor.eq_null_of_isNull {descriptor : Descriptor}
    (isNull : descriptor.isNull = true) : descriptor = .null := by
  cases descriptor <;> first | rfl | cases isNull

namespace Compile

mutual

/-- A node follows a descriptor; `drawn` says which nodes may stand for a struct. -/
def Renders (drawn : StructId → Value → Prop) : Descriptor → Value → Prop
  | .scalar kind, node => node = scalarNode kind
  | .enum type, node => node = enumNode type
  | .array element, node => ∃ inner, Renders drawn element inner ∧
      node = Fields.node [("type", .str "array"), ("items", inner)]
  | .map key value, node => ∃ keyNode valueNode, Renders drawn key keyNode ∧
      Renders drawn value valueNode ∧ node = mapNode keyNode valueNode
  | .optional inner, node => ∃ innerNode, Renders drawn inner innerNode ∧ node = nullable innerNode
  | .union members, node => ∃ nodes, RendersMembers drawn members nodes ∧
      node = unionNode (Descriptor.nilable members) nodes
  | .null, node => node = nullNode
  | .fixed ⟨fields, name, _, description⟩, node => ∃ compiled, RendersFields drawn fields compiled ∧
      node = recordNode name description (fields.map (·.name)) compiled
  | .struct id, node => drawn id node
  | .stray _, _ => False

/-- Nodes follow the members of a union other than null. -/
def RendersMembers (drawn : StructId → Value → Prop) : List Descriptor → List Value → Prop
  | [], nodes => nodes = []
  | member :: members, nodes =>
      if member.isNull then RendersMembers drawn members nodes
      else ∃ first rest, Renders drawn member first ∧ RendersMembers drawn members rest ∧
        nodes = first :: rest

/-- Named nodes follow the fields of a record, none of which is named like the tag. -/
def RendersFields (drawn : StructId → Value → Prop) : List (FieldOf Descriptor) → Fields → Prop
  | [], compiled => compiled = []
  | ⟨name, type, required, description, _⟩ :: fields, compiled => ∃ inner rest,
      name ≠ typeKey ∧ Renders drawn type inner ∧ RendersFields drawn fields rest ∧
        compiled = (name, fieldNode required description inner) :: rest

end

/-- A named node follows a field. -/
def RendersField (drawn : StructId → Value → Prop) (field : Field) (entry : String × Value) : Prop :=
  field.name ≠ typeKey ∧ entry.1 = field.name ∧
    ∃ inner, Renders drawn field.type inner ∧
      entry.2 = fieldNode field.required field.description inner

variable {drawn : StructId → Value → Prop}

/-- The nodes of a union's members follow those other than null one by one. -/
theorem rendersMembers_iff (members : List Descriptor) (nodes : List Value) :
    RendersMembers drawn members nodes ↔
      List.Forall₂ (Renders drawn) (Descriptor.nonNull members) nodes := by
  induction members generalizing nodes with
  | nil => simp [RendersMembers, Descriptor.nonNull]
  | cons member members ih =>
      simp only [Descriptor.nonNull] at ih ⊢
      cases isNull : member.isNull with
      | true => simp [RendersMembers, isNull, ih]
      | false => simp [RendersMembers, isNull, ih, List.forall₂_cons_left_iff]

theorem rendersFields_iff (fields : List Field) (compiled : Fields) :
    RendersFields drawn fields compiled ↔ List.Forall₂ (RendersField drawn) fields compiled := by
  induction fields generalizing compiled with
  | nil => simp [RendersFields]
  | cons field fields ih =>
      obtain ⟨name, type, required, description, default⟩ := field
      simp only [RendersFields, ih, List.forall₂_cons_left_iff, RendersField]
      constructor
      · rintro ⟨inner, rest, free, renders, follows, rfl⟩
        exact ⟨_, rest, ⟨free, rfl, inner, renders, rfl⟩, follows, rfl⟩
      · rintro ⟨⟨found, node⟩, rest, ⟨free, rfl, inner, renders, rfl⟩, follows, rfl⟩
        exact ⟨inner, rest, free, renders, follows, rfl⟩

mutual

/-- What follows a descriptor still does when more nodes may stand for structs. -/
theorem Renders.mono {more : StructId → Value → Prop}
    (mono : ∀ id node, drawn id node → more id node) : (descriptor : Descriptor) →
    (node : Value) → Renders drawn descriptor node → Renders more descriptor node
  | .scalar _, _, renders => by simpa only [Renders] using renders
  | .enum _, _, renders => by simpa only [Renders] using renders
  | .array element, _, renders => by
      simp only [Renders] at renders ⊢
      obtain ⟨inner, renders, rfl⟩ := renders
      exact ⟨inner, Renders.mono mono element inner renders, rfl⟩
  | .map key value, _, renders => by
      simp only [Renders] at renders ⊢
      obtain ⟨keyNode, valueNode, keyRenders, valueRenders, rfl⟩ := renders
      exact ⟨keyNode, valueNode, Renders.mono mono key _ keyRenders,
        Renders.mono mono value _ valueRenders, rfl⟩
  | .optional inner, _, renders => by
      simp only [Renders] at renders ⊢
      obtain ⟨innerNode, renders, rfl⟩ := renders
      exact ⟨innerNode, Renders.mono mono inner innerNode renders, rfl⟩
  | .union members, _, renders => by
      simp only [Renders] at renders ⊢
      obtain ⟨nodes, renders, rfl⟩ := renders
      exact ⟨nodes, RendersMembers.mono mono members nodes renders, rfl⟩
  | .null, _, renders => by simpa only [Renders] using renders
  | .fixed ⟨fields, _, _, _⟩, _, renders => by
      simp only [Renders] at renders ⊢
      obtain ⟨compiled, renders, rfl⟩ := renders
      exact ⟨compiled, RendersFields.mono mono fields compiled renders, rfl⟩
  | .struct id, node, renders => by
      simp only [Renders] at renders ⊢
      exact mono id node renders
  | .stray _, _, renders => by simp only [Renders] at renders

theorem RendersMembers.mono {more : StructId → Value → Prop}
    (mono : ∀ id node, drawn id node → more id node) : (members : List Descriptor) →
    (nodes : List Value) → RendersMembers drawn members nodes → RendersMembers more members nodes
  | [], _, renders => by simpa only [RendersMembers] using renders
  | member :: members, nodes, renders => by
      simp only [RendersMembers] at renders ⊢
      split at renders
      next isNull =>
        simp only [isNull, if_true]
        exact RendersMembers.mono mono members nodes renders
      next notNull =>
        obtain ⟨first, rest, renders, follows, rfl⟩ := renders
        simp only [notNull]
        exact ⟨first, rest, Renders.mono mono member first renders,
          RendersMembers.mono mono members rest follows, rfl⟩

theorem RendersFields.mono {more : StructId → Value → Prop}
    (mono : ∀ id node, drawn id node → more id node) : (fields : List (FieldOf Descriptor)) →
    (compiled : Fields) → RendersFields drawn fields compiled → RendersFields more fields compiled
  | [], _, renders => by simpa only [RendersFields] using renders
  | ⟨_, type, _, _, _⟩ :: fields, _, renders => by
      simp only [RendersFields] at renders ⊢
      obtain ⟨inner, rest, free, renders, follows, rfl⟩ := renders
      exact ⟨inner, rest, free, Renders.mono mono type inner renders,
        RendersFields.mono mono fields rest follows, rfl⟩

end

/-- Nodes that follow descriptors are compiled where those that stand for structs are. -/
theorem Renders.isCompiled (compiled : ∀ id node, drawn id node → IsCompiled node)
    {descriptor : Descriptor} {node : Value} (renders : Renders drawn descriptor node) :
    IsCompiled node := by
  induction descriptor using Descriptor.induction generalizing node with
  | scalar kind =>
      simp only [Renders] at renders
      exact renders ▸ isCompiled_scalarNode kind
  | enum type =>
      simp only [Renders] at renders
      exact renders ▸ isCompiled_enumNode type
  | array element =>
      simp only [Renders] at renders
      obtain ⟨inner, -, rfl⟩ := renders
      exact isCompiled_arrayNode inner
  | map key value =>
      simp only [Renders] at renders
      obtain ⟨keyNode, valueNode, -, -, rfl⟩ := renders
      exact isCompiled_mapNode keyNode valueNode
  | optional inner ih =>
      simp only [Renders] at renders
      obtain ⟨innerNode, renders, rfl⟩ := renders
      exact isCompiled_nullable (ih renders)
  | union members ih =>
      simp only [Renders, rendersMembers_iff] at renders
      obtain ⟨nodes, renders, rfl⟩ := renders
      refine isCompiled_unionNode (fun node isNode => ?_) _
      obtain ⟨member, isMember, renders⟩ := exists_left_of_mem renders isNode
      exact ih member (List.mem_of_mem_filter isMember) renders
  | null =>
      simp only [Renders] at renders
      exact renders ▸ isCompiled_nullNode
  | fixed record =>
      simp only [Renders] at renders
      obtain ⟨nodes, -, rfl⟩ := renders
      exact isCompiled_recordNode _ _ _ nodes
  | struct id =>
      simp only [Renders] at renders
      exact compiled id node renders
  | stray value => simp only [Renders] at renders

/-! ## Runs -/

/-- The first member of a union is compiled before the others, unless it is null. -/
theorem memberNodes_cons {m : Type → Type} [Monad m] [MonadExceptOf Failure m]
    (expand : StructId → m Value) {member : Descriptor} (notNull : member.isNull = false)
    (members : List Descriptor) :
    memberNodes expand (member :: members) = (do
      let first ← node expand member
      return first :: (← memberNodes expand members)) := by
  cases member with
  | null => cases notNull
  | _ => rw [memberNodes]; simp

/-- What is known of every expansion of a struct in a pass: it keeps an invariant, leads the pass on,
and leaves a node that stands for the struct however far the pass is led on. -/
structure Expands (expand : StructId → Action Value) (kept : Pass → Prop)
    (leads : Pass → Pass → Prop) (drawn : Pass → StructId → Value → Prop) : Prop where
  refl : ∀ pass, leads pass pass
  trans : ∀ {first second third}, leads first second → leads second third → leads first third
  mono : ∀ {first second}, leads first second → ∀ id node, drawn first id node → drawn second id node
  expands : ∀ {id before node after}, kept before → Yields (expand id) before node after →
    kept after ∧ leads before after ∧ drawn after id node

namespace Expands

variable {expand : StructId → Action Value} {kept : Pass → Prop} {leads : Pass → Pass → Prop}
variable {drawnIn : Pass → StructId → Value → Prop} (known : Expands expand kept leads drawnIn)
include known

mutual

/-- The run of a descriptor keeps what every expansion keeps, and its node follows the
descriptor. -/
theorem node : (descriptor : Descriptor) → (before : Pass) → (result : Value) → (after : Pass) →
    kept before → Yields (Compile.node expand descriptor) before result after →
      kept after ∧ leads before after ∧ Renders (drawnIn after) descriptor result
  | .scalar kind, before, result, after, holds, yields => by
      simp only [Compile.node, yields_pure] at yields
      obtain ⟨rfl, rfl⟩ := yields
      exact ⟨holds, known.refl _, by simp only [Renders]⟩
  | .enum type, before, result, after, holds, yields => by
      simp only [Compile.node, yields_pure] at yields
      obtain ⟨rfl, rfl⟩ := yields
      exact ⟨holds, known.refl _, by simp only [Renders]⟩
  | .array element, before, result, after, holds, yields => by
      simp only [Compile.node, yields_bind, yields_pure] at yields
      obtain ⟨inner, between, run, rfl, rfl⟩ := yields
      obtain ⟨holds, led, renders⟩ := node element before inner _ holds run
      exact ⟨holds, led, by simpa only [Renders] using ⟨inner, renders, rfl⟩⟩
  | .map key value, before, result, after, holds, yields => by
      simp only [Compile.node, yields_bind, yields_pure] at yields
      obtain ⟨keyNode, between, keyRun, valueNode, last, valueRun, rfl, rfl⟩ := yields
      obtain ⟨holds, led, keyRenders⟩ := node key before keyNode between holds keyRun
      obtain ⟨holds, ledOn, valueRenders⟩ := node value between valueNode _ holds valueRun
      refine ⟨holds, known.trans led ledOn, ?_⟩
      simp only [Renders]
      exact ⟨keyNode, valueNode, keyRenders.mono (known.mono ledOn), valueRenders, rfl⟩
  | .optional inner, before, result, after, holds, yields => by
      simp only [Compile.node, yields_bind, yields_pure] at yields
      obtain ⟨innerNode, between, run, rfl, rfl⟩ := yields
      obtain ⟨holds, led, renders⟩ := node inner before innerNode _ holds run
      exact ⟨holds, led, by simpa only [Renders] using ⟨innerNode, renders, rfl⟩⟩
  | .union members, before, result, after, holds, yields => by
      simp only [Compile.node, yields_bind, yields_pure] at yields
      obtain ⟨nodes, between, run, rfl, rfl⟩ := yields
      obtain ⟨holds, led, renders⟩ := memberNodes members before nodes _ holds run
      exact ⟨holds, led, by simpa only [Renders] using ⟨nodes, renders, rfl⟩⟩
  | .null, before, result, after, holds, yields => by
      simp only [Compile.node, yields_pure] at yields
      obtain ⟨rfl, rfl⟩ := yields
      exact ⟨holds, known.refl _, by simp only [Renders]⟩
  | .fixed ⟨fields, name, cls, description⟩, before, result, after, holds, yields => by
      simp only [Compile.node, yields_bind, yields_pure] at yields
      obtain ⟨compiled, between, run, rfl, rfl⟩ := yields
      obtain ⟨holds, led, renders⟩ := fieldNodes _ fields before compiled _ holds run
      exact ⟨holds, led, by simpa only [Renders] using ⟨compiled, renders, rfl⟩⟩
  | .struct id, before, result, after, holds, yields => by
      simp only [Compile.node] at yields
      simpa only [Renders] using known.expands holds yields
  | .stray value, before, result, after, holds, yields => by
      simp only [Compile.node, not_yields_throw] at yields

theorem memberNodes : (members : List Descriptor) → (before : Pass) → (nodes : List Value) →
    (after : Pass) → kept before →
      Yields (Compile.memberNodes expand members) before nodes after →
        kept after ∧ leads before after ∧ RendersMembers (drawnIn after) members nodes
  | [], before, nodes, after, holds, yields => by
      simp only [Compile.memberNodes, yields_pure] at yields
      obtain ⟨rfl, rfl⟩ := yields
      exact ⟨holds, known.refl _, by simp only [RendersMembers]⟩
  | member :: members, before, nodes, after, holds, yields => by
      cases isNull : member.isNull with
      | true =>
          obtain rfl := Descriptor.eq_null_of_isNull isNull
          simp only [Compile.memberNodes] at yields
          simpa [RendersMembers, isNull] using memberNodes members before nodes after holds yields
      | false =>
          simp only [memberNodes_cons expand isNull, yields_bind, yields_pure] at yields
          obtain ⟨first, between, run, rest, last, runs, rfl, rfl⟩ := yields
          obtain ⟨holds, led, renders⟩ := node member before first between holds run
          obtain ⟨holds, ledOn, follows⟩ := memberNodes members between rest _ holds runs
          refine ⟨holds, known.trans led ledOn, ?_⟩
          simp only [RendersMembers, isNull]
          exact ⟨first, rest, renders.mono (known.mono ledOn), follows, rfl⟩

theorem fieldNodes (owner : String) : (fields : List (FieldOf Descriptor)) → (before : Pass) →
    (compiled : Fields) → (after : Pass) → kept before →
      Yields (Compile.fieldNodes expand owner fields) before compiled after →
        kept after ∧ leads before after ∧ RendersFields (drawnIn after) fields compiled
  | [], before, compiled, after, holds, yields => by
      simp only [Compile.fieldNodes, yields_pure] at yields
      obtain ⟨rfl, rfl⟩ := yields
      exact ⟨holds, known.refl _, by simp only [RendersFields]⟩
  | ⟨name, type, required, description, default⟩ :: fields, before, compiled, after, holds,
      yields => by
      by_cases reserved : name = typeKey
      · simp [Compile.fieldNodes, reserved] at yields
      · simp only [Compile.fieldNodes, reserved, if_false, yields_bind, yields_pure] at yields
        obtain ⟨inner, between, run, rest, last, runs, rfl, rfl⟩ := yields
        obtain ⟨holds, led, renders⟩ := node type before inner between holds run
        obtain ⟨holds, ledOn, follows⟩ := fieldNodes owner fields between rest _ holds runs
        refine ⟨holds, known.trans led ledOn, ?_⟩
        simp only [RendersFields]
        exact ⟨inner, rest, reserved, renders.mono (known.mono ledOn), follows, rfl⟩

end

end Expands

/-- What the expansion of a struct does: it refers to a struct that is being compiled or defined,
and otherwise compiles its fields with the struct known, and defines it. -/
theorem struct_cases {options : Options} {store : Store} {fuel : Nat} {visited : List String}
    {id : StructId} {before after : Pass} {node : Value}
    (yields : Yields (struct options store (fuel + 1) visited id) before node after) :
    (∀ other, before.structs.lookup (store.at id).name = some other → other = id) ∧
    (((store.at id).name ∈ visited ∨ (before.definitions.get? (store.at id).name).isSome = true) ∧
        node = refNode options (store.at id).name ∧ after = before ∨
      (store.at id).name ∉ visited ∧ before.definitions.get? (store.at id).name = none ∧
        ∃ fields between,
          Yields (fieldNodes (struct options store fuel ((store.at id).name :: visited))
            (store.at id).name (store.at id).fields)
            { before with structs := ((store.at id).name, id) :: before.structs } fields between ∧
          node = structNode options (store.at id) fields ∧
          after = { between with
            definitions := between.definitions.put (store.at id).name node }) := by
  simp only [struct, yields_bind, yields_get, yields_ite] at yields
  obtain ⟨_, _, ⟨rfl, rfl⟩, yields⟩ := yields
  split at yields
  next => exact (not_yields_throw _ _ yields).elim
  next shared =>
    refine ⟨fun other found => by simpa [found] using shared, ?_⟩
    split at yields
    next known =>
      obtain ⟨rfl, rfl⟩ := (yields_pure _ _).mp yields
      exact .inl ⟨by simpa using known, rfl, rfl⟩
    next unknown =>
      simp only [yields_set, yields_modify, yields_pure] at yields
      obtain ⟨-, opened, rfl, fields, between, run, -, defined, rfl, rfl, rfl⟩ := yields
      simp only [Bool.or_eq_true, not_or, List.contains_iff_mem, Option.not_isSome_iff_eq_none]
        at unknown
      exact .inr ⟨unknown.1, unknown.2, fields, between, run, rfl, rfl⟩

end Compile

end TypedReply
