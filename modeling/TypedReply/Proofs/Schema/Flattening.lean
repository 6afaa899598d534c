import TypedReply.Proofs.Descriptor.Flattening
import TypedReply.Proofs.Schema.Nullability

/-!
# Schemas of flattened unions

A union of unions is compiled into alternatives among alternatives. What is compiled of a union, and in
which order, is what is compiled of the flattened union, so both end alike, and the nodes admit the same
values: what is spliced is what they come down to. Null is admitted by both where nothing that admits it
widens an enumeration whose choices shut it out.
-/

namespace TypedReply

namespace Descriptor

/-- A descriptor is another one, or is inside it under nothing but optionals and unions. -/
inductive Nests : Descriptor → Descriptor → Prop where
  | self (descriptor : Descriptor) : Nests descriptor descriptor
  | inner {inner part : Descriptor} (nests : Nests inner part) : Nests (.optional inner) part
  | member {members : List Descriptor} {member part : Descriptor} (isMember : member ∈ members)
      (nests : Nests member part) : Nests (.union members) part

/-- Null that a descriptor adds is not shut out by the choices of an enumeration. -/
def IsUnbarred (descriptor : Descriptor) : Prop :=
  ∀ part type, Nests descriptor part → part.widenedEnum? = some type → ¬type.BarsNull

theorem mem_spliced_of_enum? {descriptor : Descriptor} {type : EnumType}
    (isEnum : descriptor.enum? = some type) : .enum type ∈ descriptor.spliced := by
  induction descriptor using Descriptor.induction with
  | enum other =>
      rw [enum?] at isEnum
      cases isEnum
      exact List.mem_singleton_self _
  | union members ih =>
      rcases members with _ | ⟨member, _ | _⟩
      · simp [enum?] at isEnum
      · rw [enum?] at isEnum
        exact mem_splicedAll.mpr ⟨member, List.mem_singleton_self member,
          ih member (List.mem_singleton_self member) isEnum⟩
      · simp [enum?] at isEnum
  | _ => simp [enum?] at isEnum

theorem mem_spliced_of_widenedEnum? {descriptor : Descriptor} {type : EnumType}
    (isEnum : descriptor.widenedEnum? = some type) : .enum type ∈ descriptor.spliced := by
  induction descriptor using Descriptor.induction with
  | optional inner =>
      rw [widenedEnum?] at isEnum
      exact @mem_spliced_of_enum? inner type isEnum
  | union members ih =>
      cases isNilable : nilable members with
      | true =>
          rw [widenedEnum?_union_of_nilable isNilable] at isEnum
          split at isEnum
          next member others =>
            have isMember : member ∈ members :=
              List.mem_of_mem_filter (others ▸ List.mem_singleton_self member)
            exact mem_splicedAll.mpr ⟨member, isMember, mem_spliced_of_enum? isEnum⟩
          next => cases isEnum
      | false =>
          rcases members with _ | ⟨member, _ | _⟩
          · simp [widenedEnum?, isNilable] at isEnum
          · simp only [widenedEnum?] at isEnum
            exact mem_splicedAll.mpr ⟨member, List.mem_singleton_self member,
              ih member (List.mem_singleton_self member) isEnum⟩
          · simp [widenedEnum?, isNilable] at isEnum
  | _ => simp [widenedEnum?] at isEnum

theorem isUnbarred_of_spliced {descriptor : Descriptor}
    (without : ∀ type, .enum type ∉ descriptor.spliced) : descriptor.IsUnbarred := by
  intro part type nests widens
  have isFound := mem_spliced_of_widenedEnum? widens
  refine absurd ?_ (without type)
  clear without widens
  induction nests with
  | self => exact isFound
  | inner _ ih => exact ih isFound
  | member isMember _ ih => exact mem_splicedAll.mpr ⟨_, isMember, ih isFound⟩

end Descriptor

namespace Compile

open Descriptor

variable {options : Options} {store : Store} {fuel : Nat} {visited : List String}
variable {drawn : StructId → Value → Prop} {before : Pass}

theorem leaves_run {α : Type} (action : Action α) (before : Pass) :
    Leaves action before (fun result after => Yields action before result after)
      fun failure after => action.run before = (.error failure, after) := by
  unfold Leaves Yields
  split <;> assumption

theorem run_bind_of_error {α β : Type} {action : Action α} {failure : Failure} {after : Pass}
    (fails : action.run before = (.error failure, after)) (next : α → Action β) :
    (action >>= next).run before = (.error failure, after) := by
  rw [run_bind, fails]

theorem run_bind_of_yields {α β : Type} {action : Action α} {result : α} {between : Pass}
    (yields : Yields action before result between) (next : α → Action β) :
    (action >>= next).run before = (next result).run between := by
  rw [run_bind, show action.run before = _ from yields]

/-- The nodes of some members are compiled before those of others. -/
theorem memberNodes_append (expand : StructId → Action Value) (members others : List Descriptor) :
    memberNodes expand (members ++ others) = (do
      let first ← memberNodes expand members
      let rest ← memberNodes expand others
      return first ++ rest) := by
  induction members with
  | nil => simp [memberNodes]
  | cons member members ih =>
      cases isNull : member.isNull with
      | true =>
          obtain rfl := eq_null_of_isNull isNull
          simpa only [List.cons_append, memberNodes] using ih
      | false =>
          rw [List.cons_append, memberNodes_cons expand isNull, memberNodes_cons expand isNull, ih]
          simp

/-! ## Null -/

/-- What adds null admits it, if no enumeration bars it. -/
theorem validates_null_of_admitsNull
    (standing : ∀ id node, drawn id node → IsCompiled node ∧ IsSilent node) {descriptor : Descriptor}
    {node : Value} (renders : Renders drawn descriptor node)
    (admits : descriptor.admitsNull = true) (unbarred : descriptor.IsUnbarred)
    (definitions : Definitions) : Validates definitions node .null := by
  have compiled : ∀ id node, drawn id node → IsCompiled node :=
    fun id node holds => (standing id node holds).1
  have nullable {descriptor : Descriptor} {node : Value} (renders : Renders drawn descriptor node)
      (isNullable : descriptor.isNullable = true) (unbarred : descriptor.IsUnbarred) :
      Validates definitions node .null :=
    ((renders.stance standing).validates_null_iff
      (renders.acceptsNull_of_isNullable compiled isNullable) definitions).mpr
        fun type => unbarred descriptor type (.self descriptor)
  induction descriptor using Descriptor.induction generalizing node with
  | optional inner => exact nullable renders rfl unbarred
  | union members ih =>
      rcases admitsNull_union_iff.mp admits with isNilable | rfl | admits
      · exact nullable renders isNilable unbarred
      · simp only [Renders, RendersMembers] at renders
        obtain ⟨nodes, rfl, rfl⟩ := renders
        exact validates_nullNode.mpr rfl
      · obtain ⟨member, isMember, admits⟩ := anyAdmitsNull_iff.mp admits
        simp only [Renders, rendersMembers_iff] at renders
        obtain ⟨nodes, renders, rfl⟩ := renders
        have isOther : member ∈ nonNull members := by
          refine List.mem_filter.mpr ⟨isMember, ?_⟩
          cases member <;> first | rfl | cases admits
        obtain ⟨node, isNode, isOwn⟩ := exists_right_of_mem renders isOther
        have areCompiled : ∀ node ∈ nodes, IsCompiled node := fun node isNode => by
          obtain ⟨member, -, renders⟩ := exists_left_of_mem renders isNode
          exact renders.isCompiled compiled
        exact (validates_unionNode areCompiled _).mpr (.inl ⟨node, isNode,
          ih member isMember isOwn admits fun part type nests =>
            unbarred part type (.member isMember nests)⟩)
  | _ => cases admits

/-! ## Nodes and what is spliced -/

/-- Nodes come down to others: they admit what the others admit and perhaps null besides. -/
structure ComesDown (addsNull : Bool) (nodes others : List Value) : Prop where
  compiled : (∀ node ∈ nodes, IsCompiled node) ∧ ∀ node ∈ others, IsCompiled node
  sound : ∀ definitions value, (∃ node ∈ nodes, Validates definitions node value) →
    (∃ node ∈ others, Validates definitions node value) ∨ value = .null ∧ addsNull = true
  complete : ∀ definitions value, (∃ node ∈ others, Validates definitions node value) →
    ∃ node ∈ nodes, Validates definitions node value
  nonempty : nodes ≠ [] → others ≠ [] ∨ addsNull = true

namespace ComesDown

variable {addsNull addsMore : Bool} {nodes others moreNodes moreOthers : List Value} {node : Value}

theorem self (isCompiled : IsCompiled node) : ComesDown false [node] [node] where
  compiled := by simp [isCompiled]
  sound _ _ valid := .inl valid
  complete _ _ valid := valid
  nonempty nonempty := .inl nonempty

theorem append (first : ComesDown addsNull nodes others)
    (rest : ComesDown addsMore moreNodes moreOthers) :
    ComesDown (addsNull || addsMore) (nodes ++ moreNodes) (others ++ moreOthers) where
  compiled := by
    simp only [List.forall_mem_append]
    exact ⟨⟨first.compiled.1, rest.compiled.1⟩, first.compiled.2, rest.compiled.2⟩
  sound definitions value := by
    simp only [List.mem_append, or_and_right, exists_or, Bool.or_eq_true]
    rintro (valid | valid)
    · rcases first.sound definitions value valid with isOther | ⟨isNull, adds⟩
      · exact .inl (.inl isOther)
      · exact .inr ⟨isNull, .inl adds⟩
    · rcases rest.sound definitions value valid with isOther | ⟨isNull, adds⟩
      · exact .inl (.inr isOther)
      · exact .inr ⟨isNull, .inr adds⟩
  complete definitions value := by
    simp only [List.mem_append, or_and_right, exists_or]
    exact Or.imp (first.complete definitions value) (rest.complete definitions value)
  nonempty := by
    have isFirst := first.nonempty
    have isRest := rest.nonempty
    simp only [ne_eq, List.append_eq_nil_iff, Bool.or_eq_true] at *
    tauto

theorem nullable (comesDown : ComesDown addsNull [node] others) :
    ComesDown true [Compile.nullable node] others := by
  have isCompiled := comesDown.compiled.1 node (List.mem_singleton_self node)
  refine ⟨⟨?_, comesDown.compiled.2⟩, fun definitions value valid => ?_,
    fun definitions value valid => ?_, fun _ => .inr rfl⟩
  · simpa using isCompiled_nullable isCompiled
  · obtain ⟨_, isNode, valid⟩ := valid
    obtain rfl := List.mem_singleton.mp isNode
    rcases (validates_nullable isCompiled).mp valid with valid | ⟨isNull, -⟩
    · exact (comesDown.sound definitions value ⟨node, List.mem_singleton_self node, valid⟩).imp_right
        fun null => ⟨null.1, rfl⟩
    · exact .inr ⟨isNull, rfl⟩
  · obtain ⟨_, isNode, valid⟩ := comesDown.complete definitions value valid
    obtain rfl := List.mem_singleton.mp isNode
    exact ⟨_, List.mem_singleton_self _, (validates_nullable isCompiled).mpr (.inl valid)⟩

/-- The node of a union comes down to what those of its members come down to. -/
theorem unionNode {members : List Descriptor}
    (comesDown : ComesDown (anyAdmitsNull members) nodes others)
    (empty : nodes = [] → nonNull members = []) :
    ComesDown (Descriptor.union members).admitsNull
      [Compile.unionNode (Descriptor.nilable members) nodes] others := by
  have addsEmpty (isEmpty : nodes = []) : (Descriptor.union members).admitsNull = true := by
    refine admitsNull_union_iff.mpr ?_
    cases isNilable : Descriptor.nilable members with
    | true => exact .inl rfl
    | false => exact .inr (.inl (nonNull_of_not_nilable isNilable ▸ empty isEmpty))
  have union (definitions : Definitions) (value : Value) :=
    @validates_unionNode definitions value nodes comesDown.compiled.1 (Descriptor.nilable members)
  refine ⟨⟨?_, comesDown.compiled.2⟩, fun definitions value valid => ?_,
    fun definitions value valid => ?_, fun _ => ?_⟩
  · simpa using isCompiled_unionNode comesDown.compiled.1 _
  · obtain ⟨_, isNode, valid⟩ := valid
    obtain rfl := List.mem_singleton.mp isNode
    rcases (union definitions value).mp valid with valid | ⟨isNull, isEmpty | ⟨isNilable, -⟩⟩
    · exact (comesDown.sound definitions value valid).imp_right
        fun null => ⟨null.1, admitsNull_union_iff.mpr (.inr (.inr null.2))⟩
    · exact .inr ⟨isNull, addsEmpty isEmpty⟩
    · exact .inr ⟨isNull, admitsNull_union_iff.mpr (.inl isNilable)⟩
  · exact ⟨_, List.mem_singleton_self _,
      (union definitions value).mpr (.inl (comesDown.complete definitions value valid))⟩
  · by_cases isEmpty : nodes = []
    · exact .inr (addsEmpty isEmpty)
    · exact (comesDown.nonempty isEmpty).imp_right
        fun adds => admitsNull_union_iff.mpr (.inr (.inr adds))

/-- The node of a union and the node of the flattened union, whose members it comes down to, admit the
same values, and null too if both admit it where the members do. -/
theorem validates_iff_flattened {members : List Descriptor} {definitions : Definitions}
    (comesDown : ComesDown (Descriptor.union members).admitsNull [node] others)
    {value : Value} (null : value = .null → (Descriptor.union members).admitsNull = true →
      Validates definitions node .null ∧
        Validates definitions (Compile.unionNode (nilable (flattened members)) others) .null) :
    Validates definitions node value ↔
      Validates definitions (Compile.unionNode (nilable (flattened members)) others) value := by
  by_cases adds : value = .null ∧ (Descriptor.union members).admitsNull = true
  · obtain ⟨rfl, admits⟩ := adds
    exact iff_of_true (null rfl admits).1 (null rfl admits).2
  rw [validates_unionNode comesDown.compiled.2]
  constructor
  · intro valid
    exact (comesDown.sound definitions value ⟨node, List.mem_singleton_self node, valid⟩).imp_right
      fun isNull => absurd isNull adds
  · rintro (valid | ⟨isNull, isEmpty | ⟨isNilable, -⟩⟩)
    · obtain ⟨_, isNode, valid⟩ := comesDown.complete definitions value valid
      exact List.mem_singleton.mp isNode ▸ valid
    · rcases comesDown.nonempty (List.cons_ne_nil _ _) with nonempty | admits
      · exact absurd isEmpty nonempty
      · exact absurd ⟨isNull, admits⟩ adds
    · refine absurd ⟨isNull, admitsNull_union_iff.mpr ?_⟩ adds
      exact (nilable_flattened_iff.mp isNilable).imp_right .inr

end ComesDown

section Runs

variable (options store fuel visited)

/-- Compiling a descriptor runs as compiling what is spliced for it, and its node comes down to the
nodes of that. -/
def RunsAlong (descriptor : Descriptor) : Prop :=
  ∀ before, Leaves (memberNodes (struct options store fuel visited) descriptor.spliced) before
    (fun others after => ∃ result,
      Yields (node (struct options store fuel visited) descriptor) before result after ∧
        ComesDown (descriptor.admitsNull || descriptor.isNull) [result] others)
    fun failure after =>
      (node (struct options store fuel visited) descriptor).run before = (.error failure, after)

/-- Members are compiled as what is spliced for them if each is. -/
theorem leaves_splicedAll {members : List Descriptor}
    (each : ∀ member ∈ members, RunsAlong options store fuel visited member) (before : Pass) :
    Leaves (memberNodes (struct options store fuel visited) (splicedAll members)) before
      (fun others after => ∃ results,
        Yields (memberNodes (struct options store fuel visited) members) before results after ∧
          ComesDown (anyAdmitsNull members) results others ∧
            (results = [] → nonNull members = []))
      fun failure after =>
        (memberNodes (struct options store fuel visited) members).run before =
          (.error failure, after) := by
  induction members generalizing before with
  | nil =>
      simp only [splicedAll, memberNodes, leaves_pure]
      refine ⟨[], (yields_pure _ _).mpr ⟨rfl, rfl⟩, ?_, fun _ => rfl⟩
      exact ⟨by simp, by simp, by simp, by simp⟩
  | cons member members ih =>
      obtain ⟨first, others⟩ := List.forall_mem_cons.mp each
      cases isNull : member.isNull with
      | true =>
          obtain rfl := eq_null_of_isNull isNull
          have skipped : memberNodes (struct options store fuel visited)
              (splicedAll (.null :: members)) =
                memberNodes (struct options store fuel visited) (splicedAll members) := by
            rw [splicedAll, spliced_of_isLeaf rfl, List.singleton_append, memberNodes]
          rw [skipped]
          simp only [memberNodes, anyAdmitsNull, admitsNull, Bool.false_or]
          exact ih others before
      | false =>
          rw [splicedAll, memberNodes_append, memberNodes_cons _ isNull, leaves_bind]
          refine (first before).imp (fun nodes between isFirst => ?_) fun failure after fails => ?_
          · obtain ⟨result, yields, comesDown⟩ := isFirst
            rw [leaves_bind]
            refine (ih others between).imp (fun moreNodes after isRest => ?_) fun failure
              after fails => ?_
            · obtain ⟨results, yieldsRest, rest, -⟩ := isRest
              refine ⟨result :: results, ?_, ?_, fun isEmpty => by cases isEmpty⟩
              · simp only [yields_bind, yields_pure]
                exact ⟨result, between, yields, results, after, yieldsRest, rfl, rfl⟩
              · have both := comesDown.append rest
                rwa [isNull, Bool.or_false] at both
            · rw [run_bind_of_yields yields]
              exact run_bind_of_error fails _
          · exact run_bind_of_error fails _

theorem runsAlong (descriptor : Descriptor) : RunsAlong options store fuel visited descriptor := by
  have known := expands_struct options store fuel visited
  induction descriptor using Descriptor.induction with
  | optional inner ih =>
      intro before
      simp only [spliced, node]
      refine (ih before).imp (fun others after isInner => ?_) fun failure after fails => ?_
      · obtain ⟨result, yields, comesDown⟩ := isInner
        refine ⟨nullable result, ?_, comesDown.nullable⟩
        simp only [yields_bind, yields_pure]
        exact ⟨result, after, yields, rfl, rfl⟩
      · exact run_bind_of_error fails _
  | union members ih =>
      intro before
      simp only [spliced, node]
      refine (leaves_splicedAll options store fuel visited ih before).imp
        (fun others after areMembers => ?_) fun failure after fails => ?_
      · obtain ⟨results, yields, comesDown, empty⟩ := areMembers
        refine ⟨unionNode (nilable members) results, ?_, ?_⟩
        · simp only [yields_bind, yields_pure]
          exact ⟨results, after, yields, rfl, rfl⟩
        · have notNull : (Descriptor.union members).isNull = false := rfl
          rw [notNull, Bool.or_false]
          exact comesDown.unionNode empty
      · exact run_bind_of_error fails _
  | null =>
      intro before
      simp only [spliced, memberNodes, node, leaves_pure]
      refine ⟨nullNode, (yields_pure _ _).mpr ⟨rfl, rfl⟩, ?_⟩
      refine ⟨by simp [isCompiled_nullNode], fun definitions value valid => ?_, by simp,
        fun _ => .inr rfl⟩
      simp only [List.mem_singleton, exists_eq_left, validates_nullNode] at valid
      exact .inr ⟨valid, rfl⟩
  | _ =>
      intro before
      rw [spliced_of_isLeaf rfl, memberNodes_cons _ rfl, leaves_bind]
      refine (leaves_run _ before).imp (fun result after yields => ?_) fun failure after fails => fails
      obtain ⟨-, -, renders⟩ := known.node _ before result after trivial yields
      simp only [memberNodes, pure_bind, leaves_pure]
      exact ⟨result, yields, .self (renders.isCompiled fun _ _ standing => standing.1)⟩

end Runs

/-! ## Schemas -/

theorem compile_of_yields {target : Descriptor} {schema : Value} {pass : Pass}
    (yields : Yields (Compile.descriptor options store [] target) ⟨[], []⟩ schema pass) :
    compile options store target =
      .ok ⟨schema, Value.entriesOf pass.definitions, options.defsKey⟩ := by
  unfold compile compileNode
  rw [show (Compile.descriptor options store [] target).run ⟨[], []⟩ = _ from yields]
  rfl

theorem compile_of_error {target : Descriptor} {failure : Failure} {pass : Pass}
    (fails : (Compile.descriptor options store [] target).run ⟨[], []⟩ = (.error failure, pass)) :
    compile options store target = .error failure := by
  unfold compile compileNode
  rw [fails]
  rfl

/-- Two compiled schemas refer to the same definitions, and admit the same values but for null if
this is not counted. -/
structure MeansSame (countsNull : Prop) (compiled other : Compiled) : Prop where
  definitions : compiled.definitions = other.definitions
  defsKey : compiled.defsKey = other.defsKey
  admits : ∀ value, (value = .null → countsNull) → (compiled.Admits value ↔ other.Admits value)

/-- A union and the flattened union are compiled alike: either both fail for the same reason, or both
schemas mean the same, of null too if no null is barred in either. -/
theorem compile_flattened (options : Options) (store : Store) (members : List Descriptor) :
    (∃ failure, compile options store (.union members) = .error failure ∧
      compile options store (.union (flattened members)) = .error failure) ∨
    ∃ compiled other, compile options store (.union members) = .ok compiled ∧
      compile options store (.union (flattened members)) = .ok other ∧
        MeansSame ((Descriptor.union members).IsUnbarred ∧
          (Descriptor.union (flattened members)).IsUnbarred) compiled other := by
  have known := expands_struct options store (store.length + 2) []
  have flattenedNodes : memberNodes (struct options store (store.length + 2) []) (flattened members) =
      memberNodes (struct options store (store.length + 2) []) (splicedAll members) := by
    rw [flattened, memberNodes_append]
    split <;> simp [memberNodes]
  have alike := runsAlong options store (store.length + 2) [] (.union members) ⟨[], []⟩
  have run := leaves_run
    (memberNodes (struct options store (store.length + 2) []) (splicedAll members)) ⟨[], []⟩
  unfold Leaves at alike run
  rw [spliced] at alike
  rcases ran : (memberNodes (struct options store (store.length + 2) []) (splicedAll members)).run
    ⟨[], []⟩ with ⟨failure | nodes, pass⟩
  · rw [ran] at alike
    refine .inl ⟨failure, compile_of_error alike, ?_⟩
    have fails : (Compile.descriptor options store [] (.union (flattened members))).run ⟨[], []⟩ =
        (.error failure, pass) := by
      rw [Compile.descriptor, node, flattenedNodes]
      exact run_bind_of_error ran _
    exact compile_of_error fails
  · rw [ran] at alike
    obtain ⟨result, yields, comesDown⟩ := alike
    have yieldsOther : Yields (Compile.descriptor options store [] (.union (flattened members)))
        ⟨[], []⟩ (unionNode (nilable (flattened members)) nodes) pass := by
      rw [Compile.descriptor, node, flattenedNodes, yields_bind]
      exact ⟨nodes, pass, ran, (yields_pure _ _).mpr ⟨rfl, rfl⟩⟩
    refine .inr ⟨_, _, compile_of_yields yields, compile_of_yields yieldsOther, rfl, rfl,
      fun value counted => ?_⟩
    obtain ⟨-, -, renders⟩ := known.node _ _ _ _ trivial yields
    obtain ⟨-, -, rendersOther⟩ := known.node _ _ _ _ trivial yieldsOther
    have comesDown : ComesDown (Descriptor.union members).admitsNull [result] nodes := by
      have notNull : (Descriptor.union members).isNull = false := rfl
      rwa [notNull, Bool.or_false] at comesDown
    refine comesDown.validates_iff_flattened fun isNull admits => ?_
    obtain ⟨unbarred, unbarredOther⟩ := counted isNull
    exact ⟨validates_null_of_admitsNull (fun _ _ standing => standing) renders admits unbarred _,
      validates_null_of_admitsNull (fun _ _ standing => standing) rendersOther
        (admitsNull_flattened admits) unbarredOther _⟩

end Compile

end TypedReply
