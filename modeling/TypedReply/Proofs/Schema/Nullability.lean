import TypedReply.Proofs.Descriptor.Reach
import TypedReply.Proofs.Schema.Pass

/-!
# Null in nullable positions

An optional, a nilable union and a field that need not be given are compiled so that they admit
null: by naming null beside the type, by an alternative, or by leaving alone a node that admits null
already. A list of choices is carried over unchanged beside the widened type, and shuts null out
again. Null is admitted in every nullable position but those of such an enumeration.
-/

namespace TypedReply

/-- The choices of an enumeration shut null out of its widened node: they are texts, or values of
one type, and null is not among them. -/
def EnumType.BarsNull (type : EnumType) : Prop :=
  type.literals = [] ∨
    (∃ name, ∀ choice ∈ type.literals, Compile.choiceType (memberValue choice) = name) ∧
      ∀ choice ∈ type.literals, memberValue choice ≠ .null

/-- The choices of an enumeration of texts are texts. -/
theorem EnumType.isSome_text?_of_mem_values {type : EnumType} (texts : type.literals = [])
    {choice : Value}
    (isChoice : choice ∈ type.values) : choice.text?.isSome = true := by
  cases type with
  | choices values =>
      by_cases allTexts : EnumType.allTexts values = true
      · simp only [EnumType.values, allTexts, if_true] at isChoice
        exact List.all_eq_true.mp allTexts choice isChoice
      · simp [EnumType.values, EnumType.literals, allTexts] at isChoice texts
        simp [texts] at isChoice
  | ofClass cls =>
      obtain ⟨entry, -, rfl⟩ := List.mem_map.mp isChoice
      rfl

namespace Descriptor

/-- The enumeration that a descriptor is, alone or as the only member of a union. -/
def enum? : Descriptor → Option EnumType
  | .enum type => some type
  | .union [member] => member.enum?
  | _ => none

/-- The enumeration that a descriptor widens by null without an alternative. -/
def widenedEnum? : Descriptor → Option EnumType
  | .optional inner => inner.enum?
  | .union [member] => member.widenedEnum?
  | .union members => if nilable members then
      match nonNull members with
      | [member] => member.enum?
      | _ => none
    else none
  | _ => none

/-- Whether a descriptor is an optional or a union with null. -/
def isNullable : Descriptor → Bool
  | .optional _ => true
  | .union members => nilable members
  | _ => false

theorem nonNull_of_not_nilable {members : List Descriptor} (without : nilable members = false) :
    nonNull members = members := by
  simpa [nonNull, nilable] using without

theorem enum?_union_of_nilable {members : List Descriptor} (nilable : nilable members = true) :
    (union members).enum? = none := by
  match members with
  | [] => simp [enum?]
  | [member] =>
      cases member <;> simp [Descriptor.nilable, isNull] at nilable
      simp [enum?]
  | _ :: _ :: _ => simp [enum?]

theorem widenedEnum?_union_of_nilable {members : List Descriptor}
    (nilable : nilable members = true) : (union members).widenedEnum? =
      match nonNull members with
      | [member] => member.enum?
      | _ => none := by
  match members with
  | [] => simp [Descriptor.nilable] at nilable
  | [member] =>
      cases member <;> simp [Descriptor.nilable, isNull] at nilable
      simp [widenedEnum?, nonNull, isNull]
  | _ :: _ :: _ => simp [widenedEnum?, nilable]

end Descriptor

namespace Compile

/-! ## Enumerations -/

theorem null_not_mem_values {type : EnumType} (texts : type.literals = []) :
    .null ∉ type.values :=
  fun isChoice => nomatch EnumType.isSome_text?_of_mem_values texts isChoice

theorem eraseDups_eq_singleton (names : List String) (name : String) :
    names.eraseDups = [name] ↔ names ≠ [] ∧ ∀ other ∈ names, other = name := by
  constructor
  · intro single
    have same (other : String) : other ∈ names ↔ other = name := by
      rw [← List.mem_eraseDups, single, List.mem_singleton]
    exact ⟨List.ne_nil_of_mem ((same name).mpr rfl), fun other => (same other).mp⟩
  · rintro ⟨nonempty, same⟩
    obtain ⟨first, rest, rfl⟩ := List.exists_cons_of_ne_nil nonempty
    obtain rfl := same first List.mem_cons_self
    have dropped : (rest.filter fun other => !other == first) = [] := by
      simpa using fun other isOther => same other (List.mem_cons_of_mem _ isOther)
    rw [List.eraseDups_cons, dropped, List.eraseDups_nil]

/-- The type keyword that the values of several types are given. -/
def typeKeyword (names : List String) : Value :=
  match names.eraseDups with
  | [single] => .str single
  | several => .list (several.map .str)

theorem exists_typeKeyword (names : List String) :
    (∃ name, typeKeyword names = .str name) ∨ ∃ several, typeKeyword names = .list several := by
  unfold typeKeyword
  split
  · exact .inl ⟨_, rfl⟩
  · exact .inr ⟨_, rfl⟩

theorem typeKeyword_eq_str (names : List String) (name : String) :
    typeKeyword names = .str name ↔ names ≠ [] ∧ ∀ other ∈ names, other = name := by
  rw [← eraseDups_eq_singleton, typeKeyword]
  split
  next single same => simp [same]
  next several => simpa using several name

/-- The node of an enumeration of choices that are not all texts. -/
theorem enumNode_of_literals {type : EnumType} (literals : type.literals ≠ []) :
    enumNode type = Fields.node
      [("type", typeKeyword ((type.literals.map memberValue).map choiceType)),
        ("enum", .list (type.literals.map memberValue))] := by
  have nonempty : type.literals.isEmpty = false := by simpa using literals
  simp only [enumNode, nonempty, typeKeyword]
  rfl

theorem shutsNullOut_enumNode (type : EnumType) : ShutsNullOut (enumNode type) ↔ type.BarsNull := by
  by_cases texts : type.literals = []
  · simp [enumNode, texts, ShutsNullOut, EnumType.BarsNull, Fields.get?_cons,
      null_not_mem_values texts]
  · simp [enumNode_of_literals texts, ShutsNullOut, EnumType.BarsNull, Fields.get?_cons,
      typeKeyword_eq_str, texts]

theorem choiceType_ne_null (choice : Value) : choiceType choice ≠ "null" := by
  unfold choiceType
  split
  · decide
  · decide
  · split <;> decide

/-! ## Stances on null -/

/-- A node's type is the text null: what the alternatives of a node are asked. -/
def saysNull (node : Value) : Bool := (node.get? "type").any (·.isText "null")

theorem namesNull_typeKeyword (choices : List Value) :
    namesNull (typeKeyword (choices.map choiceType)) = false := by
  unfold typeKeyword
  split
  next single same =>
    have isType : single ∈ choices.map choiceType := by
      rw [← List.mem_eraseDups, same, List.mem_singleton]
    obtain ⟨choice, -, rfl⟩ := List.mem_map.mp isType
    simp [namesNull, choiceType_ne_null]
  next several =>
    simp only [namesNull, List.any_eq_false, List.mem_map, List.mem_eraseDups]
    rintro _ ⟨_, ⟨choice, -, rfl⟩, rfl⟩
    simp [Value.isText, Value.text?, choiceType_ne_null]

theorem acceptsNull_enumNode (type : EnumType) : acceptsNull (enumNode type) = false := by
  by_cases texts : type.literals = []
  · simp [enumNode, texts, acceptsNull, Fields.get?_cons, namesNull]
  · simpa [enumNode_of_literals texts, acceptsNull, Fields.get?_cons] using
      namesNull_typeKeyword (type.literals.map memberValue)

theorem saysNull_enumNode (type : EnumType) : saysNull (enumNode type) = false := by
  by_cases texts : type.literals = []
  · simp [enumNode, texts, saysNull, Fields.get?_cons, Value.isText, Value.text?]
  · have unnamed := namesNull_typeKeyword (type.literals.map memberValue)
    simp only [saysNull, enumNode_of_literals texts, Fields.get?_node, Fields.get?_cons, if_true,
      Option.any_some]
    rcases exists_typeKeyword ((type.literals.map memberValue).map choiceType) with
      ⟨name, isName⟩ | ⟨several, isList⟩
    · rw [isName] at unnamed ⊢
      simpa [namesNull, Value.isText, Value.text?] using unnamed
    · rw [isList]
      rfl

theorem saysNull_nullable {node : Value} (isCompiled : IsCompiled node) :
    saysNull (nullable node) = false := by
  obtain ⟨fields, rfl⟩ := isCompiled.named
  by_cases single : ∃ name, fields.get? "type" = some (.str name)
  · obtain ⟨name, single⟩ := single
    simp [nullable_of_single single, saysNull, Fields.get?_cons, Value.isText, Value.text?]
  · rw [nullable_of_other fun name typed => single ⟨name, by simpa using typed⟩]
    simp [saysNull, Fields.get?_cons]

theorem acceptsNull_nullable {node : Value} (isCompiled : IsCompiled node) :
    acceptsNull (nullable node) = true := by
  obtain ⟨fields, rfl⟩ := isCompiled.named
  by_cases single : ∃ name, fields.get? "type" = some (.str name)
  · obtain ⟨name, single⟩ := single
    simp [nullable_of_single single, acceptsNull, Fields.get?_cons, namesNull, Value.isText,
      Value.text?]
  · rw [nullable_of_other fun name typed => single ⟨name, by simpa using typed⟩]
    simp [acceptsNull, Fields.get?_cons, Value.items?, nullNode, typeNode, Value.isText,
      Value.text?]

theorem acceptsNull_nullNode : acceptsNull nullNode = true := by
  simp [nullNode, typeNode, acceptsNull, Fields.get?_cons, namesNull]

theorem acceptsNull_unionNode {nodes : List Value} (compiled : ∀ node ∈ nodes, IsCompiled node) :
    acceptsNull (unionNode true nodes) = true := by
  match nodes with
  | [] => exact acceptsNull_nullNode
  | [single] => exact acceptsNull_nullable (compiled single (by simp))
  | first :: second :: rest =>
      simp [unionNode, acceptsNull, Fields.get?_cons, Value.items?, nullNode, typeNode,
        Value.isText, Value.text?]

/-- A node neither lists choices nor says that it admits null. -/
structure IsSilent (node : Value) : Prop where
  unlisted : node.get? "enum" = none
  unsaid : saysNull node = false
  withoutNull : acceptsNull node = false

/-- How the node of a descriptor stands to null. -/
inductive Stance (descriptor : Descriptor) (node : Value) : Prop where
  | silent (isSilent : IsSilent node) (plain : descriptor.enum? = none)
      (unwidened : descriptor.widenedEnum? = none)
  | enumerates (type : EnumType) (isEnum : descriptor.enum? = some type)
      (unwidened : descriptor.widenedEnum? = none) (isNode : node = enumNode type)
  | widens (type : EnumType) (plain : descriptor.enum? = none)
      (widened : descriptor.widenedEnum? = some type) (isNode : node = nullable (enumNode type))
  | admits (said : acceptsNull node = true)
      (validates : ∀ definitions, Validates definitions node .null)
      (plain : descriptor.enum? = none) (unwidened : descriptor.widenedEnum? = none)

variable {drawn : StructId → Value → Prop}

theorem not_shutsNullOut_of_unlisted {node : Value} (unlisted : node.get? "enum" = none) :
    ¬ShutsNullOut node := by
  rintro ⟨name, choices, -, listed, -⟩
  rw [unlisted] at listed
  cases listed

theorem not_shutsNullOut_nullable {node : Value} (isCompiled : IsCompiled node) :
    ¬ShutsNullOut (nullable node) := by
  rintro ⟨other, choices, typed, -⟩
  obtain ⟨fields, rfl⟩ := isCompiled.named
  by_cases single : ∃ name, fields.get? "type" = some (.str name)
  · obtain ⟨name, single⟩ := single
    simp [nullable_of_single single, Fields.get?_cons] at typed
  · rw [nullable_of_other fun name typed => single ⟨name, by simpa using typed⟩] at typed
    simp [Fields.get?_cons] at typed

namespace Stance

variable {inner : Descriptor} {node : Value}

theorem not_shutsNullOut (stance : Stance inner node) (isCompiled : IsCompiled node)
    (plain : inner.enum? = none) : ¬ShutsNullOut node := by
  cases stance with
  | silent isSilent => exact not_shutsNullOut_of_unlisted isSilent.unlisted
  | enumerates type isEnum =>
      rw [plain] at isEnum
      cases isEnum
  | widens type _ _ isNode =>
      subst isNode
      exact not_shutsNullOut_nullable (isCompiled_enumNode type)
  | admits _ validates =>
      obtain ⟨fields, rfl⟩ := isCompiled.named
      exact fun shuts => shuts.not_validates (validates ⟨"", []⟩)

/-- Unless a node is one of an enumeration, it admits null once it is widened. -/
theorem admits_nullable (stance : Stance inner node) (isCompiled : IsCompiled node)
    (plain : inner.enum? = none) (definitions : Definitions) :
    Validates definitions (nullable node) .null :=
  (validates_nullable isCompiled).mpr (.inr ⟨rfl, stance.not_shutsNullOut isCompiled plain⟩)

theorem widen (stance : Stance inner node) (isCompiled : IsCompiled node)
    {descriptor : Descriptor} (plain : descriptor.enum? = none)
    (widened : descriptor.widenedEnum? = inner.enum?) : Stance descriptor (nullable node) := by
  cases isEnum : inner.enum? with
  | none =>
      exact .admits (acceptsNull_nullable isCompiled)
        (stance.admits_nullable isCompiled isEnum) plain (widened.trans isEnum)
  | some type =>
      cases stance with
      | enumerates other same _ isNode =>
          exact .widens other plain (widened.trans same) (congrArg nullable isNode)
      | silent _ none => simp [isEnum] at none
      | widens _ none => simp [isEnum] at none
      | admits _ _ none => simp [isEnum] at none

theorem ofSole (stance : Stance inner node) : Stance (.union [inner]) node := by
  have plain : (Descriptor.union [inner]).enum? = inner.enum? := by simp [Descriptor.enum?]
  have widening : (Descriptor.union [inner]).widenedEnum? = inner.widenedEnum? := by
    simp [Descriptor.widenedEnum?]
  cases stance with
  | silent isSilent none unwidened =>
      exact .silent isSilent (plain.trans none) (widening.trans unwidened)
  | enumerates type isEnum unwidened isNode =>
      exact .enumerates type (plain.trans isEnum) (widening.trans unwidened) isNode
  | widens type none widened isNode =>
      exact .widens type (plain.trans none) (widening.trans widened) isNode
  | admits said validates none unwidened =>
      exact .admits said validates (plain.trans none) (widening.trans unwidened)

end Stance

theorem stance_anyOf {descriptor : Descriptor} {nodes : List Value}
    (stances : ∀ node ∈ nodes, ∃ member, Stance member node)
    (plain : descriptor.enum? = none) (unwidened : descriptor.widenedEnum? = none) :
    Stance descriptor (Fields.node [("anyOf", .list nodes)]) := by
  have spoken : acceptsNull (Fields.node [("anyOf", .list nodes)]) = nodes.any saysNull := by
    simp [acceptsNull, Fields.get?_cons, Value.items?]
    rfl
  cases anySays : nodes.any saysNull with
  | false =>
      refine .silent ⟨?_, ?_, spoken.trans anySays⟩ plain unwidened <;>
        simp [saysNull, Fields.get?_cons]
  | true =>
      refine .admits (spoken.trans anySays) (fun definitions => ?_) plain unwidened
      obtain ⟨node, isNode, saysSo⟩ := List.any_eq_true.mp anySays
      refine (validates_anyOfNode nodes).mpr ⟨node, isNode, ?_⟩
      obtain ⟨member, stance⟩ := stances node isNode
      cases stance with
      | silent isSilent => simp [isSilent.unsaid] at saysSo
      | enumerates type _ _ isNode => simp [isNode, saysNull_enumNode] at saysSo
      | widens type _ _ isNode =>
          simp [isNode, saysNull_nullable (isCompiled_enumNode type)] at saysSo
      | admits _ validates => exact validates definitions

theorem stance_union {members : List Descriptor} {nodes : List Value}
    (stances : List.Forall₂ (fun member node => Stance member node ∧ IsCompiled node)
      (Descriptor.nonNull members) nodes) :
    Stance (.union members) (unionNode (Descriptor.nilable members) nodes) := by
  have compiled : ∀ node ∈ nodes, IsCompiled node := fun node isNode => by
    obtain ⟨member, -, -, isCompiled⟩ := exists_left_of_mem stances isNode
    exact isCompiled
  have each : ∀ node ∈ nodes, ∃ member, Stance member node := fun node isNode => by
    obtain ⟨member, -, stance, -⟩ := exists_left_of_mem stances isNode
    exact ⟨member, stance⟩
  cases nilable : Descriptor.nilable members with
  | true =>
      have plain := Descriptor.enum?_union_of_nilable nilable
      have widened := Descriptor.widenedEnum?_union_of_nilable nilable
      generalize Descriptor.nonNull members = others at stances widened
      cases stances with
      | nil =>
          exact .admits acceptsNull_nullNode (fun definitions => validates_nullNode.mpr rfl)
            plain widened
      | cons first rest =>
          cases rest with
          | nil => exact first.1.widen first.2 plain widened
          | cons second rest =>
              refine .admits (acceptsNull_unionNode compiled) (fun definitions => ?_) plain widened
              exact (validates_unionNode compiled true).mpr (.inr ⟨rfl, .inr ⟨rfl, by simp⟩⟩)
  | false =>
      rw [Descriptor.nonNull_of_not_nilable nilable] at stances
      cases stances with
      | nil =>
          exact .admits acceptsNull_nullNode (fun definitions => validates_nullNode.mpr rfl)
            rfl rfl
      | cons first rest =>
          cases rest with
          | nil => exact first.1.ofSole
          | cons second rest =>
              simp only [unionNode, Bool.false_eq_true, if_false, List.append_nil]
              exact stance_anyOf each rfl (by simp [Descriptor.widenedEnum?, nilable])

/-- Nodes that follow descriptors have a stance on null where those that stand for structs are
silent. -/
theorem Renders.stance (standing : ∀ id node, drawn id node → IsCompiled node ∧ IsSilent node)
    {descriptor : Descriptor} {node : Value} (renders : Renders drawn descriptor node) :
    Stance descriptor node := by
  have compiled : ∀ id node, drawn id node → IsCompiled node :=
    fun id node holds => (standing id node holds).1
  induction descriptor using Descriptor.induction generalizing node with
  | scalar kind =>
      simp only [Renders] at renders
      subst renders
      refine .silent ⟨?_, ?_, ?_⟩ rfl rfl <;>
        cases kind <;> simp [scalarNode, typeNode, Fields.get?_cons, saysNull, acceptsNull,
          namesNull, Value.isText, Value.text?]
  | enum type =>
      simp only [Renders] at renders
      exact .enumerates type rfl rfl renders
  | array element =>
      simp only [Renders] at renders
      obtain ⟨inner, -, rfl⟩ := renders
      refine .silent ⟨?_, ?_, ?_⟩ rfl rfl <;>
        simp [Fields.get?_cons, saysNull, acceptsNull, namesNull, Value.isText, Value.text?]
  | map key value =>
      simp only [Renders] at renders
      obtain ⟨keyNode, valueNode, -, -, rfl⟩ := renders
      refine .silent ⟨?_, ?_, ?_⟩ rfl rfl <;>
        simp [mapNode, Fields.get?_cons, saysNull, acceptsNull, namesNull, Value.isText,
          Value.text?]
  | optional inner ih =>
      simp only [Renders] at renders
      obtain ⟨innerNode, renders, rfl⟩ := renders
      exact (ih renders).widen (renders.isCompiled compiled) rfl rfl
  | union members ih =>
      simp only [Renders, rendersMembers_iff] at renders
      obtain ⟨nodes, renders, rfl⟩ := renders
      exact stance_union <| aligned_of_mem renders fun member isMember node renders =>
        ⟨ih member (List.mem_of_mem_filter isMember) renders, renders.isCompiled compiled⟩
  | null =>
      simp only [Renders] at renders
      subst renders
      exact .admits acceptsNull_nullNode (fun definitions => validates_nullNode.mpr rfl) rfl rfl
  | fixed record =>
      simp only [Renders] at renders
      obtain ⟨nodes, -, rfl⟩ := renders
      refine .silent ⟨?_, ?_, ?_⟩ rfl rfl <;> unfold recordNode <;>
        cases nonEmpty record.description <;>
        simp [Fields.get?_cons, saysNull, acceptsNull, namesNull, Value.isText, Value.text?]
  | struct id =>
      simp only [Renders] at renders
      exact .silent (standing id node renders).2 rfl rfl
  | stray value => simp only [Renders] at renders

/-! ## Nullable positions -/

theorem isSilent_refNode (options : Options) (name : String) : IsSilent (refNode options name) := by
  constructor <;> simp [refNode, Fields.get?_cons, saysNull, acceptsNull]

theorem isSilent_structNode (options : Options) (struct : Struct) (fields : Fields) :
    IsSilent (structNode options struct fields) := by
  unfold structNode
  cases options.structDescriptions <;> constructor <;>
    simp [Fields.get?_cons, saysNull, acceptsNull, namesNull, Value.isText, Value.text?]

/-- A struct's expansion is a reference or an object node, whatever the state of the pass. -/
theorem expands_struct (options : Options) (store : Store) (fuel : Nat) (visited : List String) :
    Expands (struct options store fuel visited) (fun _ => True) (fun _ _ => True)
      (fun _ _ node => IsCompiled node ∧ IsSilent node) where
  refl _ := trivial
  trans _ _ := trivial
  mono _ _ _ standing := standing
  expands {id before node after} _ yields := by
    refine ⟨trivial, trivial, ?_⟩
    cases fuel with
    | zero =>
        simp only [struct, yields_pure] at yields
        obtain ⟨rfl, rfl⟩ := yields
        exact ⟨isCompiled_refNode options _, isSilent_refNode options _⟩
    | succ fuel =>
        obtain ⟨-, ⟨-, rfl, rfl⟩ | ⟨-, -, fields, between, -, rfl, rfl⟩⟩ := struct_cases yields
        · exact ⟨isCompiled_refNode options _, isSilent_refNode options _⟩
        · exact ⟨isCompiled_structNode options _ fields, isSilent_structNode options _ fields⟩

theorem not_validates_null_enumNode {type : EnumType} (bars : type.BarsNull)
    (definitions : Definitions) : ¬Validates definitions (enumNode type) .null := by
  have shuts := (shutsNullOut_enumNode type).mpr bars
  obtain ⟨fields, isFields⟩ := (isCompiled_enumNode type).named
  rw [isFields] at shuts ⊢
  exact shuts.not_validates

theorem validates_null_nullable_enumNode (type : EnumType) (definitions : Definitions) :
    Validates definitions (nullable (enumNode type)) .null ↔ ¬type.BarsNull := by
  rw [validates_nullable (isCompiled_enumNode type), shutsNullOut_enumNode]
  constructor
  · rintro (valid | ⟨-, admits⟩) bars
    · exact not_validates_null_enumNode bars definitions valid
    · exact admits bars
  · exact fun admits => .inr ⟨rfl, admits⟩

/-- A node that says that it admits null does, unless it is one of an enumeration whose choices shut
null out. -/
theorem Stance.validates_null_iff {descriptor : Descriptor} {node : Value}
    (stance : Stance descriptor node) (said : acceptsNull node = true) (definitions : Definitions) :
    Validates definitions node .null ↔
      ∀ type, descriptor.widenedEnum? = some type → ¬type.BarsNull := by
  cases stance with
  | silent isSilent => simp [isSilent.withoutNull] at said
  | enumerates type _ _ isNode => simp [isNode, acceptsNull_enumNode] at said
  | widens type _ widened isNode =>
      subst isNode
      simp [validates_null_nullable_enumNode, widened]
  | admits _ validates _ unwidened => simp [validates definitions, unwidened]

/-- The node of a field that need not be given admits null, unless that of its type is one of an
enumeration whose choices shut null out. -/
theorem Stance.validates_null_fieldNode_iff {descriptor : Descriptor} {node : Value}
    (stance : Stance descriptor node) (isCompiled : IsCompiled node)
    (description : Option String) (definitions : Definitions) :
    Validates definitions (fieldNode false description node) .null ↔
      ∀ type, descriptor.enum? = some type ∨ descriptor.widenedEnum? = some type →
        ¬type.BarsNull := by
  rw [validates_fieldNode isCompiled]
  cases stance with
  | silent isSilent plain unwidened =>
      simp [isSilent.withoutNull, not_shutsNullOut_of_unlisted isSilent.unlisted, plain, unwidened]
  | enumerates type isEnum unwidened isNode =>
      subst isNode
      rw [acceptsNull_enumNode, shutsNullOut_enumNode, isEnum, unwidened]
      constructor
      · rintro (valid | ⟨-, -, -, admits⟩) other (same | impossible)
        · cases same
          exact fun bars => not_validates_null_enumNode bars definitions valid
        · cases impossible
        · cases same
          exact admits
        · cases impossible
      · exact fun admits => .inr ⟨rfl, rfl, rfl, admits type (.inl rfl)⟩
  | widens type plain widened isNode =>
      subst isNode
      simp [validates_null_nullable_enumNode, widened, plain,
        acceptsNull_nullable (isCompiled_enumNode type)]
  | admits _ validates plain unwidened => simp [validates definitions, plain, unwidened]

/-- The node of a nullable position says that it admits null. -/
theorem Renders.acceptsNull_of_isNullable
    (compiled : ∀ id node, drawn id node → IsCompiled node) {descriptor : Descriptor} {node : Value}
    (renders : Renders drawn descriptor node) (isNullable : descriptor.isNullable = true) :
    acceptsNull node = true := by
  cases descriptor with
  | optional inner =>
      simp only [Renders] at renders
      obtain ⟨innerNode, renders, rfl⟩ := renders
      exact acceptsNull_nullable (renders.isCompiled compiled)
  | union members =>
      simp only [Renders, rendersMembers_iff] at renders
      obtain ⟨nodes, renders, rfl⟩ := renders
      simp only [Descriptor.isNullable] at isNullable
      rw [isNullable]
      refine acceptsNull_unionNode fun node isNode => ?_
      obtain ⟨member, -, renders⟩ := exists_left_of_mem renders isNode
      exact renders.isCompiled compiled
  | _ => cases isNullable

/-- In every pass and at every depth, the node of an optional or of a nilable union admits null, and
so does that of a field that need not be given, unless what is widened is one enumeration whose
choices shut null out. -/
theorem validates_null_iff_of_nullable (options : Options) (store : Store) (fuel : Nat)
    (visited : List String) (definitions : Definitions) :
    (∀ descriptor before node after, descriptor.isNullable = true →
      Yields (Compile.node (struct options store fuel visited) descriptor) before node after →
        (Validates definitions node .null ↔
          ∀ type, descriptor.widenedEnum? = some type → ¬type.BarsNull)) ∧
    (∀ owner fields before compiled after,
      Yields (fieldNodes (struct options store fuel visited) owner fields) before compiled after →
        List.Forall₂ (fun (field : Field) entry => entry.1 = field.name ∧
          (field.required = false → (Validates definitions entry.2 .null ↔
            ∀ type, field.type.enum? = some type ∨ field.type.widenedEnum? = some type →
              ¬type.BarsNull))) fields compiled) := by
  have known := expands_struct options store fuel visited
  constructor
  · intro descriptor before node after isNullable yields
    obtain ⟨-, -, renders⟩ := known.node descriptor before node after trivial yields
    exact (renders.stance fun _ _ standing => standing).validates_null_iff
      (renders.acceptsNull_of_isNullable (fun _ _ standing => standing.1) isNullable) definitions
  · intro owner fields before compiled after yields
    obtain ⟨-, -, renders⟩ := known.fieldNodes owner fields before compiled after trivial yields
    rw [rendersFields_iff] at renders
    refine renders.imp fun field entry renders => ?_
    obtain ⟨-, sameName, inner, renders, isNode⟩ := renders
    refine ⟨sameName, fun optional => ?_⟩
    rw [isNode, optional]
    exact (renders.stance fun _ _ standing => standing).validates_null_fieldNode_iff
      (renders.isCompiled fun _ _ standing => standing.1) field.description definitions

/-- An optional choice of texts and a choice that need not be given exclude null; an optional list
of choices admits it. -/
theorem null_excluded_by_choices :
    (∃ node, Yields (Compile.node (struct Options.defaults [] 2 [])
        (.optional (.enum (.ofTexts ["a"])))) ⟨[], []⟩ node ⟨[], []⟩ ∧
      ¬Validates ⟨"#/$defs/", []⟩ node .null) ∧
    (∃ node, Yields (Compile.node (struct Options.defaults [] 2 [])
        (.optional (.array (.enum (.ofTexts ["a"]))))) ⟨[], []⟩ node ⟨[], []⟩ ∧
      Validates ⟨"#/$defs/", []⟩ node .null) ∧
    ∃ entry, Yields (fieldNodes (struct Options.defaults [] 2 []) "record"
        [⟨"x", .enum (.ofTexts ["a"]), false, none, none⟩]) ⟨[], []⟩ [entry] ⟨[], []⟩ ∧
      ¬Validates ⟨"#/$defs/", []⟩ entry.2 .null := by
  obtain ⟨positions, fields⟩ :=
    validates_null_iff_of_nullable Options.defaults [] 2 [] ⟨"#/$defs/", []⟩
  refine ⟨⟨_, rfl, ?_⟩, ⟨_, rfl, ?_⟩, ⟨_, rfl, ?_⟩⟩
  · have admits := positions (.optional (.enum (.ofTexts ["a"]))) ⟨[], []⟩ _ ⟨[], []⟩ rfl rfl
    exact fun valid => admits.mp valid _ rfl (.inl rfl)
  · have admits :=
      positions (.optional (.array (.enum (.ofTexts ["a"])))) ⟨[], []⟩ _ ⟨[], []⟩ rfl rfl
    exact admits.mpr fun type impossible => nomatch impossible
  · have aligned := fields "record" [⟨"x", .enum (.ofTexts ["a"]), false, none, none⟩] ⟨[], []⟩ _
      ⟨[], []⟩ rfl
    obtain ⟨⟨-, admits⟩, -⟩ := List.forall₂_cons.mp aligned
    exact fun valid => (admits rfl).mp valid _ (.inl rfl) (.inl rfl)

/-- The schema of an optional choice of texts excludes null. -/
theorem optional_choice_excludes_null :
    ∃ compiled, compile Options.defaults [] (.optional (.enum (.ofTexts ["a"]))) = .ok compiled ∧
      ¬compiled.Admits .null :=
  ⟨_, rfl, fun valid =>
    (validates_null_nullable_enumNode (.ofTexts ["a"]) ⟨"#/$defs/", []⟩).mp valid (.inl rfl)⟩

end Compile

end TypedReply
