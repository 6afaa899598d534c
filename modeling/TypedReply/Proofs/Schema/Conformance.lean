import TypedReply.Proofs.Registry.History
import TypedReply.Proofs.Schema.Conveyance
import TypedReply.Proofs.Schema.Failure

/-!
# Instances and the schemas of their classes

The plain form of an instance is admitted by the schema of its class. What is written is decided by
values: a null that is a field's default is left out, and an instance carries its tag. What is
admitted is decided by types: which fields must be there, which may be null and which tag is asked
for. The two agree on every instance, whatever cycles the classes form.
-/

namespace TypedReply

open Compile

/-! ## Types -/

theorem Descriptor.enum?_union {members : List Descriptor} (notSingle : ∀ single, members ≠ [single])
    (notNull : nonNull members = members) (nullable : Bool) :
    (union (members ++ if nullable then [.null] else [])).enum? = none ∧
      (union (members ++ if nullable then [.null] else [])).widenedEnum? = none := by
  cases nullable with
  | true =>
      have nilable : nilable (members ++ [.null]) = true := by simp [nilable, isNull]
      have others : nonNull (members ++ [.null]) = members := by
        simpa [nonNull, isNull] using notNull
      refine ⟨enum?_union_of_nilable nilable, (widenedEnum?_union_of_nilable nilable).trans ?_⟩
      rw [others]
      split
      next single => exact (notSingle single rfl).elim
      next => rfl
  | false =>
      have without : nilable members = false := by
        rw [nilable, List.any_eq_false]
        intro member isMember
        rw [← notNull] at isMember
        simpa using (List.mem_filter.mp isMember).2
      rw [if_neg Bool.false_ne_true, List.append_nil]
      rcases members with _ | ⟨single, _ | ⟨second, rest⟩⟩
      · simp [enum?, widenedEnum?, without]
      · exact (notSingle single rfl).elim
      · simp [enum?, widenedEnum?, without]

namespace TypeExpr

/-- Whether a type is one of choices. -/
def isChoice : TypeExpr → Bool
  | .enum _ => true
  | .literal _ => true
  | _ => false

/-- The types whose values have a plain form that schemas describe: scalars, enumerations of texts,
literals of Booleans, integers and texts, lists, objects with text keys, classes, and unions of these
in which no choice stands alone beside null. -/
inductive IsExpressible : TypeExpr → Prop where
  | none : IsExpressible .none
  | scalar (kind : ScalarKind) : IsExpressible (.scalar kind)
  | enum {cls : EnumClass} (texts : ∀ entry ∈ cls.members, ∃ text, entry.2 = .str text) :
      IsExpressible (.enum cls)
  | literal {values : List Value} (primitive : ∀ value ∈ values, value.isPrimitive = true) :
      IsExpressible (.literal values)
  | list {element : TypeExpr} (expressible : IsExpressible element) :
      IsExpressible (.collection .list element)
  | dict {element : TypeExpr} (expressible : IsExpressible element) :
      IsExpressible (.dict (.scalar .string) element)
  | record (key : ClassKey) : IsExpressible (.record key)
  | union {members : List TypeExpr} (several : 1 < members.length)
      (flat : ∀ member ∈ members, ∀ nested, member ≠ .union nested)
      (each : ∀ member ∈ members, IsExpressible member)
      (choices : ∀ single, members.filter (!·.isNone) = [single] → single.isChoice = false) :
      IsExpressible (.union members)

variable {registry : Registry} {expr : TypeExpr} {descriptor : Descriptor}

/-- A union is mirrored by an optional if it is of null and one other member, else by a union. -/
theorem cases_of_mirroredBy_union {members : List TypeExpr} (several : 1 < members.length)
    (mirrored : (TypeExpr.union members).MirroredBy registry descriptor) :
    ∃ described, List.Forall₂ (MirroredBy registry) (members.filter (!·.isNone)) described ∧
      ((∃ single, described = [single] ∧ members.any isNone = true ∧
          descriptor = .optional single) ∨
        (∀ single, described ≠ [single]) ∧
          descriptor = .union (described ++ if members.any isNone then [.null] else [])) := by
  simp only [MirroredBy, mirroredByEach_iff] at mirrored
  obtain ⟨described, aligned, rfl⟩ := mirrored
  refine ⟨described, aligned, ?_⟩
  rcases described with _ | ⟨single, _ | ⟨second, rest⟩⟩
  · refine .inr ⟨fun _ => by simp, ?_⟩
    cases members.any isNone <;> rfl
  · cases nullable : members.any isNone with
    | true => exact .inl ⟨single, rfl, rfl, rfl⟩
    | false =>
        have all : members.filter (!·.isNone) = members := by
          simpa [List.filter_eq_self] using nullable
        have sole := aligned.length_eq
        rw [all] at sole
        exact (Nat.ne_of_gt several sole).elim
  · refine .inr ⟨fun _ => by simp, ?_⟩
    cases members.any isNone <;> simp [Descriptor.ofMembers]

namespace IsExpressible

theorem describes_single (expressible : expr.IsExpressible) (flat : ∀ nested, expr ≠ .union nested)
    (mirrored : expr.MirroredBy registry descriptor) : descriptor.isNull = expr.isNone ∧
      descriptor.enum?.isSome = expr.isChoice ∧ descriptor.widenedEnum? = Option.none := by
  cases expressible with
  | none | scalar | enum | literal =>
      simp only [MirroredBy] at mirrored
      subst mirrored
      exact ⟨rfl, by simp [Descriptor.enum?, isChoice], by simp [Descriptor.widenedEnum?]⟩
  | list =>
      simp only [MirroredBy] at mirrored
      obtain ⟨_, -, rfl⟩ := mirrored
      exact ⟨rfl, by simp [Descriptor.enum?, isChoice], by simp [Descriptor.widenedEnum?]⟩
  | dict =>
      simp only [MirroredBy] at mirrored
      obtain ⟨_, _, -, -, rfl⟩ := mirrored
      exact ⟨rfl, by simp [Descriptor.enum?, isChoice], by simp [Descriptor.widenedEnum?]⟩
  | record =>
      simp only [MirroredBy] at mirrored
      obtain ⟨_, -, rfl⟩ := mirrored
      exact ⟨rfl, by simp [Descriptor.enum?, isChoice], by simp [Descriptor.widenedEnum?]⟩
  | union => exact (flat _ rfl).elim

section Union

variable {members : List TypeExpr}
variable (flat : ∀ member ∈ members, ∀ nested, member ≠ .union nested)
variable (each : ∀ member ∈ members, IsExpressible member)
include flat each

theorem nonNull_eq_self {described : List Descriptor}
    (aligned : List.Forall₂ (MirroredBy registry) (members.filter (!·.isNone)) described) :
    Descriptor.nonNull described = described := by
  apply List.filter_eq_self.mpr
  intro inner isInner
  obtain ⟨member, isOther, mirrored⟩ := exists_left_of_mem aligned isInner
  obtain ⟨isMember, notNone⟩ := List.mem_filter.mp isOther
  rw [((each member isMember).describes_single (flat member isMember) mirrored).1]
  exact notNone

/-- No choice is widened by a union in which no choice stands alone beside null, and the union is none
itself. -/
theorem enum?_of_union (several : 1 < members.length)
    (choices : ∀ single, members.filter (!·.isNone) = [single] → single.isChoice = false)
    (isUnion : (TypeExpr.union members).MirroredBy registry descriptor) :
    descriptor.enum? = Option.none ∧ descriptor.widenedEnum? = Option.none := by
  obtain ⟨_, aligned, ⟨inner, rfl, -, rfl⟩ | ⟨notSingle, rfl⟩⟩ :=
    cases_of_mirroredBy_union several isUnion
  · obtain ⟨single, _, mirrored, noRest, others⟩ := List.forall₂_cons_right_iff.mp aligned
    cases noRest
    have isOther : single ∈ members.filter (!·.isNone) := others ▸ List.mem_singleton_self single
    have isMember := List.mem_of_mem_filter isOther
    have isChoice := ((each single isMember).describes_single (flat single isMember) mirrored).2.1
    rw [choices single others, Option.isSome_eq_false_iff, Option.isNone_iff_eq_none] at isChoice
    simpa [Descriptor.enum?, Descriptor.widenedEnum?] using isChoice
  · exact Descriptor.enum?_union notSingle (nonNull_eq_self flat each aligned) _

end Union

/-- No choice is widened by null, and no type but a choice is described as one. -/
theorem enum?_eq (expressible : expr.IsExpressible) (mirrored : expr.MirroredBy registry descriptor) :
    (expr.isChoice = false → descriptor.enum? = Option.none) ∧
      descriptor.widenedEnum? = Option.none := by
  by_cases flat : ∀ nested, expr ≠ .union nested
  · obtain ⟨-, isChoice, unwidened⟩ := expressible.describes_single flat mirrored
    refine ⟨fun notChoice => ?_, unwidened⟩
    rw [notChoice, Option.isSome_eq_false_iff, Option.isNone_iff_eq_none] at isChoice
    exact isChoice
  · push Not at flat
    obtain ⟨members, rfl⟩ := flat
    cases expressible with
    | union several flat each choices =>
        obtain ⟨plain, unwidened⟩ := enum?_of_union flat each several choices mirrored
        exact ⟨fun _ => plain, unwidened⟩

end IsExpressible

theorem IsExpressible.unresolvedNames (expressible : expr.IsExpressible) :
    expr.unresolvedNames = [] := by
  induction expressible with
  | list _ ih => exact ih
  | dict _ ih => exact ih
  | union _ _ _ _ ih => exact unresolvedNamesOf_eq_nil ih
  | _ => rfl

end TypeExpr

/-! ## Classes -/

/-- A class of fields of expressible types, which go by different names other than that of the tag, in
which no choice may be null, whose defaults can be made, and whose instances are tagged by its
name. -/
structure RecordClass.IsExpressible (cls : RecordClass) : Prop where
  types : ∀ field ∈ cls.fields, field.type.IsExpressible
  names : (typeKey :: cls.fields.map (·.wireName)).Nodup
  choices : ∀ field ∈ cls.fields, field.presence.isNullDefault = true → field.type.isChoice = false
  defaults : ∀ field ∈ cls.fields, field.presence ≠ .made .failing
  tagged : Plain.tagName cls.tag = cls.name

/-- Expressible classes that mention one another and no others, no two of one name. -/
structure Catalog.IsExpressible (catalog : Catalog) (keys : List ClassKey) : Prop where
  declared : ∀ key ∈ keys, ∃ cls, catalog.get? key = some cls ∧ cls.IsExpressible ∧
    ∀ other ∈ cls.classKeys, other ∈ keys
  distinct : ∀ key ∈ keys, ∀ other ∈ keys, ∀ cls otherClass, catalog.get? key = some cls →
    catalog.get? other = some otherClass → cls.name = otherClass.name → key = other

theorem Catalog.IsExpressible.isFamily {catalog : Catalog} {keys : List ClassKey}
    (expressible : catalog.IsExpressible keys) : catalog.IsFamily keys := by
  constructor
  intro key isKey
  obtain ⟨cls, found, isExpressible, mentions⟩ := expressible.declared key isKey
  refine ⟨cls, found, TypeExpr.unresolvedNamesOf_eq_nil ?_, mentions, isExpressible.defaults⟩
  intro expr isType
  obtain ⟨field, isField, rfl⟩ := List.mem_map.mp isType
  exact (isExpressible.types field isField).unresolvedNames

/-! ## Instances -/

/-- A value is one of a type: instances are exactly of the declared classes and hold values of the
types of the fields, or null where it is the default. -/
inductive Fits (catalog : Catalog) : TypeExpr → Value → Prop where
  | none : Fits catalog .none .null
  | scalar {kind : ScalarKind} {value : Value} (typed : matchesScalar kind value = true) :
      Fits catalog (.scalar kind) value
  | enum {cls : EnumClass} {entry : String × Value} (isMember : entry ∈ cls.members) :
      Fits catalog (.enum cls) (cls.toValue entry)
  | literal {values : List Value} {value : Value} (isChoice : value ∈ values) :
      Fits catalog (.literal values) value
  | list {element : TypeExpr} {items : List Value} (each : ∀ item ∈ items, Fits catalog element item) :
      Fits catalog (.collection .list element) (.list items)
  | dict {element : TypeExpr} {fields : Fields} (distinct : (fields.map Prod.fst).Nodup)
      (each : ∀ field ∈ fields, Fits catalog element field.2) :
      Fits catalog (.dict (.scalar .string) element) (.ofFields fields)
  | member {members : List TypeExpr} {member : TypeExpr} {value : Value}
      (isMember : member ∈ members) (fits : Fits catalog member value) :
      Fits catalog (.union members) value
  | record {key : ClassKey} {cls : RecordClass} {values : List Value}
      (found : catalog.get? key = some cls) (complete : values.length = cls.fields.length)
      (each : ∀ entry ∈ cls.fields.zip values, Plain.isOmitted entry.1.tag entry.2 = false →
        Fits catalog entry.1.type entry.2) :
      Fits catalog (.record key) (.record cls.tag ((cls.fields.map (·.tag)).zip values))

theorem Fits.isChoice_of_null {catalog : Catalog} {expr : TypeExpr} (fits : Fits catalog expr .null)
    (expressible : expr.IsExpressible) : expr.isChoice = false := by
  cases expressible with
  | enum => nomatch fits
  | literal primitive =>
      cases fits with
      | literal isChoice => cases primitive _ isChoice
  | _ => rfl

namespace Registry

variable {registry : Registry} {declared keys : List ClassKey} {descriptor : Descriptor}

/-- What a descriptor describes is of an expressible type, which mentions some classes only. -/
def Expresses (registry : Registry) (keys : List ClassKey) (descriptor : Descriptor) : Prop :=
  ∃ expr : TypeExpr, expr.IsExpressible ∧ (∀ key ∈ expr.classKeys, key ∈ keys) ∧
    expr.MirroredBy registry descriptor

theorem Expresses.exists_key (expresses : registry.Expresses keys descriptor) :
    descriptor.IsReal ∧ (descriptor.isRecord = true →
      ∃ key ∈ keys, ∃ id, registry.structOf? key = some id ∧ descriptor = .struct id) := by
  obtain ⟨expr, isExpressible, mentions, mirrored⟩ := expresses
  cases isExpressible with
  | none | scalar | enum | literal =>
      simp only [TypeExpr.MirroredBy] at mirrored
      subst mirrored
      exact ⟨by simp [Descriptor.IsReal], fun isRecord => (Bool.false_ne_true isRecord).elim⟩
  | list =>
      simp only [TypeExpr.MirroredBy] at mirrored
      obtain ⟨_, -, rfl⟩ := mirrored
      exact ⟨by simp [Descriptor.IsReal], fun isRecord => (Bool.false_ne_true isRecord).elim⟩
  | dict =>
      simp only [TypeExpr.MirroredBy] at mirrored
      obtain ⟨_, _, -, -, rfl⟩ := mirrored
      exact ⟨by simp [Descriptor.IsReal], fun isRecord => (Bool.false_ne_true isRecord).elim⟩
  | record key =>
      simp only [TypeExpr.MirroredBy] at mirrored
      obtain ⟨id, entered, rfl⟩ := mirrored
      exact ⟨by simp [Descriptor.IsReal],
        fun _ => ⟨key, mentions key (List.mem_singleton_self key), id, entered, rfl⟩⟩
  | union several =>
      obtain ⟨_, -, ⟨_, -, -, rfl⟩ | ⟨-, rfl⟩⟩ := TypeExpr.cases_of_mirroredBy_union several mirrored
      · exact ⟨by simp [Descriptor.IsReal], fun isRecord => (Bool.false_ne_true isRecord).elim⟩
      · exact ⟨by simp [Descriptor.IsReal], fun isRecord => (Bool.false_ne_true isRecord).elim⟩

/-- A field of an expressible class and of the struct that mirrors it agree on what fits. -/
theorem agrees_of_fits {cls : RecordClass} (isExpressible : cls.IsExpressible) {slot : Slot}
    (isField : slot.field ∈ cls.fields) (mirrored : slot.field.MirroredBy registry slot.declared)
    (fits : Plain.isOmitted slot.field.tag slot.value = false →
      Fits registry.catalog slot.field.type slot.value) : slot.Agrees where
  name := mirrored.isDeclared.name
  required isRequired := by
    rw [mirrored.isDeclared.required] at isRequired
    cases presence : slot.field.presence with
    | required => rfl
    | _ => rw [presence] at isRequired; cases isRequired
  nullable lacking := by
    have expressibleType := isExpressible.types _ isField
    have notChoice : slot.field.type.isChoice = false := by
      rw [lacking.2] at fits
      cases isDefault : slot.field.presence.isNullDefault with
      | true => exact isExpressible.choices _ isField isDefault
      | false =>
          have written : Plain.isOmitted slot.field.tag .null = false := by
            rw [Plain.isOmitted, ClassField.tag, isDefault, Bool.false_and]
          exact (fits written).isChoice_of_null expressibleType
    obtain ⟨plain, unwidened⟩ := expressibleType.enum?_eq mirrored.type
    exact ⟨plain notChoice, unwidened⟩

/-- What fits a member of an expressible union is held as the union is described if it is held as the
member is. -/
theorem holds_of_member {members : List TypeExpr} {member : TypeExpr} {value : Value}
    (isExpressible : (TypeExpr.union members).IsExpressible)
    (mirrored : (TypeExpr.union members).MirroredBy registry descriptor) (isMember : member ∈ members)
    (fits : Fits registry.catalog member value)
    (holds : ∀ inner, member.MirroredBy registry inner → registry.Holds inner value) :
    registry.Holds descriptor value := by
  cases isExpressible with
  | union several flat each choices =>
      obtain ⟨described, aligned, shape⟩ := TypeExpr.cases_of_mirroredBy_union several mirrored
      obtain ⟨-, unwidened⟩ :=
        TypeExpr.IsExpressible.enum?_of_union flat each several choices mirrored
      rcases TypeExpr.eq_none_or_mem_others isMember with rfl | isOther
      · cases fits
        have nullable : members.any TypeExpr.isNone = true :=
          List.any_eq_true.mpr ⟨_, isMember, rfl⟩
        rcases shape with ⟨single, rfl, -, rfl⟩ | ⟨-, rfl⟩
        · exact .absent (by simpa [Descriptor.widenedEnum?] using unwidened)
        · exact .nil (by simp [nullable, Descriptor.nilable, Descriptor.isNull]) unwidened
      · obtain ⟨inner, isInner, isMirrored⟩ := exists_right_of_mem aligned isOther
        rcases shape with ⟨single, rfl, -, rfl⟩ | ⟨-, rfl⟩
        · cases List.mem_singleton.mp isInner
          exact .present (holds _ isMirrored)
        · refine .variant ?_ (holds _ isMirrored)
          rw [← TypeExpr.IsExpressible.nonNull_eq_self flat each aligned] at isInner
          rw [Descriptor.nonNull, List.filter_append]
          exact List.mem_append_left _ isInner

section Mirrored

variable (mirrors : registry.MirrorsExcept declared)
variable (expressible : registry.catalog.IsExpressible keys)
variable (derived : ∀ key ∈ keys, key ∉ declared)
include mirrors expressible derived

theorem Expresses.of_part {part : Descriptor} (expresses : registry.Expresses keys descriptor)
    (isPart : Descriptor.Part registry.structs descriptor part) : registry.Expresses keys part := by
  obtain ⟨expr, isExpressible, mentions, mirrored⟩ := expresses
  cases isExpressible with
  | none | scalar | enum | literal =>
      simp only [TypeExpr.MirroredBy] at mirrored
      subst mirrored
      cases isPart with
      | field isField => cases isField
  | list isElement =>
      simp only [TypeExpr.MirroredBy] at mirrored
      obtain ⟨inner, mirrored, rfl⟩ := mirrored
      cases isPart with
      | element => exact ⟨_, isElement, mentions, mirrored⟩
      | field isField => cases isField
  | dict isElement =>
      simp only [TypeExpr.MirroredBy] at mirrored
      obtain ⟨_, inner, rfl, mirrored, rfl⟩ := mirrored
      cases isPart with
      | key =>
          refine ⟨.scalar .string, .scalar _, List.forall_mem_nil _, ?_⟩
          simp only [TypeExpr.MirroredBy]
      | value => exact ⟨_, isElement, mentions, mirrored⟩
      | field isField => cases isField
  | record key =>
      simp only [TypeExpr.MirroredBy] at mirrored
      obtain ⟨id, entered, rfl⟩ := mirrored
      cases isPart with
      | field isField =>
          obtain ⟨cls, fields, -, -, isExpressible, mentions, isStruct, aligned⟩ :=
            mirrors.exists_mirrored expressible.declared derived
              (mentions key (List.mem_singleton_self key)) entered
          rw [Descriptor.fields, isStruct] at isField
          obtain ⟨field, isClassField, mirrored⟩ := exists_left_of_mem aligned isField
          refine ⟨field.type, isExpressible.types field isClassField, ?_, mirrored.type⟩
          intro other mentioned
          exact mentions other
            (TypeExpr.mem_classKeysOf_of_mem (List.mem_map_of_mem isClassField) mentioned)
  | @union members several flat each =>
      obtain ⟨described, aligned, shape⟩ :=
        TypeExpr.cases_of_mirroredBy_union several mirrored
      have ofMember {inner : Descriptor} (isInner : inner ∈ described) :
          registry.Expresses keys inner := by
        obtain ⟨member, isOther, mirrored⟩ := exists_left_of_mem aligned isInner
        have isMember := List.mem_of_mem_filter isOther
        exact ⟨member, each member isMember,
          fun other mentioned => mentions other (TypeExpr.mem_classKeysOf_of_mem isMember mentioned),
          mirrored⟩
      rcases shape with ⟨single, rfl, -, rfl⟩ | ⟨-, rfl⟩
      · cases isPart with
        | inner => exact ofMember (List.mem_singleton_self _)
        | field isField => cases isField
      · cases isPart with
        | member isMember =>
            rcases List.mem_append.mp isMember with isInner | isNull
            · exact ofMember isInner
            · split at isNull
              · cases List.mem_singleton.mp isNull
                exact ⟨.none, .none, List.forall_mem_nil _, by simp only [TypeExpr.MirroredBy]⟩
              · cases isNull
        | field isField => cases isField

/-- All that is reached from what describes an expressible type describes expressible types. -/
theorem Expresses.of_reaches {found : Descriptor} (expresses : registry.Expresses keys descriptor)
    (reaches : Descriptor.Reaches registry.structs descriptor found) :
    registry.Expresses keys found := by
  induction reaches with
  | refl => exact expresses
  | tail _ isPart ih => exact ih.of_part mirrors expressible derived isPart

/-- A record that describes an expressible type is named like its class and has no field named like
the tag. -/
theorem Expresses.exists_class (expresses : registry.Expresses keys descriptor) {record : RecordView}
    (isRecord : descriptor.record? registry.structs = some record) :
    ∃ cls, cls.key ∈ keys ∧ registry.catalog.get? cls.key = some cls ∧ cls.IsExpressible ∧
      record.cls = some cls.key ∧ record.name = some cls.name ∧
      record.fields.map (·.name) = cls.fields.map (·.wireName) := by
  have isSome : descriptor.isRecord = true := by
    cases descriptor <;> first | rfl | cases isRecord
  obtain ⟨key, isKey, id, entered, rfl⟩ := expresses.exists_key.2 isSome
  obtain ⟨cls, fields, found, rfl, isExpressible, -, isStruct, aligned⟩ :=
    mirrors.exists_mirrored expressible.declared derived isKey entered
  cases isRecord
  refine ⟨cls, isKey, found, isExpressible, ?_, ?_, ?_⟩
  · rw [isStruct]
    rfl
  · rw [isStruct]
    rfl
  · rw [isStruct]
    exact (map_eq_of_aligned aligned fun _ _ _ mirrored => mirrored.isDeclared.name.symm).symm

theorem Expresses.tagged (expresses : registry.Expresses keys descriptor) :
    descriptor.Throughout registry.structs (Descriptor.IsTagged registry) := by
  intro found reaches record isRecord
  obtain ⟨cls, -, isFound, isExpressible, isClass, named, -⟩ :=
    (expresses.of_reaches mirrors expressible derived reaches).exists_class mirrors expressible
      derived isRecord
  rw [named, isClass, Option.bind_some, isFound, Option.map_some, isExpressible.tagged]

theorem Expresses.exists_compiled (expresses : registry.Expresses keys descriptor)
    (options : Options) : ∃ compiled, compile options registry.structs descriptor = .ok compiled := by
  have reached {found : Descriptor}
      (reaches : Descriptor.Reaches registry.structs descriptor found) :=
    expresses.of_reaches mirrors expressible derived reaches
  have real : descriptor.Throughout registry.structs Descriptor.IsReal :=
    fun _ reaches => (reached reaches).exists_key.1
  rcases compile_ends options real with compiles | ⟨_, -, flaw⟩
  · exact compiles
  · exfalso
    cases flaw with
    | reserved reaches isRecord isField =>
        obtain ⟨cls, -, -, isExpressible, -, -, names⟩ :=
          (reached reaches).exists_class mirrors expressible derived isRecord
        exact (List.nodup_cons.mp isExpressible.names).1 (names ▸ isField)
    | @shared id other reaches otherReaches different sameName =>
        obtain ⟨cls, isKey, found, -, isClass, named, -⟩ :=
          (reached reaches).exists_class mirrors expressible derived rfl
        obtain ⟨otherClass, isOtherKey, otherFound, -, isOtherClass, otherNamed, -⟩ :=
          (reached otherReaches).exists_class mirrors expressible derived rfl
        have same : otherClass.name = cls.name :=
          (Option.some.inj otherNamed).symm.trans (sameName.trans (Option.some.inj named))
        have sameKey := expressible.distinct _ isOtherKey _ isKey _ _ otherFound found same
        have entered := (mirrors.own cls.key id).mpr isClass
        have otherEntered := (mirrors.own otherClass.key other).mpr isOtherClass
        rw [sameKey] at otherEntered
        exact different (Option.some.inj (otherEntered.symm.trans entered))

/-- An instance of an expressible class is held by its struct if what is written of it is held by the
fields. -/
theorem holds_of_fields {key : ClassKey} (isKey : key ∈ keys) {cls : RecordClass} {values : List Value}
    (found : registry.catalog.get? key = some cls) (complete : values.length = cls.fields.length)
    (each : ∀ entry ∈ cls.fields.zip values, Plain.isOmitted entry.1.tag entry.2 = false →
      Fits registry.catalog entry.1.type entry.2)
    {id : StructId} (entered : registry.structOf? key = some id)
    (holds : ∀ entry ∈ cls.fields.zip values, Plain.isOmitted entry.1.tag entry.2 = false →
      ∀ descriptor, entry.1.type.IsExpressible → (∀ other ∈ entry.1.type.classKeys, other ∈ keys) →
        entry.1.type.MirroredBy registry descriptor → registry.Holds descriptor entry.2) :
    registry.Holds (.struct id) (.record cls.tag ((cls.fields.map (·.tag)).zip values)) := by
  obtain ⟨_, fields, isFound, rfl, isClass, mentioned, isStruct, aligned⟩ :=
    mirrors.exists_mirrored expressible.declared derived isKey entered
  cases found.symm.trans isFound
  obtain ⟨slots, rfl, isFields, rfl, related⟩ := Slot.exists_of_aligned aligned complete
  have isHeld : (cls.fields.map (·.tag)).zip (slots.map (·.value)) = slots.map (·.held) := by
    rw [isFields, List.map_map, List.zip_map']
    rfl
  have isField (slot) (isSlot : slot ∈ slots) : slot.field ∈ cls.fields :=
    isFields ▸ List.mem_map_of_mem isSlot
  have isEntry (slot) (isSlot : slot ∈ slots) :
      (slot.field, slot.value) ∈ cls.fields.zip (slots.map (·.value)) := by
    rw [isFields, List.zip_map']
    exact List.mem_map_of_mem isSlot
  rw [isHeld]
  have isStructOf : (Descriptor.struct id).record? registry.structs =
      some (Struct.view
        { unsealed registry.library cls.key cls with fields := slots.map (·.declared) }) := by
    rw [Descriptor.record?, isStruct]
  have names := isClass.names
  rw [isFields, List.map_map] at names
  refine .record isStructOf rfl isFound rfl isFields names ?_ ?_
  · intro slot isSlot
    exact agrees_of_fits isClass (isField slot isSlot) (related slot isSlot)
      (each _ (isEntry slot isSlot))
  · intro slot isSlot notLacking
    have isMirrored := related slot isSlot
    refine holds _ (isEntry slot isSlot) ?_ _ (isClass.types _ (isField slot isSlot)) ?_
      isMirrored.type
    · by_contra omitted
      rw [Bool.not_eq_false, Plain.isOmitted, Bool.and_eq_true, Value.isNull_iff] at omitted
      have optional : slot.declared.required = false := by
        rw [isMirrored.isDeclared.required]
        cases presence : slot.field.presence with
        | required => simp [ClassField.tag, presence, Presence.isNullDefault] at omitted
        | _ => rfl
      exact notLacking ⟨optional, omitted.2⟩
    · intro other mentions
      exact mentioned other (TypeExpr.mem_classKeysOf_of_mem
        (List.mem_map_of_mem (isField slot isSlot)) mentions)

/-- What fits an expressible type is held as the type is described. The induction is on the value; the
struct of a class is taken as it mirrors the class, so a cycle of classes needs no other. -/
theorem holds_of_fits {expr : TypeExpr} {value : Value} (fits : Fits registry.catalog expr value)
    (isExpressible : expr.IsExpressible) (mentions : ∀ key ∈ expr.classKeys, key ∈ keys)
    (mirrored : expr.MirroredBy registry descriptor) : registry.Holds descriptor value := by
  induction fits generalizing descriptor with
  | none =>
      simp only [TypeExpr.MirroredBy] at mirrored
      exact mirrored ▸ .null
  | scalar typed =>
      simp only [TypeExpr.MirroredBy] at mirrored
      exact mirrored ▸ .scalar typed
  | @enum cls entry isMember =>
      simp only [TypeExpr.MirroredBy] at mirrored
      cases isExpressible with
      | enum texts =>
          obtain ⟨name, value⟩ := entry
          obtain ⟨text, rfl⟩ := texts _ isMember
          exact mirrored ▸ .member isMember
  | literal isChoice =>
      simp only [TypeExpr.MirroredBy] at mirrored
      cases isExpressible with
      | literal primitive => exact mirrored ▸ .choice primitive isChoice
  | list _ ih =>
      simp only [TypeExpr.MirroredBy] at mirrored
      obtain ⟨inner, mirrored, rfl⟩ := mirrored
      cases isExpressible with
      | list isElement => exact .array fun item isItem => ih item isItem isElement mentions mirrored
  | dict distinct _ ih =>
      simp only [TypeExpr.MirroredBy] at mirrored
      obtain ⟨_, inner, -, mirrored, rfl⟩ := mirrored
      cases isExpressible with
      | dict isElement =>
          exact .map distinct fun field isField => ih field isField isElement mentions mirrored
  | member isMember fits ih =>
      refine holds_of_member isExpressible mirrored isMember fits fun inner isMirrored => ?_
      cases isExpressible with
      | union _ _ each =>
          refine ih (each _ isMember) (fun key mentioned => ?_) isMirrored
          exact mentions key (TypeExpr.mem_classKeysOf_of_mem isMember mentioned)
  | @record key cls values found complete each ih =>
      simp only [TypeExpr.MirroredBy] at mirrored
      obtain ⟨id, entered, rfl⟩ := mirrored
      exact holds_of_fields mirrors expressible derived (mentions key (List.mem_singleton_self key))
        found complete each entered fun entry isEntry written descriptor =>
          @ih entry isEntry written descriptor

end Mirrored

/-- In every registry that came about by uses that succeeded, the struct of an expressible class can be
had and compiled, and the schema admits the plain form of every instance of the class. -/
theorem plain_admitted_of_fits (reached : Reached registry declared)
    (expressible : registry.catalog.IsExpressible keys) (derived : ∀ key ∈ keys, key ∉ declared)
    {key : ClassKey} (isKey : key ∈ keys) {value : Value}
    (fits : Fits registry.catalog (.record key) value) (options : Options) :
    ∃ id after compiled wire, Yields (fromClass key) registry id after ∧
      compile options after.structs (.struct id) = .ok compiled ∧
      Plain.plain value = .ok wire ∧ compiled.Admits wire := by
  have family := expressible.isFamily
  obtain ⟨id, after, yields, ⟨sameCatalog, mirrors⟩, -, entered⟩ :=
    (proceeds_fromClass (family.isSettled isKey) (family.not_fails isKey) registry
      ⟨rfl, reached.mirrors⟩).exists_yields
  rw [← sameCatalog] at expressible fits
  have mentions : ∀ other ∈ (TypeExpr.record key).classKeys, other ∈ keys :=
    List.forall_mem_singleton.mpr isKey
  have mirrored : (TypeExpr.record key).MirroredBy after (.struct id) := by
    simpa only [TypeExpr.MirroredBy] using ⟨id, entered, rfl⟩
  have expresses : after.Expresses keys (.struct id) := ⟨_, .record key, mentions, mirrored⟩
  have holds := holds_of_fits mirrors expressible derived fits (.record key) mentions mirrored
  obtain ⟨compiled, compiles⟩ := expresses.exists_compiled mirrors expressible derived options
  obtain ⟨pass, consistent, renders, targets⟩ := compile_cases compiles
  obtain ⟨wire, isPlain, admits⟩ := conveys_of_holds consistent holds
  refine ⟨id, after, compiled, wire, yields, compiles, isPlain, ?_⟩
  rw [Compiled.Admits, targets]
  refine admits (conforms_of_tagged (expresses.tagged mirrors expressible derived)
    fun record reaches => ?_) compiled.schema renders
  obtain ⟨_, -, _, -, isStruct⟩ :=
    (expresses.of_reaches mirrors expressible derived reaches).exists_key.2 rfl
  cases isStruct

theorem isExpressible_orchard : orchard.catalog.IsExpressible [.declared 0, .declared 1] := by
  constructor
  · intro key isKey
    simp only [List.mem_cons, List.not_mem_nil, or_false] at isKey
    rcases isKey with rfl | rfl
    · refine ⟨fruitClass, rfl, ?_, by decide⟩
      constructor
      · exact List.forall_mem_singleton.mpr (.scalar _)
      · decide
      · exact List.forall_mem_singleton.mpr nofun
      · exact List.forall_mem_singleton.mpr nofun
      · rfl
    · have nullableFruit : (TypeExpr.union [.record (.declared 0), .none]).IsExpressible := by
        constructor
        · decide
        · simp
        · simp [TypeExpr.IsExpressible.record, TypeExpr.IsExpressible.none]
        · simp [TypeExpr.isNone, TypeExpr.isChoice]
      refine ⟨treeClass, rfl, ?_, by decide⟩
      constructor
      · simp [treeClass, nullableFruit, TypeExpr.IsExpressible.list, TypeExpr.IsExpressible.record]
      · decide
      · simp [treeClass, TypeExpr.isChoice]
      · simp [treeClass]
      · rfl
  · intro key isKey other isOther cls otherClass found otherFound sameName
    simp only [List.mem_cons, List.not_mem_nil, or_false] at isKey isOther
    rcases isKey with rfl | rfl <;> rcases isOther with rfl | rfl <;> cases found <;>
      cases otherFound <;> first | rfl | exact absurd sameName (by decide)

/-- A tree without fruit, from which a branch with a pear grows. -/
def pearTree : Value :=
  let pear := Value.record fruitClass.tag ((fruitClass.fields.map (·.tag)).zip [.str "pear"])
  let branch := Value.record treeClass.tag ((treeClass.fields.map (·.tag)).zip [pear, .list []])
  .record treeClass.tag ((treeClass.fields.map (·.tag)).zip [.null, .list [branch]])

theorem fits_pearTree : Fits orchard.catalog (.record (.declared 1)) pearTree := by
  have pear : Fits orchard.catalog (.record (.declared 0))
      (.record fruitClass.tag ((fruitClass.fields.map (·.tag)).zip [.str "pear"])) :=
    .record rfl rfl (List.forall_mem_singleton.mpr fun _ => .scalar rfl)
  have branch : Fits orchard.catalog (.record (.declared 1)) (.record treeClass.tag
      ((treeClass.fields.map (·.tag)).zip [.record fruitClass.tag
        ((fruitClass.fields.map (·.tag)).zip [.str "pear"]), .list []])) := by
    refine .record rfl rfl ?_
    intro entry isEntry _
    rcases List.mem_pair.mp isEntry with rfl | rfl
    · exact .member List.mem_cons_self pear
    · exact .list (List.forall_mem_nil _)
  refine .record rfl rfl ?_
  intro entry isEntry _
  rcases List.mem_pair.mp isEntry with rfl | rfl
  · exact .member (List.mem_cons_of_mem _ List.mem_cons_self) .none
  · exact .list (List.forall_mem_singleton.mpr branch)

/-- The schema of trees admits a tree that grows from another. -/
theorem pearTree_admitted :
    Reached orchard [] ∧ orchard.catalog.IsExpressible [.declared 0, .declared 1] ∧
      Fits orchard.catalog (.record (.declared 1)) pearTree ∧
      ∃ id after compiled wire, Yields (fromClass (.declared 1)) orchard id after ∧
        compile Options.defaults after.structs (.struct id) = .ok compiled ∧
        Plain.plain pearTree = .ok wire ∧ compiled.Admits wire :=
  ⟨reached_orchard, isExpressible_orchard, fits_pearTree,
    plain_admitted_of_fits reached_orchard isExpressible_orchard (fun _ _ => List.not_mem_nil)
      (List.mem_cons_of_mem _ List.mem_cons_self) fits_pearTree Options.defaults⟩

/-! ## Classes whose instances are refused -/

/-- A class can be compiled, but its schema refuses the plain form of an instance of it. -/
def Refuses (declare : Action ClassKey) (value : Value) : Prop :=
  ∃ key before id after compiled wire, Yields declare empty key before ∧
    Fits before.catalog (.record key) value ∧ Yields (fromClass key) before id after ∧
    compile Options.defaults after.structs (.struct id) = .ok compiled ∧
    Plain.plain value = .ok wire ∧ ¬compiled.Admits wire

/-- The class of drafts. -/
def draftClass : RecordClass :=
  ⟨.declared 1, "Draft", none, [.declared 0, .anonymous, .base],
    [⟨"text", none, .scalar .string, .required, none, .none⟩]⟩

/-- Drafts extend the class of an unnamed record. -/
def declareDraft : Action ClassKey := do
  let _ ← defineRecord "R" none [⟨"text", .scalar .string, true, none, none⟩] none
  addClass "Draft" "Draft" none draftClass.ancestors draftClass.fields

def draftStructs : Store :=
  [⟨"Draft", some (.declared 1), [⟨"text", .scalar .string, true, none, none⟩], none⟩]

theorem draftStructs_regular :
    (Descriptor.struct 0).Throughout draftStructs (Descriptor.Regular draftStructs) := by
  refine @Descriptor.Throughout.of_list _ _ _ [.struct 0, .scalar .string] ?_ ?_ List.mem_cons_self
  · simp [draftStructs, Descriptor.parts, Descriptor.fields, Store.at]
  · exact List.forall_mem_cons.mpr ⟨⟨by decide, by simp⟩,
      List.forall_mem_singleton.mpr ⟨by decide, by simp⟩⟩

/-- Holders are declared as a struct that holds a fixed record. -/
def declareRecordHolder : Action ClassKey := do
  let record ← defineRecord "R" (some "R") [⟨"x", .scalar .int, false, none, none⟩] none
  let id ← defineStruct "S" "S" [⟨"r", .fixed record, true, none, none⟩] none
  return ((← getThe Registry).structs.at id).cls.getD .base

/-- The class of a fixed record with a field that need not be given. -/
def heldClass : RecordClass :=
  ⟨.declared 0, "R", none, [.base],
    [⟨"x", none, .union [.scalar .int, .none], .default .null, none, .none⟩]⟩

def holderClass : RecordClass :=
  ⟨.declared 1, "S", none, [.base], [⟨"r", none, .record (.declared 0), .required, none, .none⟩]⟩

def heldRecord : Descriptor :=
  .fixed ⟨[⟨"x", .scalar .int, false, none, none⟩], some "R", some (.declared 0), none⟩

def holderStructs : Store :=
  [⟨"S", some (.declared 1), [⟨"r", heldRecord, true, none, none⟩], none⟩]

theorem holderStructs_regular :
    (Descriptor.struct 0).Throughout holderStructs (Descriptor.Regular holderStructs) := by
  refine @Descriptor.Throughout.of_list _ _ _ [.struct 0, heldRecord, .scalar .int] ?_ ?_
    List.mem_cons_self
  · simp [holderStructs, heldRecord, Descriptor.parts, Descriptor.fields, Store.at]
  · exact List.forall_mem_cons.mpr ⟨⟨by decide, by simp⟩, List.forall_mem_cons.mpr
      ⟨⟨by decide, by simp [heldRecord]⟩, List.forall_mem_singleton.mpr ⟨by decide, by simp⟩⟩⟩

/-- A draft is tagged as an unnamed record, not as a draft. A field that is null is left out of a fixed
record, whose schema asks for every field. -/
theorem instances_refused :
    Refuses declareDraft
        (.record draftClass.tag ((draftClass.fields.map (·.tag)).zip [.str "hello"])) ∧
      Refuses declareRecordHolder (.record holderClass.tag ((holderClass.fields.map (·.tag)).zip
        [.record heldClass.tag ((heldClass.fields.map (·.tag)).zip [.null])])) := by
  constructor
  · have fits (catalog : Catalog) (found : catalog.get? (.declared 1) = some draftClass) :
        Fits catalog (.record (.declared 1))
          (.record draftClass.tag ((draftClass.fields.map (·.tag)).zip [.str "hello"])) :=
      .record found rfl (List.forall_mem_singleton.mpr fun _ => .scalar rfl)
    refine ⟨_, _, _, _, _, _, rfl, fits _ rfl, rfl, rfl, rfl, fun admits => ?_⟩
    cases (means_of_compile rfl draftStructs_regular _).sound admits with
    | struct tagged =>
        have same : "AnonymousRecord" = "Draft" := Value.str.inj (Option.some.inj tagged)
        exact absurd same (by decide)
  · have held (catalog : Catalog) (found : catalog.get? (.declared 0) = some heldClass) :
        Fits catalog (.record (.declared 0))
          (.record heldClass.tag ((heldClass.fields.map (·.tag)).zip [.null])) :=
      .record found rfl (List.forall_mem_singleton.mpr nofun)
    have fits (catalog : Catalog) (found : catalog.get? (.declared 0) = some heldClass)
        (foundHolder : catalog.get? (.declared 1) = some holderClass) :
        Fits catalog (.record (.declared 1)) (.record holderClass.tag
          ((holderClass.fields.map (·.tag)).zip
            [.record heldClass.tag ((heldClass.fields.map (·.tag)).zip [.null])])) :=
      .record foundHolder rfl (List.forall_mem_singleton.mpr fun _ => held catalog found)
    refine ⟨_, _, _, _, _, _, rfl, fits _ rfl rfl, rfl, rfl, rfl, fun admits => ?_⟩
    cases (means_of_compile rfl holderStructs_regular _).sound admits with
    | struct _ _ each =>
        cases each _ List.mem_cons_self _ rfl (by simp) with
        | fixed _ _ complete => cases complete _ List.mem_cons_self

end Registry

end TypedReply
