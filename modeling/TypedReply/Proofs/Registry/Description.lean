import TypedReply.Proofs.Record.Settled
import TypedReply.Proofs.Registry.Derive

/-!
# Descriptors of type expressions

A descriptor mirrors a type expression, whatever the expression is: it has the same parts, with a
class standing as the struct that the registry has for it. A fixed sequence of items is mirrored as a
list of the first. To describe a type is to get the structs of the classes that it needs, and what is
got mirrors the type.
-/

namespace TypedReply

/-- A description of a type needs the struct of a class. -/
inductive TypeExpr.Needs : TypeExpr → ClassKey → Prop where
  | record (key : ClassKey) : Needs (.record key) key
  | element {kind : Collection} {element : TypeExpr} {key : ClassKey} (needs : Needs element key) :
      Needs (.collection kind element) key
  | item {item : TypeExpr} {rest : List TypeExpr} {key : ClassKey} (needs : Needs item key) :
      Needs (.tuple (item :: rest)) key
  | key {keyType valueType : TypeExpr} {key : ClassKey} (needs : Needs keyType key) :
      Needs (.dict keyType valueType) key
  | value {keyType valueType : TypeExpr} {key : ClassKey} (needs : Needs valueType key) :
      Needs (.dict keyType valueType) key
  | member {members : List TypeExpr} {member : TypeExpr} {key : ClassKey}
      (isMember : member ∈ members) (needs : Needs member key) : Needs (.union members) key
  | inner {inner : TypeExpr} {key : ClassKey} (needs : Needs inner key) :
      Needs (.annotated inner) key

theorem TypeExpr.Needs.mem_classKeys {expr : TypeExpr} {key : ClassKey} (needs : expr.Needs key) :
    key ∈ expr.classKeys := by
  induction needs with
  | record => exact List.mem_singleton_self _
  | element _ ih => exact ih
  | item _ ih => exact List.mem_append_left _ ih
  | key _ ih => exact List.mem_append_left _ ih
  | value _ ih => exact List.mem_append_right _ ih
  | member isMember _ ih => exact mem_classKeysOf_of_mem isMember ih
  | inner _ ih => exact ih

/-- The descriptor of a union from those of its members other than null. -/
def Descriptor.ofMembers : List Descriptor → Bool → Descriptor
  | [single], true => .optional single
  | [single], false => single
  | several, true => .union (several ++ [.null])
  | several, false => .union several

namespace TypeExpr

mutual

/-- A descriptor mirrors a type; each class in it stands as the struct that a registry has for it. -/
def MirroredBy (registry : Registry) : TypeExpr → Descriptor → Prop
  | .none, descriptor => descriptor = .null
  | .scalar kind, descriptor => descriptor = .scalar kind
  | .bare _, descriptor => descriptor = .array (.scalar .string)
  | .collection _ element, descriptor => ∃ inner, MirroredBy registry element inner ∧
      descriptor = .array inner
  | .tuple [], descriptor => descriptor = .array (.scalar .string)
  | .tuple (item :: _), descriptor => ∃ inner, MirroredBy registry item inner ∧
      descriptor = .array inner
  | .bareDict, descriptor => descriptor = .map (.scalar .string) (.scalar .string)
  | .dict key value, descriptor => ∃ keyInner valueInner, MirroredBy registry key keyInner ∧
      MirroredBy registry value valueInner ∧ descriptor = .map keyInner valueInner
  | .union members, descriptor => ∃ described, MirroredByEach registry members described ∧
      descriptor = .ofMembers described (members.any isNone)
  | .literal values, descriptor => descriptor = .enum (.choices values)
  | .annotated inner, descriptor => MirroredBy registry inner descriptor
  | .enum cls, descriptor => descriptor = .enum (.ofClass cls)
  | .record key, descriptor => ∃ id, registry.structOf? key = some id ∧ descriptor = .struct id
  | .any, descriptor => descriptor = .scalar .string
  | .complex, descriptor => descriptor = .scalar .string
  | .bytes, descriptor => descriptor = .scalar .string
  | .object, descriptor => descriptor = .scalar .string
  | .unresolved _, descriptor => descriptor = .scalar .string

/-- Descriptors mirror the members of a union other than null. -/
def MirroredByEach (registry : Registry) : List TypeExpr → List Descriptor → Prop
  | [], described => described = []
  | member :: members, described =>
      if member.isNone then MirroredByEach registry members described
      else ∃ first rest, MirroredBy registry member first ∧ MirroredByEach registry members rest ∧
        described = first :: rest

end

variable {registry before after : Registry} {descriptor : Descriptor}

/-- The members of a union other than null are mirrored one by one. -/
theorem mirroredByEach_iff (members : List TypeExpr) (described : List Descriptor) :
    MirroredByEach registry members described ↔
      List.Forall₂ (MirroredBy registry) (members.filter (!·.isNone)) described := by
  induction members generalizing described with
  | nil => simp [MirroredByEach]
  | cons member members ih =>
      cases isNone : member.isNone with
      | true => simp [MirroredByEach, isNone, ih]
      | false => simp [MirroredByEach, isNone, ih, List.forall₂_cons_left_iff]

/-- What mirrors a type still does so in a registry that has the structs of classes. -/
theorem MirroredBy.mono
    (keeps : ∀ key id, before.structOf? key = some id → after.structOf? key = some id)
    {expr : TypeExpr} (mirrored : expr.MirroredBy before descriptor) :
    expr.MirroredBy after descriptor := by
  induction expr using TypeExpr.induction generalizing descriptor with
  | collection kind element ih =>
      simp only [MirroredBy] at mirrored ⊢
      obtain ⟨inner, mirrored, rfl⟩ := mirrored
      exact ⟨inner, ih mirrored, rfl⟩
  | tuple items ih =>
      cases items with
      | nil => simpa only [MirroredBy] using mirrored
      | cons item rest =>
          simp only [MirroredBy] at mirrored ⊢
          obtain ⟨inner, mirrored, rfl⟩ := mirrored
          exact ⟨inner, ih item List.mem_cons_self mirrored, rfl⟩
  | dict key value keyIh valueIh =>
      simp only [MirroredBy] at mirrored ⊢
      obtain ⟨keyInner, valueInner, keyMirrored, valueMirrored, rfl⟩ := mirrored
      exact ⟨keyInner, valueInner, keyIh keyMirrored, valueIh valueMirrored, rfl⟩
  | union members ih =>
      simp only [MirroredBy, mirroredByEach_iff] at mirrored ⊢
      obtain ⟨described, aligned, rfl⟩ := mirrored
      refine ⟨described, aligned_of_mem aligned ?_, rfl⟩
      intro member isOther other
      exact ih member (List.mem_of_mem_filter isOther)
  | annotated inner ih =>
      simp only [MirroredBy] at mirrored ⊢
      exact ih mirrored
  | record key =>
      simp only [MirroredBy] at mirrored ⊢
      obtain ⟨id, entered, rfl⟩ := mirrored
      exact ⟨id, keeps key id entered, rfl⟩
  | _ => simpa only [MirroredBy] using mirrored

theorem MirroredBy.exists_struct {expr : TypeExpr} (mirrored : expr.MirroredBy registry descriptor)
    {key : ClassKey} (needs : expr.Needs key) : ∃ id, registry.structOf? key = some id := by
  induction needs generalizing descriptor with
  | record key =>
      simp only [MirroredBy] at mirrored
      exact mirrored.imp fun _ found => found.1
  | element _ ih =>
      simp only [MirroredBy] at mirrored
      obtain ⟨inner, mirrored, -⟩ := mirrored
      exact ih mirrored
  | item _ ih =>
      simp only [MirroredBy] at mirrored
      obtain ⟨inner, mirrored, -⟩ := mirrored
      exact ih mirrored
  | key _ ih =>
      simp only [MirroredBy] at mirrored
      obtain ⟨keyInner, valueInner, mirrored, -, -⟩ := mirrored
      exact ih mirrored
  | value _ ih =>
      simp only [MirroredBy] at mirrored
      obtain ⟨keyInner, valueInner, -, mirrored, -⟩ := mirrored
      exact ih mirrored
  | @member members member key isMember needs ih =>
      simp only [MirroredBy, mirroredByEach_iff] at mirrored
      obtain ⟨described, aligned, -⟩ := mirrored
      have isOther : member ∈ members.filter (!·.isNone) := by
        apply List.mem_filter.mpr
        refine ⟨isMember, ?_⟩
        cases needs <;> rfl
      obtain ⟨_, -, mirrored⟩ := exists_right_of_mem aligned isOther
      exact ih mirrored
  | inner _ ih =>
      simp only [MirroredBy] at mirrored
      exact ih mirrored

end TypeExpr

/-- A declared field is the one of a class field, whatever its type is. -/
structure ClassField.IsDeclaredAs (field : ClassField) (declared : Field) : Prop where
  name : declared.name = field.wireName
  required : declared.required = field.presence.isRequired
  description : declared.description = field.description
  default : field.presence.fallback = .ok declared.default

/-- A declared field mirrors a field of a class. -/
structure ClassField.MirroredBy (registry : Registry) (field : ClassField) (declared : Field) :
    Prop where
  isDeclared : field.IsDeclaredAs declared
  type : field.type.MirroredBy registry declared.type

theorem ClassField.MirroredBy.mono {before after : Registry}
    (keeps : ∀ key id, before.structOf? key = some id → after.structOf? key = some id)
    {field : ClassField} {declared : Field} (mirrored : field.MirroredBy before declared) :
    field.MirroredBy after declared :=
  ⟨mirrored.isDeclared, mirrored.type.mono keeps⟩

theorem Presence.eq_failing_of_error {presence : Presence} {failure : Failure}
    (fails : presence.fallback = .error failure) : presence = .made .failing := by
  cases presence with
  | required => cases fails
  | default value => cases fails
  | made factory =>
      cases factory with
      | failing => rfl
      | _ => cases fails

namespace Registry

variable {invariant : Registry → Prop} {structFor : ClassKey → Action StructId}

theorem lasts_mirrored (expr : TypeExpr) :
    Lasts fun registry descriptor => expr.MirroredBy registry descriptor :=
  fun _ _ _ extend mirrored => mirrored.mono extend.keeps

/-- To describe a type is to get the structs of the classes that it needs, and gives a descriptor that
mirrors it. -/
theorem proceeds_mirrored {failed : Registry → Prop} {expr : TypeExpr}
    (each : ∀ key, expr.Needs key →
      Proceeds invariant (structFor key) (fun after id => after.structOf? key = some id) failed) :
    Proceeds invariant (describe structFor expr)
      (fun after descriptor => expr.MirroredBy after descriptor) failed := by
  induction expr using TypeExpr.induction with
  | collection kind element ih =>
      rw [describe]
      refine .bind (lasts_mirrored element) (ih fun key needs => each key (.element needs))
        fun _ => ?_
      exact .pure fun _ mirrored => by simpa only [TypeExpr.MirroredBy] using ⟨_, mirrored, rfl⟩
  | tuple items ih =>
      cases items with
      | nil => exact .pure fun _ => by simp only [TypeExpr.MirroredBy]
      | cons item rest =>
          rw [describe]
          refine .bind (lasts_mirrored item)
            (ih item List.mem_cons_self fun key needs => each key (.item needs)) fun _ => ?_
          exact .pure fun _ mirrored => by simpa only [TypeExpr.MirroredBy] using ⟨_, mirrored, rfl⟩
  | dict key value keyIh valueIh =>
      rw [describe]
      refine .bind (lasts_mirrored key) (keyIh fun key needs => each key (.key needs)) fun _ => ?_
      refine .bind (lasts_mirrored value) (valueIh fun key needs => each key (.value needs))
        fun _ => ?_
      exact .pure fun _ valueMirrored keyMirrored => by
        simpa only [TypeExpr.MirroredBy] using ⟨_, _, keyMirrored, valueMirrored, rfl⟩
  | union members ih =>
      rw [describe]
      refine .bind (lasts_aligned lasts_mirrored _) (.describeMembers lasts_mirrored ?_)
        fun described => ?_
      · intro member isOther
        have isMember := List.mem_of_mem_filter isOther
        exact ih member isMember fun key needs => each key (.member isMember needs)
      · have mirrored (after : Registry) (aligned : List.Forall₂
            (fun member descriptor => member.MirroredBy after descriptor)
            (members.filter (!·.isNone)) described) :
            (TypeExpr.union members).MirroredBy after
              (.ofMembers described (members.any TypeExpr.isNone)) := by
          simp only [TypeExpr.MirroredBy, TypeExpr.mirroredByEach_iff]
          exact ⟨described, aligned, rfl⟩
        split
        next single nullable =>
          rw [nullable] at mirrored
          exact .pure mirrored
        next single notNullable =>
          rw [notNullable] at mirrored
          exact .pure mirrored
        next notSingle nullable =>
          rw [nullable] at mirrored
          refine .pure fun after aligned => ?_
          simpa [Descriptor.ofMembers] using mirrored after aligned
        next notSingle notNullable =>
          rw [notNullable] at mirrored
          refine .pure fun after aligned => ?_
          simpa [Descriptor.ofMembers] using mirrored after aligned
  | annotated inner ih =>
      rw [describe]
      have inner := ih fun key needs => each key (.inner needs)
      exact inner.imp fun _ _ mirrored => by simpa only [TypeExpr.MirroredBy] using mirrored
  | record key =>
      rw [describe]
      refine .bind (fun _ _ id extend => extend.keeps key id) (each key (.record key)) fun id => ?_
      exact .pure fun _ entered => by simpa only [TypeExpr.MirroredBy] using ⟨id, entered, rfl⟩
  | _ => exact .pure fun _ => by simp only [TypeExpr.MirroredBy]

theorem lasts_mirroredField (field : ClassField) :
    Lasts fun registry declared => field.MirroredBy registry declared :=
  fun _ _ _ extend mirrored => mirrored.mono extend.keeps

/-- A field of a class is declared as the class has it, unless its default cannot be made. -/
theorem proceeds_mirroredField {failed : Registry → Prop} {field : ClassField}
    (each : ∀ key, field.type.Needs key →
      Proceeds invariant (structFor key) (fun after id => after.structOf? key = some id) failed)
    (fails : field.presence = .made .failing → ∀ registry, invariant registry → failed registry) :
    Proceeds invariant (fieldFrom structFor field)
      (fun after declared => field.MirroredBy after declared) failed := by
  rw [fieldFrom]
  have lifted := @Proceeds.liftOutcome _ invariant failed field.presence.fallback
    fun failure isError => fails (Presence.eq_failing_of_error isError)
  refine .bind (fun _ _ _ _ isDefault => isDefault) lifted fun default => ?_
  refine .bind (lasts_mirrored field.type) (proceeds_mirrored each) fun type => ?_
  exact .pure fun _ mirrored isDefault => ⟨⟨rfl, rfl, rfl, isDefault⟩, mirrored⟩

theorem advances_mirroredField {failed : Prop} {field : ClassField}
    (each : ∀ key, field.type.Needs key →
      Advances invariant (structFor key) (fun after id => after.structOf? key = some id) failed)
    (fails : field.presence = .made .failing → failed) :
    Advances invariant (fieldFrom structFor field)
      (fun after declared => field.MirroredBy after declared) failed := by
  apply advances_iff_proceeds.mpr
  intro start
  apply proceeds_mirroredField
  · intro key needs
    exact advances_iff_proceeds.mp (each key needs) start
  · intro isFailing registry holds
    exact ⟨holds.1, holds.2, fails isFailing⟩

end Registry

end TypedReply
