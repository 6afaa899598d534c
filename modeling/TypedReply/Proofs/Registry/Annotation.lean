import TypedReply.Proofs.Registry.Index
import TypedReply.Proofs.Value.Distinct

/-!
# Annotations of described types

The class that is built for declared fields annotates each of them by the type expression of its
descriptor, and a type expression is described by a descriptor again. Forming a type expression splices
in unions and drops what is there already, so that not every descriptor is got back; those that are
have nothing to splice in or to drop.
-/

namespace TypedReply

/-! ## Forming types -/

namespace TypeExpr

/-- A type that becomes a member of a union as it is, and that is not null. -/
structure StandsAlone (expr : TypeExpr) : Prop where
  members : expr.members = [expr]
  notNull : expr.isNone = false

def Apart (exprs : List TypeExpr) : Prop :=
  exprs.Pairwise fun earlier later => earlier.same later = false

def nulls (nullable : Bool) : List TypeExpr := if nullable then [.none] else []

theorem distinct_eq_self {exprs : List TypeExpr} (apart : Apart exprs) : distinct exprs = exprs :=
  @foldl_keep_of_pairwise _ same [] exprs apart

theorem literalOf_eq_self {values : List Value}
    (apart : values.Pairwise fun earlier later => sameChoice later earlier = false) :
    literalOf values = .literal values :=
  congrArg literal (@foldl_keep_of_pairwise _ (fun old v => sameChoice v old) [] values apart)

theorem same_none_eq_false {expr : TypeExpr} (notNull : expr.isNone = false) :
    expr.same .none = false := by
  cases expr with
  | none => cases notNull
  | _ => rfl

theorem Apart.append_nulls {exprs : List TypeExpr} (apart : Apart exprs)
    (notNull : ∀ expr ∈ exprs, expr.isNone = false) (nullable : Bool) :
    Apart (exprs ++ nulls nullable) := by
  cases nullable with
  | false => simpa [nulls] using apart
  | true =>
      apply List.pairwise_append.mpr
      refine ⟨apart, List.pairwise_singleton _ _, ?_⟩
      intro expr isExpr other isNull
      rw [List.mem_singleton.mp isNull]
      exact same_none_eq_false (notNull expr isExpr)

theorem unionOf_eq_ok {exprs : List TypeExpr} (each : ∀ expr ∈ exprs, expr.members = [expr])
    (apart : Apart exprs) (several : 2 ≤ exprs.length) : unionOf exprs = .ok (.union exprs) := by
  have flat : exprs.flatMap members = exprs := by
    rw [List.flatMap_congr each]
    simp
  rw [unionOf, flat, distinct_eq_self apart]
  match exprs with
  | [] => simp at several
  | [_] => simp at several
  | _ :: _ :: _ => rfl

theorem unionOf_append_nulls {exprs : List TypeExpr} (alone : ∀ expr ∈ exprs, expr.StandsAlone)
    (apart : Apart exprs) (nullable : Bool) (several : 2 ≤ (exprs ++ nulls nullable).length) :
    unionOf (exprs ++ nulls nullable) = .ok (.union (exprs ++ nulls nullable)) := by
  refine unionOf_eq_ok ?_ (apart.append_nulls (fun expr isExpr => (alone expr isExpr).notNull) _)
    several
  intro expr isExpr
  rcases List.mem_append.mp isExpr with isMember | isNull
  · exact (alone expr isMember).members
  · cases nullable with
    | false => cases isNull
    | true =>
        rw [List.mem_singleton.mp isNull]
        rfl

theorem optionalOf_eq_ok {expr : TypeExpr} (alone : expr.StandsAlone) :
    optionalOf expr = .ok (.union [expr, .none]) :=
  @unionOf_append_nulls [expr] (List.forall_mem_singleton.mpr alone) (List.pairwise_singleton _ _)
    true (Nat.le_refl 2)

theorem ofDescriptors_eq_mapM (store : Store) (descriptors : List Descriptor) :
    ofDescriptors store descriptors = descriptors.mapM (ofDescriptor store) := by
  induction descriptors with
  | nil => rfl
  | cons first rest ih =>
      rw [ofDescriptors, ih, List.mapM_cons]
      rfl

/-! ## What mirrors a union -/

variable {registry : Registry}

theorem filter_append_nulls {exprs : List TypeExpr} (notNull : ∀ expr ∈ exprs, expr.isNone = false)
    (nullable : Bool) : (exprs ++ nulls nullable).filter (!·.isNone) = exprs := by
  rw [List.filter_append, List.filter_eq_self.mpr fun expr isExpr => by simp [notNull expr isExpr]]
  cases nullable <;> simp [nulls, isNone]

theorem any_append_nulls {exprs : List TypeExpr} (notNull : ∀ expr ∈ exprs, expr.isNone = false)
    (nullable : Bool) : (exprs ++ nulls nullable).any isNone = nullable := by
  rw [List.any_append, List.any_eq_false.mpr fun expr isExpr => by simp [notNull expr isExpr]]
  cases nullable <;> simp [nulls, isNone]

theorem mirroredBy_union {exprs : List TypeExpr} {described : List Descriptor}
    (notNull : ∀ expr ∈ exprs, expr.isNone = false)
    (aligned : List.Forall₂ (MirroredBy registry) exprs described) (nullable : Bool) :
    (union (exprs ++ nulls nullable)).MirroredBy registry (.ofMembers described nullable) := by
  simp only [MirroredBy, mirroredByEach_iff, filter_append_nulls notNull, any_append_nulls notNull]
  exact ⟨described, aligned, rfl⟩

/-- Only one descriptor mirrors a type. -/
theorem MirroredBy.unique {expr : TypeExpr} {descriptor other : Descriptor}
    (mirrored : expr.MirroredBy registry descriptor) (isOther : expr.MirroredBy registry other) :
    descriptor = other := by
  induction expr using TypeExpr.induction generalizing descriptor other with
  | collection kind element ih =>
      simp only [MirroredBy] at mirrored isOther
      obtain ⟨inner, mirrored, rfl⟩ := mirrored
      obtain ⟨otherInner, isOther, rfl⟩ := isOther
      rw [ih mirrored isOther]
  | tuple items ih =>
      cases items with
      | nil =>
          simp only [MirroredBy] at mirrored isOther
          exact mirrored.trans isOther.symm
      | cons item rest =>
          simp only [MirroredBy] at mirrored isOther
          obtain ⟨inner, mirrored, rfl⟩ := mirrored
          obtain ⟨otherInner, isOther, rfl⟩ := isOther
          rw [ih item List.mem_cons_self mirrored isOther]
  | dict key value keyIh valueIh =>
      simp only [MirroredBy] at mirrored isOther
      obtain ⟨keyInner, valueInner, keyMirrored, valueMirrored, rfl⟩ := mirrored
      obtain ⟨otherKey, otherValue, keyIsOther, valueIsOther, rfl⟩ := isOther
      rw [keyIh keyMirrored keyIsOther, valueIh valueMirrored valueIsOther]
  | union members ih =>
      simp only [MirroredBy, mirroredByEach_iff] at mirrored isOther
      obtain ⟨described, aligned, rfl⟩ := mirrored
      obtain ⟨others, otherAligned, rfl⟩ := isOther
      have same : List.Forall₂ (· = ·) described others := by
        apply (aligned_through aligned otherAligned).imp
        rintro first second ⟨member, isMember, isFirst, isSecond⟩
        exact ih member (List.mem_of_mem_filter isMember) isFirst isSecond
      rw [List.forall₂_eq_eq_eq] at same
      rw [same]
  | annotated inner ih =>
      simp only [MirroredBy] at mirrored isOther
      exact ih mirrored isOther
  | record key =>
      simp only [MirroredBy] at mirrored isOther
      obtain ⟨id, entered, rfl⟩ := mirrored
      obtain ⟨place, isEntered, rfl⟩ := isOther
      rw [Option.some.inj (entered.symm.trans isEntered)]
  | _ =>
      simp only [MirroredBy] at mirrored isOther
      exact mirrored.trans isOther.symm

end TypeExpr

/-! ## Normal descriptors -/

namespace Descriptor

/-- A descriptor that is neither an optional nor a union nor null. -/
def StandsAlone : Descriptor → Prop
  | .optional _ => False
  | .union _ => False
  | .null => False
  | _ => True

theorem StandsAlone.ofDescriptor {store : Store} {descriptor : Descriptor} {expr : TypeExpr}
    (alone : descriptor.StandsAlone) (isExpr : TypeExpr.ofDescriptor store descriptor = .ok expr) :
    expr.StandsAlone := by
  have ofClass (cls : Option ClassKey) : (cls.elim TypeExpr.bareDict .record).StandsAlone := by
    cases cls <;> exact ⟨rfl, rfl⟩
  cases descriptor with
  | optional inner => exact alone.elim
  | union members => exact alone.elim
  | null => exact alone.elim
  | enum type => cases type <;> cases isExpr <;> exact ⟨rfl, rfl⟩
  | array element =>
      obtain ⟨inner, -, isInner⟩ := bind_eq_ok_iff.mp isExpr
      cases isInner
      exact ⟨rfl, rfl⟩
  | map key value =>
      obtain ⟨keyInner, -, rest⟩ := bind_eq_ok_iff.mp isExpr
      obtain ⟨valueInner, -, isInner⟩ := bind_eq_ok_iff.mp rest
      cases isInner
      exact ⟨rfl, rfl⟩
  | fixed record => cases isExpr; exact ofClass record.cls
  | struct id => cases isExpr; exact ofClass (store.at id).cls
  | _ => cases isExpr; exact ⟨rfl, rfl⟩

def nulls (nullable : Bool) : List Descriptor := if nullable then [.null] else []

theorem ofMembers_of_several {members : List Descriptor} (several : 2 ≤ members.length)
    (nullable : Bool) : ofMembers members nullable = .union (members ++ nulls nullable) := by
  match members with
  | [] => simp at several
  | [_] => simp at several
  | _ :: _ :: _ => cases nullable <;> simp [ofMembers, nulls]

end Descriptor

namespace Registry

/-- A descriptor is normal if forming its type expression neither splices in a union nor drops what is
there already: the choices of an enumeration differ, what is optional stands alone, and a union has at
least two members, which stand alone and have different type expressions, and perhaps null after them.
The structs are those that the registry finds by class or by name. -/
inductive IsNormal (registry : Registry) : Descriptor → Prop where
  | scalar (kind : ScalarKind) : IsNormal registry (.scalar kind)
  | null : IsNormal registry .null
  | enum (cls : EnumClass) : IsNormal registry (.enum (.ofClass cls))
  | choices {values : List Value}
      (apart : values.Pairwise fun earlier later => TypeExpr.sameChoice later earlier = false) :
      IsNormal registry (.enum (.choices values))
  | array {element : Descriptor} (normal : IsNormal registry element) :
      IsNormal registry (.array element)
  | map {key value : Descriptor} (keyNormal : IsNormal registry key)
      (valueNormal : IsNormal registry value) : IsNormal registry (.map key value)
  | struct {id : StructId} (caches : registry.Caches id) : IsNormal registry (.struct id)
  | optional {inner : Descriptor} (alone : inner.StandsAlone) (normal : IsNormal registry inner) :
      IsNormal registry (.optional inner)
  | union {members : List Descriptor} (several : 2 ≤ members.length)
      (alone : ∀ member ∈ members, member.StandsAlone)
      (normal : ∀ member ∈ members, IsNormal registry member)
      (apart : members.Pairwise fun earlier later =>
        ∀ expr other, TypeExpr.ofDescriptor registry.structs earlier = .ok expr →
          TypeExpr.ofDescriptor registry.structs later = .ok other → expr.same other = false)
      (nullable : Bool) : IsNormal registry (.union (members ++ Descriptor.nulls nullable))

variable {registry : Registry} {descriptor : Descriptor}

/-- A normal descriptor mirrors its type expression. -/
theorem IsNormal.exists_mirrored (arises : Arises registry) (normal : registry.IsNormal descriptor) :
    ∃ expr, TypeExpr.ofDescriptor registry.structs descriptor = .ok expr ∧
      expr.MirroredBy registry descriptor := by
  induction normal with
  | scalar kind => exact ⟨.scalar kind, rfl, by simp only [TypeExpr.MirroredBy]⟩
  | null => exact ⟨.none, rfl, by simp only [TypeExpr.MirroredBy]⟩
  | enum cls => exact ⟨.enum cls, rfl, by simp only [TypeExpr.MirroredBy]⟩
  | @choices values apart =>
      refine ⟨.literal values, ?_, by simp only [TypeExpr.MirroredBy]⟩
      rw [TypeExpr.ofDescriptor, TypeExpr.literalOf_eq_self apart]
  | array _ ih =>
      obtain ⟨expr, isExpr, mirrored⟩ := ih
      refine ⟨.collection .list expr, ?_, by simpa only [TypeExpr.MirroredBy] using ⟨_, mirrored, rfl⟩⟩
      rw [TypeExpr.ofDescriptor, isExpr]
      rfl
  | map _ _ keyIh valueIh =>
      obtain ⟨key, isKey, keyMirrored⟩ := keyIh
      obtain ⟨value, isValue, valueMirrored⟩ := valueIh
      refine ⟨.dict key value, ?_, ?_⟩
      · rw [TypeExpr.ofDescriptor, isKey, isValue]
        rfl
      · simpa only [TypeExpr.MirroredBy] using ⟨_, _, keyMirrored, valueMirrored, rfl⟩
  | struct caches =>
      obtain ⟨key, isClass, entered⟩ := arises.exists_class caches
      refine ⟨.record key, ?_, by simpa only [TypeExpr.MirroredBy] using ⟨_, entered, rfl⟩⟩
      rw [TypeExpr.ofDescriptor, isClass]
      rfl
  | @optional inner alone _ ih =>
      obtain ⟨expr, isExpr, mirrored⟩ := ih
      have exprAlone := alone.ofDescriptor isExpr
      refine ⟨.union [expr, .none], ?_, ?_⟩
      · rw [TypeExpr.ofDescriptor, isExpr]
        exact TypeExpr.optionalOf_eq_ok exprAlone
      · exact @TypeExpr.mirroredBy_union _ [expr] [inner]
          (List.forall_mem_singleton.mpr exprAlone.notNull) (.cons mirrored .nil) true
  | @union members several alone _ apart nullable ih =>
      obtain ⟨exprs, aligned⟩ := exists_aligned ih
      have isEach : List.Forall₂ (fun member expr =>
          TypeExpr.ofDescriptor registry.structs member = .ok expr) members exprs :=
        aligned.imp fun _ _ both => both.1
      have mirrored : List.Forall₂ (TypeExpr.MirroredBy registry) exprs members :=
        (aligned.imp fun _ _ both => both.2).flip
      have exprsAlone : ∀ expr ∈ exprs, expr.StandsAlone := by
        intro expr isExpr
        obtain ⟨member, isMember, isMemberExpr⟩ := exists_left_of_mem isEach isExpr
        exact (alone member isMember).ofDescriptor isMemberExpr
      have exprsApart : TypeExpr.Apart exprs :=
        pairwise_aligned isEach apart fun _ _ expr other isExpr isOther differ =>
          differ expr other isExpr isOther
      refine ⟨.union (exprs ++ TypeExpr.nulls nullable), ?_, ?_⟩
      · have isNulls : (Descriptor.nulls nullable).mapM (TypeExpr.ofDescriptor registry.structs) =
            .ok (TypeExpr.nulls nullable) := by
          cases nullable <;> rfl
        rw [TypeExpr.ofDescriptor, TypeExpr.ofDescriptors_eq_mapM, List.mapM_append,
          mapM_eq_ok_iff.mpr isEach, isNulls]
        apply TypeExpr.unionOf_append_nulls exprsAlone exprsApart
        rw [List.length_append, ← aligned.length_eq]
        exact Nat.le_add_right_of_le several
      · rw [← Descriptor.ofMembers_of_several several]
        exact TypeExpr.mirroredBy_union (fun expr isExpr => (exprsAlone expr isExpr).notNull)
          mirrored nullable

/-- Where a descriptor mirrors a type, the type is described by it, and the registry is left as it was:
all the structs that the description needs are there. -/
theorem yields_descriptorFor_of_mirrored {expr : TypeExpr}
    (mirrored : expr.MirroredBy registry descriptor) :
    Yields (descriptorFor expr) registry descriptor registry := by
  have each (key) (needs : expr.Needs key) : Proceeds (· = registry) (fromClass key)
      (fun after id => after.structOf? key = some id) fun _ => False := by
    obtain ⟨id, entered⟩ := mirrored.exists_struct needs
    rintro before rfl
    rw [fromClass, leaves_bind, leaves_get, leaves_derive_of_entered entered]
    exact ⟨rfl, .refl _, entered⟩
  obtain ⟨result, after, yields, rfl, -, isMirrored⟩ :=
    (proceeds_mirrored each registry rfl).exists_yields
  rwa [mirrored.unique isMirrored]

/-- Every normal descriptor has a type expression, and this is described by the same descriptor again,
without any change to the registry. -/
theorem descriptorFor_ofDescriptor (arises : Arises registry) (normal : registry.IsNormal descriptor) :
    ∃ expr, TypeExpr.ofDescriptor registry.structs descriptor = .ok expr ∧
      Yields (descriptorFor expr) registry descriptor registry := by
  obtain ⟨expr, isExpr, mirrored⟩ := normal.exists_mirrored arises
  exact ⟨expr, isExpr, yields_descriptorFor_of_mirrored mirrored⟩

/-- A registry in which fruit and trees are declared and have their structs. -/
def plantedOrchard : Registry := ((fromClass (.declared 1)).run orchard).2

theorem arises_plantedOrchard : Arises plantedOrchard := by
  have declaresFruit : empty.Use fruits :=
    .cls "Fruit" "Fruit" none [.base] fruitClass.fields
  have declaresTree : fruits.Use orchard :=
    .cls "Tree" "Tree" (some "A tree.") [.base]
      [⟨"fruit", none, .union [.record (.declared 0), .none], .default .null, none, .none⟩,
       ⟨"branches", none, .collection .list (.unresolved "Tree"), .made .list, none, .none⟩]
  exact .use (.use (.use (.fresh _) declaresFruit) declaresTree) (.derive (.declared 1))

/-- A tree, a list of dates some of which are missing, counts or flags by name, or nothing. -/
def harvest : Descriptor :=
  .union ([.struct 0, .array (.optional (.scalar .date)),
    .map (.scalar .string) (.enum (.choices [.int 1, .bool true]))] ++ Descriptor.nulls true)

theorem isNormal_harvest : plantedOrchard.IsNormal harvest := by
  have isTree : plantedOrchard.Caches 0 := .inl ⟨.declared 1, by decide⟩
  apply IsNormal.union
  · decide
  · simp [Descriptor.StandsAlone]
  · simp only [List.forall_mem_cons, List.not_mem_nil, false_imp_iff, implies_true, and_true]
    refine ⟨.struct isTree, .array (.optional trivial (.scalar .date)), .map (.scalar .string) ?_⟩
    apply IsNormal.choices
    decide
  · have isTreeExpr : TypeExpr.ofDescriptor plantedOrchard.structs (.struct 0) =
        .ok (.record (.declared 1)) := rfl
    have areDates : TypeExpr.ofDescriptor plantedOrchard.structs
        (.array (.optional (.scalar .date))) =
          .ok (.collection .list (.union [.scalar .date, .none])) := rfl
    have areMarks : TypeExpr.ofDescriptor plantedOrchard.structs
        (.map (.scalar .string) (.enum (.choices [.int 1, .bool true]))) =
          .ok (.dict (.scalar .string) (.literal [.int 1, .bool true])) := rfl
    simp [isTreeExpr, areDates, areMarks, TypeExpr.same]

/-- The type of a harvest is described as the harvest is. -/
theorem harvest_described_again :
    Arises plantedOrchard ∧ plantedOrchard.IsNormal harvest ∧
      ∃ expr, TypeExpr.ofDescriptor plantedOrchard.structs harvest = .ok expr ∧
        Yields (descriptorFor expr) plantedOrchard harvest plantedOrchard :=
  ⟨arises_plantedOrchard, isNormal_harvest,
    descriptorFor_ofDescriptor arises_plantedOrchard isNormal_harvest⟩

end Registry

end TypedReply
