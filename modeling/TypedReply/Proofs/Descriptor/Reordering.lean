import TypedReply.Proofs.Descriptor.Reach
import TypedReply.Proofs.Reply.Discriminators

/-!
# Members in another order

Two descriptors are reordered forms of each other if they differ in the order of the members of some
unions only, wherever these stand. Structs that are named correspond to structs that are reordered
forms of them, so the relation goes on through the graph of structs, in cycles too.
-/

namespace TypedReply

/-- Fields that are the same but for their types, which are related. -/
inductive Retyped (related : Descriptor → Descriptor → Prop) : Field → Field → Prop where
  | type {name : String} {type other : Descriptor} {required : Bool} {description : Option String}
      {default : Option Value} (isType : related type other) :
      Retyped related ⟨name, type, required, description, default⟩
        ⟨name, other, required, description, default⟩

namespace Descriptor

/-- Descriptors that differ in the order of the members of some unions only: of those that may be
permuted. Structs correspond to structs. -/
inductive Reorders (permuted : List Descriptor → Prop) (corresponds : StructId → StructId → Prop) :
    Descriptor → Descriptor → Prop where
  | scalar (kind : ScalarKind) : Reorders permuted corresponds (.scalar kind) (.scalar kind)
  | enum (type : EnumType) : Reorders permuted corresponds (.enum type) (.enum type)
  | array {element other : Descriptor} (isElement : Reorders permuted corresponds element other) :
      Reorders permuted corresponds (.array element) (.array other)
  | map {key value otherKey other : Descriptor} (isKey : Reorders permuted corresponds key otherKey)
      (isValue : Reorders permuted corresponds value other) :
      Reorders permuted corresponds (.map key value) (.map otherKey other)
  | optional {inner other : Descriptor} (isInner : Reorders permuted corresponds inner other) :
      Reorders permuted corresponds (.optional inner) (.optional other)
  | union {members others : List Descriptor}
      (each : List.Forall₂ (Reorders permuted corresponds) members others) :
      Reorders permuted corresponds (.union members) (.union others)
  | permuted {members found others : List Descriptor} (isPermuted : permuted members)
      (perm : members.Perm found)
      (each : List.Forall₂ (Reorders permuted corresponds) found others) :
      Reorders permuted corresponds (.union members) (.union others)
  | null : Reorders permuted corresponds .null .null
  | fixed {fields others : List Field} {name : Option String} {cls : Option ClassKey}
      {description : Option String}
      (each : List.Forall₂ (Retyped (Reorders permuted corresponds)) fields others) :
      Reorders permuted corresponds (.fixed ⟨fields, name, cls, description⟩)
        (.fixed ⟨others, name, cls, description⟩)
  | struct {id other : StructId} (corresponding : corresponds id other) :
      Reorders permuted corresponds (.struct id) (.struct other)
  | stray (value : Value) : Reorders permuted corresponds (.stray value) (.stray value)

end Descriptor

/-- Records that differ in the types of their fields only, which are reordered. -/
structure RecordView.Reorders (permuted : List Descriptor → Prop)
    (corresponds : StructId → StructId → Prop) (record other : RecordView) : Prop where
  name : record.name = other.name
  cls : record.cls = other.cls
  fields : List.Forall₂ (Retyped (Descriptor.Reorders permuted corresponds)) record.fields other.fields

theorem RecordView.Reorders.tag? {permuted : List Descriptor → Prop}
    {corresponds : StructId → StructId → Prop} {record other : RecordView}
    (reorders : RecordView.Reorders permuted corresponds record other) :
    record.tag? = other.tag? := by
  rw [RecordView.tag?, RecordView.tag?, reorders.name]

/-- Structs that correspond differ in the types of their fields only, which are reordered. -/
def Store.Correspond (permuted : List Descriptor → Prop) (corresponds : StructId → StructId → Prop)
    (store other : Store) : Prop :=
  ∀ id twin, corresponds id twin →
    RecordView.Reorders permuted corresponds (store.at id).view (other.at twin).view

/-- A union of records with names of their own, beside null perhaps. -/
def Descriptor.IsTagUnion (store : Store) (members : List Descriptor) : Prop :=
  ∃ names : List String, names.Nodup ∧ (nonNull members).map (tag? store) = names.map some

variable {permuted : List Descriptor → Prop} {corresponds : StructId → StructId → Prop}
variable {store otherStore : Store}

namespace Retyped

variable {related : Descriptor → Descriptor → Prop} {field other : Field}

theorem name (retyped : Retyped related field other) : field.name = other.name := by
  cases retyped
  rfl

theorem isType (retyped : Retyped related field other) : related field.type other.type := by
  cases retyped with
  | type isType => exact isType

/-- The same fields are required. -/
theorem requiredNames_eq {fields others : List Field}
    (each : List.Forall₂ (Retyped related) fields others) :
    requiredNames fields = requiredNames others := by
  induction each with
  | nil => rfl
  | cons first _ ih =>
      cases first with
      | type =>
          unfold requiredNames at ih ⊢
          rw [List.filterMap_cons, List.filterMap_cons, ih]

end Retyped

namespace Descriptor

theorem Reorders.refl (descriptor : Descriptor) : Reorders permuted (· = ·) descriptor descriptor := by
  induction descriptor using Descriptor.induction with
  | scalar kind => exact .scalar kind
  | enum type => exact .enum type
  | array element ih => exact .array ih
  | map key value isKey isValue => exact .map isKey isValue
  | optional inner ih => exact .optional ih
  | union members ih => exact .union (List.forall₂_same.mpr ih)
  | null => exact .null
  | fixed record ih =>
      apply Reorders.fixed
      rw [List.forall₂_same]
      intro field isField
      exact .type (ih field isField)
  | struct id => exact .struct rfl
  | stray value => exact .stray value

theorem correspond_refl (store : Store) : Store.Correspond permuted (· = ·) store store := by
  rintro id _ rfl
  refine ⟨rfl, rfl, List.forall₂_same.mpr ?_⟩
  intro field _
  exact .type (.refl field.type)

namespace Reorders

variable {descriptor other : Descriptor} (reorders : Reorders permuted corresponds descriptor other)
include reorders

theorem isNull : descriptor.isNull = other.isNull := by
  cases reorders <;> rfl

theorem isRecord : descriptor.isRecord = other.isRecord := by
  cases reorders <;> rfl

theorem isMap : Read.isMap descriptor = Read.isMap other := by
  cases reorders <;> rfl

theorem unwrapped : Reorders permuted corresponds descriptor.unwrapped other.unwrapped := by
  cases reorders with
  | scalar kind => exact .scalar kind
  | enum type => exact .enum type
  | array isElement => exact .array isElement
  | map isKey isValue => exact .map isKey isValue
  | optional isInner => exact isInner
  | union each => exact .union each
  | permuted isPermuted perm each => exact .permuted isPermuted perm each
  | null => exact .null
  | fixed each => exact .fixed each
  | struct corresponding => exact .struct corresponding
  | stray value => exact .stray value

theorem exactMatch (raw : Value) : Read.exactMatch raw descriptor = Read.exactMatch raw other := by
  induction descriptor using Descriptor.induction generalizing other with
  | optional inner ih =>
      cases reorders with
      | optional isInner => rw [Read.exactMatch, Read.exactMatch, ih isInner]
  | _ => cases reorders <;> rfl

theorem isDiscriminator : descriptor.isDiscriminator = other.isDiscriminator := by
  have unwrapped := reorders.unwrapped
  unfold Descriptor.isDiscriminator
  generalize descriptor.unwrapped = first at unwrapped ⊢
  generalize other.unwrapped = second at unwrapped ⊢
  cases unwrapped <;> rfl

theorem namings (name : String) : descriptor.namings name = other.namings name := by
  have sameMembers : descriptor.enumMembers = other.enumMembers := by
    have unwrapped := reorders.unwrapped
    unfold enumMembers
    generalize descriptor.unwrapped = first at unwrapped ⊢
    generalize other.unwrapped = second at unwrapped ⊢
    cases unwrapped <;> rfl
  rw [Descriptor.namings, Descriptor.namings, sameMembers]

variable (correspond : Store.Correspond permuted corresponds store otherStore)
include correspond

theorem record? : Option.Rel (RecordView.Reorders permuted corresponds) (descriptor.record? store)
    (other.record? otherStore) := by
  unfold Descriptor.record?
  cases reorders with
  | fixed each => exact .some ⟨rfl, rfl, each⟩
  | struct corresponding => exact .some (correspond _ _ corresponding)
  | _ => exact .none

theorem tag? : descriptor.tag? store = other.tag? otherStore := by
  have record := reorders.record? correspond
  unfold Descriptor.tag?
  generalize descriptor.record? store = first at record ⊢
  generalize other.record? otherStore = second at record ⊢
  cases record with
  | none => rfl
  | some isRecord => exact isRecord.tag?

end Reorders

/-! ## Unions -/

variable {members others : List Descriptor}

section Aligned

variable (each : List.Forall₂ (Reorders permuted corresponds) members others)
include each

theorem nilable_aligned : nilable members = nilable others :=
  any_aligned each fun _ _ reorders => reorders.isNull

theorem nonNull_aligned :
    List.Forall₂ (Reorders permuted corresponds) (nonNull members) (nonNull others) := by
  apply filter_aligned each
  intro member other reorders
  rw [reorders.isNull]

/-- Tags select reordered records by the same names. -/
theorem namedRecords_aligned (correspond : Store.Correspond permuted corresponds store otherStore) :
    List.Forall₂ (fun record other => record.1 = other.1 ∧
        Reorders permuted corresponds record.2 other.2)
      (namedRecords store members) (namedRecords otherStore others) := by
  apply List.rel_filterMap _ (nonNull_aligned each)
  intro member other reorders
  apply rel_bind (reorders.unwrapped.record? correspond)
  intro record otherRecord _ isRecord
  rw [isRecord.tag?]
  cases otherRecord.tag? with
  | none => exact .none
  | some name => exact .some ⟨rfl, reorders.unwrapped⟩

end Aligned

/-- Tag unions are of records without optionals around them. -/
theorem IsTagUnion.exists_record (union : IsTagUnion store members) {member : Descriptor}
    (isMember : member ∈ nonNull members) :
    ∃ record, member.record? store = some record := by
  obtain ⟨names, -, named⟩ := union
  have isNamed : member.tag? store ∈ (nonNull members).map (Descriptor.tag? store) :=
    List.mem_map_of_mem isMember
  rw [named] at isNamed
  obtain ⟨name, -, isName⟩ := List.mem_map.mp isNamed
  obtain ⟨-, record, isRecord, -⟩ := exists_record_of_tag? isName.symm
  exact ⟨record, isRecord⟩

/-- The records of a tag union go by different names, and there are as many of them as members other
than null. -/
theorem IsTagUnion.namedRecords (union : IsTagUnion store members) :
    ((Descriptor.namedRecords store members).map Prod.fst).Nodup ∧
      (Descriptor.namedRecords store members).length = (nonNull members).length := by
  obtain ⟨names, distinct, named⟩ := union
  have names_eq : (Descriptor.namedRecords store members).map Prod.fst = names := by
    unfold Descriptor.namedRecords
    generalize nonNull members = rest at named ⊢
    induction rest generalizing names with
    | nil =>
        cases names with
        | nil => rfl
        | cons => cases named
    | cons member rest ih =>
        cases names with
        | nil => cases named
        | cons name names =>
            rw [List.map_cons, List.map_cons, List.cons.injEq] at named
            obtain ⟨unwrapped, record, isRecord, isName⟩ := exists_record_of_tag? named.1
            simp only [List.filterMap_cons, unwrapped, isRecord, isName, Option.bind_eq_bind,
              Option.bind_some, List.map_cons]
            exact congrArg (name :: ·) (ih names (List.nodup_cons.mp distinct).2 named.2)
  refine ⟨names_eq ▸ distinct, ?_⟩
  have sameLength := congrArg List.length named
  rw [List.length_map, List.length_map] at sameLength
  rw [sameLength, ← names_eq, List.length_map]

theorem namedRecords_perm (perm : members.Perm others) :
    (namedRecords store members).Perm (namedRecords store others) :=
  (perm.filter _).filterMap _

/-- The members of one union are those of the other in order, or the members of the first may be
permuted and are those of the second in some order. -/
def ReordersMembers (permuted : List Descriptor → Prop) (corresponds : StructId → StructId → Prop)
    (members others : List Descriptor) : Prop :=
  List.Forall₂ (Reorders permuted corresponds) members others ∨
    permuted members ∧ ∃ found, members.Perm found ∧
      List.Forall₂ (Reorders permuted corresponds) found others

theorem reordersMembers (reorders : Reorders permuted corresponds (.union members) (.union others)) :
    ReordersMembers permuted corresponds members others := by
  cases reorders with
  | union each => exact .inl each
  | permuted isPermuted perm each => exact .inr ⟨isPermuted, _, perm, each⟩

namespace ReordersMembers

variable (reorders : ReordersMembers permuted corresponds members others)
include reorders

theorem nilable : nilable members = nilable others := by
  cases reorders with
  | inl each => exact nilable_aligned each
  | inr isPermuted =>
      obtain ⟨-, found, perm, each⟩ := isPermuted
      rw [← nilable_aligned each, Descriptor.nilable, Descriptor.nilable, perm.any_eq]

theorem nonNull_eq_nil (none : nonNull members = []) : nonNull others = [] := by
  have aligned {found : List Descriptor}
      (each : List.Forall₂ (Reorders permuted corresponds) found others)
      (none : nonNull found = []) : nonNull others = [] := by
    have nonNull := nonNull_aligned each
    rw [none] at nonNull
    exact List.forall₂_nil_left_iff.mp nonNull
  cases reorders with
  | inl each => exact aligned each none
  | inr isPermuted =>
      obtain ⟨-, found, perm, each⟩ := isPermuted
      have perm : (nonNull members).Perm (nonNull found) := perm.filter _
      rw [none] at perm
      exact aligned each perm.symm.eq_nil

/-- Both unions have records with names, or neither has. -/
theorem isEmpty_namedRecords
    (correspond : Store.Correspond permuted corresponds store otherStore) :
    (namedRecords store members).isEmpty = (namedRecords otherStore others).isEmpty := by
  have aligned {found : List Descriptor}
      (each : List.Forall₂ (Reorders permuted corresponds) found others) :
      (namedRecords store found).isEmpty = (namedRecords otherStore others).isEmpty := by
    have records := namedRecords_aligned each correspond
    generalize namedRecords store found = firsts at records ⊢
    generalize namedRecords otherStore others = seconds at records ⊢
    cases records <;> rfl
  cases reorders with
  | inl each => exact aligned each
  | inr isPermuted =>
      obtain ⟨-, found, perm, each⟩ := isPermuted
      rw [← aligned each, (namedRecords_perm perm).isEmpty_eq]

end ReordersMembers

/-- Null is accepted by both types or by neither. -/
theorem Reorders.acceptsNull {descriptor other : Descriptor}
    (reorders : Reorders permuted corresponds descriptor other) :
    Read.acceptsNull descriptor = Read.acceptsNull other := by
  have exact := reorders.exactMatch .null
  cases descriptor with
  | union members =>
      cases other with
      | union others => exact (reordersMembers reorders).nilable
      | _ => cases reorders
  | _ =>
      cases other with
      | union others => cases reorders
      | _ => exact exact

/-! ## Discriminators -/

/-- A mapping is empty exactly if there are no records with names. -/
theorem isEmpty_typeMapping_eq (store : Store) (members : List Descriptor)
    (discriminator : Descriptor) : (typeMapping store members discriminator).isEmpty =
      (namedRecords store members).isEmpty := by
  cases named : namedRecords store members with
  | nil => rw [typeMapping, named, List.foldl_nil]
  | cons record records =>
      apply isEmpty_typeMapping
      rw [named]
      exact List.cons_ne_nil record records

/-- Records that are reordered are named by the same texts. -/
theorem lookup_aligned (correspond : Store.Correspond permuted corresponds store otherStore)
    (each : List.Forall₂ (Reorders permuted corresponds) members others)
    {discriminator other : Descriptor} (reorders : Reorders permuted corresponds discriminator other)
    (text : String) : Option.Rel (Reorders permuted corresponds)
      ((typeMapping store members discriminator).lookup text)
      ((typeMapping otherStore others other).lookup text) := by
  rw [lookup_typeMapping, lookup_typeMapping, Option.map_eq_bind, Option.map_eq_bind]
  apply rel_bind (find?_aligned (namedRecords_aligned each correspond) _)
  · intro record other _ isRecord
    exact .some isRecord.2
  · intro record other isRecord
    rw [isRecord.1, reorders.namings]

end Descriptor

/-- The same text leads to reordered records, or to none. -/
theorem TypeMapping.resolve?_aligned {related : Descriptor → Descriptor → Prop}
    {mapping other : TypeMapping}
    (leads : ∀ text, Option.Rel related (mapping.lookup text) (other.lookup text))
    {tag otherTag : Value} (sameText : (memberValue tag).text? = (memberValue otherTag).text?) :
    Option.Rel related (mapping.resolve? tag) (other.resolve? otherTag) := by
  unfold TypeMapping.resolve?
  rw [sameText]
  cases (memberValue otherTag).text? with
  | none => exact .none
  | some text =>
      simp only [Option.bind_eq_bind, Option.bind_some, Option.orElse_eq_orElse,
        Option.orElse_eq_or]
      exact rel_or (leads text) (leads (folded text))

namespace Discrimination

open Descriptor

/-- Two discriminations of a field by the same field. They lead from the same texts to reordered
records, unless the records are those of a union that may be permuted. -/
structure Reorders (permuted : List Descriptor → Prop)
    (corresponds : StructId → StructId → Prop) (fields : List Field) (found other : Discrimination) :
    Prop where
  field : found.field = other.field
  discriminator : found.discriminator = other.discriminator
  leads : (∃ field ∈ fields, field.name = found.field ∧
      ∃ members, field.type.unwrapped = .union members ∧ permuted members) ∨
    ∀ text, Option.Rel (Descriptor.Reorders permuted corresponds) (found.mapping.lookup text)
      (other.mapping.lookup text)

variable (correspond : Store.Correspond permuted corresponds store otherStore)
variable {fields others : List Field}
include correspond

/-- Neighbours whose types are reordered discriminate alike. -/
theorem ofPair?_aligned {previous previousOther field other : Field}
    (isPrevious : Retyped (Descriptor.Reorders permuted corresponds) previous previousOther)
    (retyped : Retyped (Descriptor.Reorders permuted corresponds) field other)
    (isField : field ∈ fields) : Option.Rel (Reorders permuted corresponds fields)
      (ofPair? store previous field) (ofPair? otherStore previousOther other) := by
  have unwrapped := retyped.isType.unwrapped
  have union {members others : List Descriptor} (isUnion : field.type.unwrapped = .union members)
      (isOther : other.type.unwrapped = .union others) :
      Option.Rel (Reorders permuted corresponds fields)
        (ofPair? store previous field) (ofPair? otherStore previousOther other) := by
    rw [isUnion, isOther] at unwrapped
    have members := reordersMembers unwrapped
    simp only [ofPair?, isUnion, isOther, isEmpty_typeMapping_eq,
      members.isEmpty_namedRecords correspond, isPrevious.isType.isDiscriminator]
    split
    · split
      · exact .none
      · refine .some ⟨retyped.name, isPrevious.name, ?_⟩
        cases members with
        | inl each => exact .inr (lookup_aligned correspond each isPrevious.isType)
        | inr isPermuted => exact .inl ⟨field, isField, rfl, _, isUnion, isPermuted.1⟩
    · exact .none
  cases isFirst : field.type.unwrapped with
  | union members =>
      rw [isFirst] at unwrapped
      cases isSecond : other.type.unwrapped with
      | union others => exact union isFirst isSecond
      | _ =>
          rw [isSecond] at unwrapped
          cases unwrapped
  | _ =>
      rw [isFirst] at unwrapped
      cases isSecond : other.type.unwrapped with
      | union others =>
          rw [isSecond] at unwrapped
          cases unwrapped
      | _ =>
          rw [ofPair?, ofPair?, isFirst, isSecond]
          exact .none

/-- Fields whose types are reordered are discriminated alike. -/
theorem find?_detect_aligned
    (each : List.Forall₂ (Retyped (Descriptor.Reorders permuted corresponds)) fields others)
    (name : String) : Option.Rel (Reorders permuted corresponds fields)
      ((detect store fields).find? (·.field == name))
      ((detect otherStore others).find? (·.field == name)) := by
  have tails : List.Forall₂ (Retyped (Descriptor.Reorders permuted corresponds)) fields.tail
      others.tail := by
    cases each with
    | nil => exact .nil
    | cons _ rest => exact rest
  have pairs := aligned_of_mem (zip_aligned each tails) fun pair isPair other retyped =>
    And.intro (List.mem_of_mem_tail (List.of_mem_zip isPair).2) retyped
  rw [find?_detect, find?_detect]
  apply getLast?_aligned
  apply filter_aligned (List.rel_filterMap _ pairs)
  · intro found other isFound
    rw [isFound.field]
  · intro pair other retyped
    exact ofPair?_aligned correspond retyped.2.1 retyped.2.2 retyped.1

end Discrimination

end TypedReply
