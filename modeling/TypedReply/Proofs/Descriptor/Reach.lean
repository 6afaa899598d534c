import TypedReply.Descriptor.Basic
import Mathlib.Logic.Relation

/-!
# What a descriptor reaches

Induction over a descriptor stops at structs, which are named and not contained. What a descriptor
reaches goes on through the fields of the structs that it names, in cycles too, so a condition on
all that is reached is a condition on the whole graph of structs behind a descriptor.
-/

namespace TypedReply

namespace Descriptor

/-! ## Induction -/

/-- What holds of a descriptor whenever it holds of the descriptors in it holds of all. -/
@[elab_as_elim]
theorem induction {motive : Descriptor → Prop}
    (scalar : ∀ kind, motive (.scalar kind))
    (enum : ∀ type, motive (.enum type))
    (array : ∀ element, motive element → motive (.array element))
    (map : ∀ key value, motive key → motive value → motive (.map key value))
    (optional : ∀ inner, motive inner → motive (.optional inner))
    (union : ∀ members, (∀ member ∈ members, motive member) → motive (.union members))
    (null : motive .null)
    (fixed : ∀ record : FixedRecord, (∀ field ∈ record.fields, motive field.type) →
      motive (.fixed record))
    (struct : ∀ id, motive (.struct id))
    (stray : ∀ value, motive (.stray value)) (descriptor : Descriptor) : motive descriptor :=
  @Descriptor.rec motive (fun members => ∀ member ∈ members, motive member)
    (fun record => ∀ field ∈ record.fields, motive field.type)
    (fun fields => ∀ field ∈ fields, motive field.type) (fun field => motive field.type)
    scalar enum array map optional union null fixed struct stray
    (fun _ isMember => nomatch isMember)
    (fun _ _ first rest => List.forall_mem_cons.mpr ⟨first, rest⟩)
    (fun _ _ _ _ fields => fields)
    (fun _ isField => nomatch isField)
    (fun _ _ first rest => List.forall_mem_cons.mpr ⟨first, rest⟩)
    (fun _ _ _ _ _ type => type)
    descriptor

/-! ## Reaching -/

/-- The fields of a record. -/
def fields (store : Store) : Descriptor → List Field
  | .fixed record => record.fields
  | .struct id => (store.at id).fields
  | _ => []

theorem fields_of_record? {store : Store} {descriptor : Descriptor} {record : RecordView}
    (isRecord : descriptor.record? store = some record) :
    record.fields = descriptor.fields store := by
  cases descriptor <;> cases isRecord <;> rfl

/-- A descriptor stands directly in another: as an element, a key, a value, a member, what is
optional, or the type of a field. -/
inductive Part (store : Store) : Descriptor → Descriptor → Prop where
  | element (element : Descriptor) : Part store (.array element) element
  | key (key value : Descriptor) : Part store (.map key value) key
  | value (key value : Descriptor) : Part store (.map key value) value
  | inner (inner : Descriptor) : Part store (.optional inner) inner
  | member {members : List Descriptor} {member : Descriptor} (isMember : member ∈ members) :
      Part store (.union members) member
  | field {record : Descriptor} {field : Field} (isField : field ∈ record.fields store) :
      Part store record field.type

/-- The descriptors that stand directly in another. -/
def parts (store : Store) : Descriptor → List Descriptor
  | .array element => [element]
  | .map key value => [key, value]
  | .optional inner => [inner]
  | .union members => members
  | record => (record.fields store).map (·.type)

theorem part_iff_mem_parts {store : Store} {descriptor part : Descriptor} :
    Part store descriptor part ↔ part ∈ descriptor.parts store := by
  constructor
  · intro isPart
    cases isPart with
    | member isMember => exact isMember
    | field isField =>
        cases descriptor with
        | fixed | struct => exact List.mem_map_of_mem isField
        | _ => cases isField
    | _ => simp [parts]
  · intro isPart
    cases descriptor with
    | array element =>
        obtain rfl := List.mem_singleton.mp isPart
        exact .element _
    | map key value =>
        rcases List.mem_cons.mp isPart with rfl | isValue
        · exact .key _ _
        · obtain rfl := List.mem_singleton.mp isValue
          exact .value _ _
    | optional inner =>
        obtain rfl := List.mem_singleton.mp isPart
        exact .inner _
    | union members => exact .member isPart
    | _ =>
        obtain ⟨field, isField, rfl⟩ := List.mem_map.mp isPart
        exact .field isField

/-- A descriptor is another one or stands somewhere in it. -/
def Reaches (store : Store) : Descriptor → Descriptor → Prop :=
  Relation.ReflTransGen (Part store)

def Throughout (store : Store) (condition : Descriptor → Prop) (descriptor : Descriptor) : Prop :=
  ∀ found, Reaches store descriptor found → condition found

namespace Throughout

variable {store : Store} {condition : Descriptor → Prop} {descriptor part : Descriptor}

theorem here (throughout : Throughout store condition descriptor) : condition descriptor :=
  throughout descriptor .refl

theorem of_part (throughout : Throughout store condition descriptor)
    (isPart : Part store descriptor part) : Throughout store condition part :=
  fun found reaches => throughout found (.head isPart reaches)

/-- What holds of a descriptor and throughout its parts holds throughout it. -/
theorem of_parts (here : condition descriptor)
    (parts : ∀ part, Part store descriptor part → Throughout store condition part) :
    Throughout store condition descriptor := by
  intro found reaches
  rcases reaches.cases_head with rfl | ⟨part, isPart, reaches⟩
  · exact here
  · exact parts part isPart found reaches

/-- What holds of a set of descriptors that is closed under parts holds throughout its members. -/
theorem of_closed {known : Descriptor → Prop}
    (closed : ∀ descriptor part, known descriptor → Part store descriptor part → known part)
    (holds : ∀ descriptor, known descriptor → condition descriptor) (start : known descriptor) :
    Throughout store condition descriptor := by
  intro found reaches
  refine holds found ?_
  induction reaches with
  | refl => exact start
  | tail _ isPart ih => exact closed _ _ ih isPart

/-- What holds of listed descriptors, among which are the parts of each, holds throughout each. -/
theorem of_list {known : List Descriptor}
    (closed : ∀ descriptor ∈ known, ∀ part ∈ descriptor.parts store, part ∈ known)
    (holds : ∀ descriptor ∈ known, condition descriptor) (start : descriptor ∈ known) :
    Throughout store condition descriptor :=
  of_closed (fun descriptor part isKnown isPart =>
    closed descriptor isKnown part (part_iff_mem_parts.mp isPart)) holds start

end Throughout

end Descriptor

end TypedReply
