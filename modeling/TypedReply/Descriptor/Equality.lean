import TypedReply.Descriptor.Basic

/-!
# Equality of descriptors

Structs are equal when they are the same struct. All other descriptors are compared by content; the
class of a fixed record does not count.
-/

namespace TypedReply

/-- Equality of defaults. -/
def sameDefault : Option Value → Option Value → Bool
  | none, none => true
  | some v, some w => v.same w
  | _, _ => false

/-- Equality of enumeration types. -/
def EnumType.same (a b : EnumType) : Bool :=
  Value.sameItems a.values b.values && Value.sameItems a.literals b.literals &&
    a.cls?.map (·.tag) == b.cls?.map (·.tag)

namespace Descriptor

mutual

/-- Equality of descriptors. -/
def same : Descriptor → Descriptor → Bool
  | .scalar kind, other => match other with
    | .scalar otherKind => kind == otherKind
    | _ => false
  | .enum type, other => match other with
    | .enum otherType => type.same otherType
    | _ => false
  | .array element, other => match other with
    | .array otherElement => element.same otherElement
    | _ => false
  | .map key value, other => match other with
    | .map otherKey otherValue => key.same otherKey && value.same otherValue
    | _ => false
  | .optional inner, other => match other with
    | .optional otherInner => inner.same otherInner
    | _ => false
  | .union members, other => match other with
    | .union others => sameMembers members others
    | _ => false
  | .null, other => other.isNull
  | .fixed ⟨fields, name, _, description⟩, other => match other with
    | .fixed otherRecord =>
      name == otherRecord.name && description == otherRecord.description &&
        sameFields fields otherRecord.fields
    | _ => false
  | .struct id, other => match other with
    | .struct otherId => id == otherId
    | _ => false
  | .stray value, other => match other with
    | .stray otherValue => value.same otherValue
    | _ => false
termination_by structural descriptor => descriptor

/-- Equality of sequences of descriptors. -/
def sameMembers : List Descriptor → List Descriptor → Bool
  | [], [] => true
  | a :: as, b :: bs => a.same b && sameMembers as bs
  | _, _ => false
termination_by structural members => members

/-- Equality of field lists. -/
def sameFields : List (FieldOf Descriptor) → List (FieldOf Descriptor) → Bool
  | [], [] => true
  | ⟨name, type, required, description, default⟩ :: fields, other :: others =>
    name == other.name && type.same other.type && required == other.required &&
      description == other.description && sameDefault default other.default &&
      sameFields fields others
  | _, _ => false
termination_by structural fields => fields

end

/-- Whether two descriptors are one and the same: a scalar kind, null, a struct, or the record of a
class. -/
def identical : Descriptor → Descriptor → Bool
  | .scalar kind, .scalar other => kind == other
  | .null, .null => true
  | .struct id, .struct other => id == other
  | .fixed record, .fixed other => record.cls.isSome && record.cls == other.cls
  | .stray .null, .stray .null => true
  | _, _ => false

end Descriptor

end TypedReply
