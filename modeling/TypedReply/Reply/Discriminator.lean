import TypedReply.Coerce.Enum
import TypedReply.Naming

/-!
# Discriminators

A field whose type is a union and that directly follows a text or enumeration field is discriminated
by it: the value of the one names the record of the other. A record is named by its name, its
lower-case name, its snake-case name, and the values of the enumeration's members that are named
like it.
-/

namespace TypedReply

/-- The records that texts name, in order of their first naming. -/
abbrev TypeMapping := List (String × Descriptor)

namespace TypeMapping

def offer (mapping : TypeMapping) (name : String) (record : Descriptor) : TypeMapping :=
  if (mapping.lookup name).isSome then mapping else mapping ++ [(name, record)]

theorem offer_of_isSome {mapping : TypeMapping} {name : String} (record : Descriptor)
    (taken : (mapping.lookup name).isSome = true) : mapping.offer name record = mapping := by
  simp [offer, taken]

def offerAll (mapping : TypeMapping) (names : List String) (record : Descriptor) : TypeMapping :=
  names.foldl (fun mapping name => mapping.offer name record) mapping

/-- The record that a value names, exactly or in lower case. -/
def resolve? (mapping : TypeMapping) (value : Value) : Option Descriptor := do
  let text ← (memberValue value).text?
  mapping.lookup text <|> mapping.lookup (folded text)

end TypeMapping

namespace Descriptor

/-- The records among the members of a union that tags can select, with their names; an optional
counts as what is inside it. -/
def namedRecords (store : Store) (members : List Descriptor) : List (String × Descriptor) :=
  (nonNull members).filterMap fun member => do
    let record ← member.unwrapped.record? store
    let name ← record.tag?
    some (name, member.unwrapped)

/-- The members of an enumeration class behind a discriminator's type. -/
def enumMembers (discriminator : Descriptor) : List (String × Value) :=
  match discriminator.unwrapped with
  | .enum type => type.cls?.elim [] EnumClass.members
  | _ => []

/-- Whether a field of the type can discriminate the union after it. -/
def isDiscriminator (type : Descriptor) : Bool :=
  match type.unwrapped with
  | .scalar .string => true
  | .enum _ => true
  | _ => false

/-- The texts by which a discriminator names a record. -/
def namings (discriminator : Descriptor) (name : String) : List String :=
  let members := discriminator.enumMembers.filter fun (member, _) =>
    member == name || folded member == folded name
  name :: folded name :: (members.map (·.2.display) ++ [Naming.snakeCase name])

/-- The records of a union that the values of a discriminator name. -/
def typeMapping (store : Store) (members : List Descriptor) (discriminator : Descriptor) :
    TypeMapping :=
  (namedRecords store members).foldl
    (fun mapping (name, record) => mapping.offerAll (discriminator.namings name) record) []

end Descriptor

/-- A field with the field that discriminates it. -/
structure Discrimination where
  field : String
  discriminator : String
  mapping : TypeMapping

namespace Discrimination

/-- How a field is discriminated by the field before it, if it is. -/
def ofPair? (store : Store) (previous field : Field) : Option Discrimination :=
  match field.type.unwrapped with
  | .union members =>
    if previous.type.isDiscriminator then
      let mapping := Descriptor.typeMapping store members previous.type
      if mapping.isEmpty then none else some ⟨field.name, previous.name, mapping⟩
    else none
  | _ => none

/-- The discriminations among neighbours of a field list; a later one for the same field takes the
place of an earlier one. -/
def detect (store : Store) (fields : List Field) : List Discrimination :=
  ((fields.zip fields.tail).filterMap fun (previous, field) => ofPair? store previous field).foldl
    (fun found new =>
      if found.any (·.field == new.field) then
        found.map fun old => if old.field == new.field then new else old
      else found ++ [new])
    []

end Discrimination

end TypedReply
