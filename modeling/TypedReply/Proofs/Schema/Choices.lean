import TypedReply.Proofs.Coerce.Members
import TypedReply.Proofs.Schema.Conveyance

/-!
# Choices in schemas, in plain data and in replies

The node of an enumeration lists its choices. Each is listed as it is written in plain data, has the
type that the node states, and is read as the choice that it stands for, exactly if the choices are
faithful. Texts are, integers and Booleans of a list are, and so are the members of a class of texts
that keep their texts. Null is not, nor are most members with other values or beside other choices.
-/

namespace TypedReply

open Compile

/-! ## Values as they are written -/

/-- A value as it is written: a member that is a text or an integer is written as this. -/
def Value.written (value : Value) : Value :=
  match value with
  | .member .. => ((value.text?.map .str).or (value.integer?.map .int)).getD value
  | _ => value

namespace Value

variable {value : Value} {name : String}

end Value

namespace EnumType

variable {type : EnumType} {cls : EnumClass} {values : List Value} {choice shown : Value}

/-! ## Agreement -/

/-- The choices of an enumeration. -/
def offered : EnumType → List Value
  | .choices values => values
  | .ofClass cls => cls.members.map cls.toValue

/-- A choice is shown in the node of its enumeration as what it is written as in plain data. What is
shown has the type of the node, and is read as the choice. -/
structure Shows (type : EnumType) (choice shown : Value) : Prop where
  plain : ∃ wire, Plain.plain choice = .ok wire ∧ shown.written = wire.written
  typed : ∃ kinds, (enumNode type).get? "type" = some kinds ∧ admitsType kinds shown.written = true
  readBack : ∀ path, coerceEnum type shown path = .ok choice

/-- The node of an enumeration shows its choices one by one. -/
def Agrees (type : EnumType) : Prop :=
  ∃ shown, (enumNode type).get? "enum" = some (.list shown) ∧
    List.Forall₂ type.Shows type.offered shown

end EnumType

end TypedReply
