import TypedReply.Value.Equality
import TypedReply.Value.Render

/-!
# Enumerations

An enumeration class declares named members with values. A member declared with the value of an
earlier one is another name for it. An enumeration type is either such a class or a closed list of
choices.
-/

namespace TypedReply

/-- An enumeration class: its tag and its declared names and values. -/
structure EnumClass where
  tag : EnumTag
  declared : List (String × Value)

namespace EnumClass

/-- The value that a member declared with a value carries: by the mixin a text or an integer. -/
def carried (mixin : Option Mixin) (value : Value) : Value :=
  match mixin, value.integer? with
  | some .text, _ => .str value.display
  | some .integer, some n => .int n
  | _, _ => value

def declare (tag : EnumTag) (declared : List (String × Value)) : EnumClass :=
  ⟨tag, declared.map fun (name, value) => (name, carried tag.mixin value)⟩

/-- The members: of the declared names with equal values, the first. -/
def members (cls : EnumClass) : List (String × Value) :=
  cls.declared.foldl
    (fun kept entry => if kept.any (·.2.same entry.2) then kept else kept ++ [entry]) []

/-- The member with a name and a value, as a value. -/
def toValue (cls : EnumClass) (entry : String × Value) : Value :=
  .member cls.tag entry.1 entry.2

/-- The member that a declared name stands for. -/
def named? (cls : EnumClass) (name : String) : Option Value := do
  let (_, value) ← cls.declared.find? (·.1 == name)
  let entry ← cls.members.find? (·.2.same value)
  some (cls.toValue entry)

/-- Whether a value is a member of the class. -/
def has (cls : EnumClass) : Value → Bool
  | .member tag _ _ => tag == cls.tag
  | _ => false

end EnumClass

/-- A type of finitely many values. -/
inductive EnumType where
  /-- Exactly the listed values. -/
  | choices (values : List Value)
  /-- The members of a class. -/
  | ofClass (cls : EnumClass)

namespace EnumType

def ofTexts (texts : List String) : EnumType := .choices (texts.map .str)

def allTexts (values : List Value) : Bool := values.all (·.text?.isSome)

/-- The texts by which the choices are named, which may be members that are texts. -/
def values : EnumType → List Value
  | .choices values => if allTexts values then values else values.map fun v => .str v.display
  | .ofClass cls => cls.members.map fun (_, value) => .str value.display

/-- The choices of a list in which not all are texts. -/
def literals : EnumType → List Value
  | .choices values => if allTexts values then [] else values
  | .ofClass _ => []

/-- The class behind the type. -/
def cls? : EnumType → Option EnumClass
  | .choices _ => none
  | .ofClass cls => some cls

/-- The choices as they appear in plain data. -/
def wireChoices (type : EnumType) : List Value :=
  match type with
  | .choices values => values
  | .ofClass _ => type.values

def labels (type : EnumType) : List String := type.values.map fun v => v.text?.getD v.display

def kind (type : EnumType) : String := "enum(" ++ "|".intercalate type.labels ++ ")"

end EnumType

end TypedReply
