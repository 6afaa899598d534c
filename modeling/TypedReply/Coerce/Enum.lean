import TypedReply.Coerce.Scalar

/-!
# Coercion to choices

A text names a choice by the text of its value, then by that text ignoring case; a member of a class
is named by its own name, ignoring case, as well.
-/

namespace TypedReply

def folded (text : String) : String := String.ofList (Text.lower text.toList)

namespace EnumType

/-- Whether a value is one of the choices as it is. -/
def has (type : EnumType) (value : Value) : Bool :=
  match type with
  | .choices values => values.any fun choice => value.sameType choice && value.same choice
  | .ofClass cls => cls.has value

/-- The text that a value names a choice by. -/
def tagText? (value : Value) : Option String :=
  match value with
  | .bool _ => none
  | .int n => some (Value.intText n)
  | .float x => some x.display
  | .str text => some text
  | _ => none

/-- The choices, each with the texts that name it exactly and those that name it ignoring case. -/
def named : EnumType → List (String × List String × Value)
  | .choices values =>
    let type : EnumType := .choices values
    (type.labels.zip values).map fun (label, choice) => (label, [label], choice)
  | .ofClass cls =>
    cls.members.map fun entry =>
      (entry.2.display, [entry.2.display, entry.1], cls.toValue entry)

/-- The choice that a text names. -/
def choose? (type : EnumType) (tag : String) : Option Value :=
  let exactly := type.named.find? fun (label, _, _) => label == tag
  let loosely := type.named.find? fun (_, names, _) => names.any (folded · == folded tag)
  (exactly <|> loosely).map fun (_, _, choice) => choice

end EnumType

/-- The value that a member carries; any other value is itself. -/
def memberValue : Value → Value
  | .member _ _ value => value
  | value => value

/-- A value as a choice. -/
def coerceEnum (type : EnumType) (value : Value) (path : Path) : Outcome Value :=
  if type.has value then .ok value
  else
    let plain := memberValue value
    match EnumType.tagText? plain with
    | none => unconvertible path type.kind plain .notTag
    | some text =>
      let tag := String.ofList (Text.trim text.toList)
      match type.choose? tag with
      | some choice => .ok choice
      | none => .error (.reply ⟨path, type.kind, plain, .noChoice tag type.values⟩)

end TypedReply
