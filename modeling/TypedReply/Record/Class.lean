import TypedReply.Record.TypeExpr

/-!
# Record classes

A record class has named, annotated fields. A field may go by another name in plain data, may have a
default or a factory of one, and may limit its value. Classes refer to one another by key, so a
catalog of classes holds them, whatever cycles their type expressions form.
-/

namespace TypedReply

/-- What makes the default of a field anew for every instance. -/
inductive Factory where
  | list
  | dict
  | set
  /-- A factory that always fails. -/
  | failing

/-- The value that a factory makes. -/
def Factory.make : Factory → Outcome Value
  | .list => .ok (.list [])
  | .dict => .ok (.object [])
  | .set => .ok (.set [])
  | .failing => .fault .factoryFailed

/-- Whether a field must be given, and what stands for it when it is not. -/
inductive Presence where
  | required
  | default (value : Value)
  | made (factory : Factory)

namespace Presence

/-- Whether a field must be given. -/
def isRequired : Presence → Bool
  | .required => true
  | _ => false

/-- The value of a field that is not given; none where it must be. -/
def fallback : Presence → Outcome (Option Value)
  | .required => .ok none
  | .default value => .ok (some value)
  | .made factory => factory.make.map some

/-- Whether the default is null itself. -/
def isNullDefault : Presence → Bool
  | .default value => value.isNull
  | _ => false

end Presence

/-- What a field demands of its value beyond the type expression. -/
structure Limits where
  atLeast : Option Value
  atMost : Option Value
  minLength : Option Nat
  maxLength : Option Nat

def Limits.none : Limits := ⟨.none, .none, .none, .none⟩

/-- A field of a record class. -/
structure ClassField where
  name : String
  wireAlias : Option String
  type : TypeExpr
  presence : Presence
  description : Option String
  limits : Limits

namespace ClassField

def wireName (field : ClassField) : String := (field.wireAlias.filter (· ≠ "")).getD field.name

/-- A field in which names stand for what a scope declares under them. -/
def settle (scope : Scope) (field : ClassField) : ClassField :=
  { field with type := field.type.settle scope }

def tag (field : ClassField) : FieldTag :=
  ⟨field.name, field.wireName, field.presence.isNullDefault⟩

end ClassField

/-- A class of records. -/
structure RecordClass where
  key : ClassKey
  name : String
  doc : Option String
  ancestors : List ClassKey
  fields : List ClassField

namespace RecordClass

def tag (cls : RecordClass) : RecordTag := ⟨cls.key, cls.name, cls.ancestors⟩

/-- The fields in order of their names' first appearance, each as last declared. -/
def latest (fields : List ClassField) : List ClassField :=
  fields.foldl
    (fun kept field =>
      if kept.any (·.name == field.name) then
        kept.map fun old => if old.name == field.name then field else old
      else kept ++ [field])
    []

/-- A class in which names stand for what a scope declares under them: for all of them, or, while
one is missing, for none. -/
def settle (scope : Scope) (cls : RecordClass) : RecordClass :=
  if cls.fields.all (·.type.isSettledBy scope) then
    { cls with fields := cls.fields.map (·.settle scope) }
  else cls

/-- The names in a class that nothing is declared under. -/
def unresolvedNames (cls : RecordClass) : List String :=
  TypeExpr.unresolvedNamesOf (cls.fields.map (·.type))

/-- The record classes that the fields of a class mention. -/
def classKeys (cls : RecordClass) : List ClassKey :=
  TypeExpr.classKeysOf (cls.fields.map (·.type))

/-- The field of a class that holds the values of a declared field. A field that need not be given
also admits null, and is null unless a default is declared. -/
def fieldOf (store : Store) (field : Field) : Outcome ClassField := do
  let expr ← TypeExpr.ofDescriptor store field.type
  if field.required then
    .ok ⟨field.name, none, expr, .required, field.description, .none⟩
  else
    let presence := Presence.default (field.default.getD .null)
    .ok ⟨field.name, none, ← TypeExpr.optionalOf expr, presence, field.description, .none⟩

end RecordClass

/-- The classes that type expressions may refer to, the latest first. -/
abbrev Catalog := List RecordClass

end TypedReply
