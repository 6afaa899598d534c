import TypedReply.Record.Library
import TypedReply.Text.Docstring

/-!
# The registry

A registry holds the record classes and the library they are built with, what names stand for in
their type expressions, the structs and which struct describes which class. A name may be declared
again: what was declared before keeps what it refers to, and the name stands for the latest from then
on.

The struct of a class is derived from its type expressions on first use and found again later, by
class and by name. It is entered before its fields are derived, so that a class may refer to itself;
if deriving a field fails, the class is taken out again.
-/

namespace TypedReply

/-- The classes and the structs that describe them. -/
structure Registry where
  library : ClassLibrary
  catalog : Catalog
  scope : Scope
  structs : Store
  byClass : List (ClassKey × StructId)
  byName : List (String × StructId)

namespace Registry

def fresh (library : ClassLibrary) : Registry := ⟨library, [], [], [], [], []⟩

def structOf? (registry : Registry) (key : ClassKey) : Option StructId :=
  registry.byClass.lookup key

def get? (registry : Registry) (name : String) : Option StructId :=
  registry.byName.lookup name

def names (registry : Registry) : List String := registry.byName.map Prod.fst

/-- Adds a struct, which is not registered yet, and returns its identity. -/
def add (registry : Registry) (struct : Struct) : StructId × Registry :=
  (registry.structs.length, { registry with structs := registry.structs ++ [struct] })

def setFields (registry : Registry) (id : StructId) (fields : List Field) : Registry :=
  { registry with structs := registry.structs.modify id fun struct => { struct with fields } }

def enterClass (registry : Registry) (key : ClassKey) (id : StructId) : Registry :=
  { registry with byClass := (key, id) :: registry.byClass.filter (·.1 != key) }

def leaveClass (registry : Registry) (key : ClassKey) : Registry :=
  { registry with byClass := registry.byClass.filter (·.1 != key) }

def enterName (registry : Registry) (name : String) (id : StructId) : Registry :=
  { registry with byName := (name, id) :: registry.byName.filter (·.1 != name) }

theorem at_add (registry : Registry) (struct : Struct) :
    (registry.add struct).2.structs.at (registry.add struct).1 = struct := by
  simp [add, Store.at]

/-- A struct stays where it is when another is added. -/
theorem at_add_of_lt (registry : Registry) (struct : Struct) {id : StructId}
    (known : id < registry.structs.length) :
    (registry.add struct).2.structs.at id = registry.structs.at id := by
  simp [add, Store.at, List.getElem?_append_left known]

@[simp]
theorem structOf?_enterClass_self (registry : Registry) (key : ClassKey) (id : StructId) :
    (registry.enterClass key id).structOf? key = some id := by
  simp [enterClass, structOf?]

@[simp]
theorem get?_enterName_self (registry : Registry) (name : String) (id : StructId) :
    (registry.enterName name id).get? name = some id := by
  simp [enterName, get?]

@[simp]
theorem structOf?_leaveClass_self (registry : Registry) (key : ClassKey) :
    (registry.leaveClass key).structOf? key = none := by
  simp only [leaveClass, structOf?, List.lookup_eq_none_iff, List.mem_filter]
  intro entry member
  simpa using Ne.symm (by simpa using member.2 : entry.1 ≠ key)

/-- The enumeration that was last declared under a name. -/
def enum? (registry : Registry) (name : String) : Option EnumClass :=
  registry.scope.findSome? fun
    | (other, .enum cls) => if other = name then some cls else none
    | _ => none

/-- The class that was last declared under a name. -/
def classKey? (registry : Registry) (name : String) : Option ClassKey :=
  registry.scope.findSome? fun
    | (other, .record key) => if other = name then some key else none
    | _ => none

/-- The type expression that a name is: what was last declared under it, or the name itself until
there is something. -/
def named (registry : Registry) (name : String) : TypeExpr :=
  (registry.scope.lookup name).getD (.unresolved name)

/-- Lets a name stand for a type expression from now on. -/
def declare (registry : Registry) (name : String) (target : TypeExpr) : Registry :=
  let scope := (name, target) :: registry.scope
  { registry with scope, catalog := registry.catalog.map (·.settle scope) }

/-- Declares an enumeration. -/
def declareEnum (registry : Registry) (name : String) (mixin : Option Mixin)
    (members : List (String × Value)) : Registry :=
  registry.declare name (.enum (.declare ⟨registry.scope.length, name, mixin⟩ members))

/-- An operation on a registry that keeps the registry when it fails. -/
abbrev Action (α : Type) := ExceptT Failure (StateM Registry) α

def liftOutcome {α : Type} (outcome : Outcome α) : Action α := ExceptT.mk (pure outcome)

mutual

/-- The descriptor of a type expression; `structFor` finds the struct of a class. -/
def describe (structFor : ClassKey → Action StructId) : TypeExpr → Action Descriptor
  | .none => pure .null
  | .scalar kind => pure (.scalar kind)
  | .bare _ => pure (.array (.scalar .string))
  | .collection _ element => do return .array (← describe structFor element)
  | .tuple [] => pure (.array (.scalar .string))
  | .tuple (item :: _) => do return .array (← describe structFor item)
  | .bareDict => pure (.map (.scalar .string) (.scalar .string))
  | .dict key value => do
    let key ← describe structFor key
    return .map key (← describe structFor value)
  | .union members => do
    let described ← describeMembers structFor members
    match described, members.any TypeExpr.isNone with
    | [single], true => return .optional single
    | [single], false => return single
    | several, true => return .union (several ++ [.null])
    | several, false => return .union several
  | .literal values => pure (.enum (.choices values))
  | .annotated inner => describe structFor inner
  | .enum cls => pure (.enum (.ofClass cls))
  | .record key => do return .struct (← structFor key)
  | .any => pure (.scalar .string)
  | .complex => pure (.scalar .string)
  | .bytes => pure (.scalar .string)
  | .object => pure (.scalar .string)
  | .unresolved _ => pure (.scalar .string)

/-- The descriptors of a union's members other than the null type. -/
def describeMembers (structFor : ClassKey → Action StructId) :
    List TypeExpr → Action (List Descriptor)
  | [] => pure []
  | member :: members => do
    if member.isNone then describeMembers structFor members
    else
      let descriptor ← describe structFor member
      return descriptor :: (← describeMembers structFor members)

end

/-- The declared field that a field of a class is. -/
def fieldFrom (structFor : ClassKey → Action StructId) (field : ClassField) : Action Field := do
  let default ← liftOutcome field.presence.fallback
  let type ← describe structFor field.type
  return ⟨field.wireName, type, field.presence.isRequired, field.description, default⟩

/-- The struct of a class without its fields. -/
def unsealed (library : ClassLibrary) (key : ClassKey) (cls : RecordClass) : Struct :=
  let doc := (library.docOf cls).filter (· ≠ "")
  ⟨cls.name, some key, [], doc.map fun doc => String.ofList (Text.cleanDoc doc.toList)⟩

/-- The struct of a class, derived if it is not registered. Each class on the way to another takes
one unit of fuel; with none left a struct stays without fields. -/
def derive : Nat → ClassKey → Action StructId
  | 0, key => do
    let registry ← getThe Registry
    return (registry.structOf? key).getD 0
  | fuel + 1, key => do
    let registry ← getThe Registry
    match registry.structOf? key, registry.catalog.get? key with
    | some id, _ => return id
    | none, none => return 0
    | none, some cls => do
      let (id, added) := registry.add (unsealed registry.library key cls)
      set (added.enterClass key id)
      let fields ← tryCatch (cls.fields.mapM (fieldFrom (derive fuel))) fun failure => do
        modifyThe Registry (·.leaveClass key)
        throw failure
      modifyThe Registry fun registry => (registry.setFields id fields).enterName cls.name id
      return id

/-- The struct of a class. -/
def fromClass (key : ClassKey) : Action StructId := do
  let registry ← getThe Registry
  derive (registry.catalog.length + 3) key

def descriptorFor (expr : TypeExpr) : Action Descriptor := describe fromClass expr

/-- Whether one of the fields is named like the tag. -/
def reservesTag (fields : List Field) : Bool := fields.any (·.name == typeKey)

/-- Adds a class of given fields, which type expressions refer to by a name, unless the library objects
to the fields. -/
def addClass (reference name : String) (doc : Option String) (ancestors : List ClassKey)
    (fields : List ClassField) : Action ClassKey := do
  let registry ← getThe Registry
  match registry.library.objection? fields with
  | some fault => throw (.fault fault)
  | none => do
    let cls : RecordClass := ⟨registry.catalog.nextKey, name, doc, ancestors, fields⟩
    set ({ registry with catalog := cls :: registry.catalog }.declare reference (.record cls.key))
    return cls.key

/-- Builds the class of a record, which has one field for each name. -/
def buildClass (reference name : String) (fields : List Field) (description : Option String)
    (ancestors : List ClassKey) : Action ClassKey := do
  let structs := (← getThe Registry).structs
  let held ← liftOutcome (fields.mapM (RecordClass.fieldOf structs))
  addClass reference name description ancestors (RecordClass.latest held)

/-- Fails for a named record with a field named like the tag. -/
def checkNames (name : String) (fields : List Field) : Action Unit :=
  if reservesTag fields then throw (.schema ⟨name, .reservedField⟩) else pure ()

/-- Declares a struct, building its class, which type expressions refer to by a name. -/
def defineStruct (reference name : String) (fields : List Field)
    (description : Option String) : Action StructId := do
  checkNames name fields
  let key ← buildClass reference name fields description [.base]
  let registry ← getThe Registry
  let (id, added) := registry.add ⟨name, some key, fields, description⟩
  set ((added.enterClass key id).enterName name id)
  return id

/-- Declares a fixed record, building its class, which type expressions refer to by a name. -/
def defineRecord (reference : String) (name : Option String) (fields : List Field)
    (description : Option String) : Action FixedRecord := do
  let key ← match name with
    | some name => do
      checkNames name fields
      buildClass reference name fields description [.base]
    | none =>
      buildClass reference anonymousClass.name fields description [.anonymous, .base]
  return ⟨fields, name, some key, description⟩

end Registry

end TypedReply
