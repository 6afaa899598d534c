import TypedReply.Coerce.Enum
import TypedReply.Error
import TypedReply.Options
import TypedReply.Schema.Fields

/-!
# Compiling descriptors

A descriptor is compiled into a schema node. A struct is compiled where it is met first in a pass
and becomes a definition; wherever it is met again, and inside itself, a reference to the definition
stands for it.
-/

namespace TypedReply

/-- The definitions of a pass and the structs that it met, by name. -/
structure Pass where
  definitions : Fields
  structs : List (String × StructId)

/-- A compiled schema: the root node, and the definitions it refers to under a key. -/
structure Compiled where
  schema : Value
  definitions : Value.Entries
  defsKey : String

/-- The document of a compiled schema: the root node with its title in front and the definitions
mounted under their key. -/
def Compiled.document (compiled : Compiled) (title : Option String) : Value :=
  let entries := (compiled.schema.entries?).getD []
  let titled : Value.Entries := match title with
    | some title => Value.Entries.ofPairs ((.str "title", .str title) :: entries)
    | none => entries
  .object (if compiled.definitions.isEmpty then titled
    else titled.put compiled.defsKey (.object compiled.definitions))

namespace Compile

/-- An operation of a pass, which keeps the definitions made before it fails. -/
abbrev Action (α : Type) := ExceptT Failure (StateM Pass) α

/-! ## Nodes -/

def typeNode (name : String) : Value := Fields.node [("type", .str name)]

def nullNode : Value := typeNode "null"

/-- The node of a scalar kind. -/
def scalarNode : ScalarKind → Value
  | .string => typeNode "string"
  | .int => typeNode "integer"
  | .float => typeNode "number"
  | .bool => typeNode "boolean"
  | .date => Fields.node [("type", .str "string"), ("format", .str "date")]
  | .datetime => Fields.node [("type", .str "string"), ("format", .str "date-time")]

/-- The type that a schema gives to a choice. -/
def choiceType (choice : Value) : String :=
  match choice with
  | .bool _ => "boolean"
  | .float _ => "number"
  | v => if v.integer?.isSome then "integer" else "string"

/-- The node of an enumeration. -/
def enumNode (type : EnumType) : Value :=
  if type.literals.isEmpty then
    Fields.node [("type", .str "string"), ("enum", .list type.values)]
  else
    let choices := type.literals.map memberValue
    let types := (choices.map choiceType).eraseDups
    let typeValue := match types with
      | [single] => .str single
      | several => .list (several.map .str)
    Fields.node [("type", typeValue), ("enum", .list choices)]

/-- Whether a type keyword names null. -/
def namesNull : Value → Bool
  | .str name => name == "null"
  | .list names => names.any (·.isText "null")
  | _ => false

/-- Whether a node says by its type, or by the type of an alternative, that it admits null. -/
def acceptsNull (node : Value) : Bool :=
  ((node.get? "type").any namesNull) ||
    (((node.get? "anyOf").bind Value.items?).getD []).any fun member =>
      (member.get? "type").any (·.isText "null")

/-- A node widened by null: in its type where that is a single name, else as an alternative. -/
def nullable (node : Value) : Value :=
  match node.get? "type" with
  | some (.str name) =>
    let rest := Value.Entries.erase ((node.entries?).getD []) "type"
    .object ((.str "type", .list [.str name, .str "null"]) :: rest)
  | _ => Fields.node [("anyOf", .list [node, nullNode])]

def refName (ref : String) : String :=
  String.ofList (ref.toList.reverse.takeWhile (· != '/')).reverse

/-- How a map's description calls a node. -/
def kindLabel (node : Value) : String :=
  match node.get? "type" with
  | some (.list names) => "|".intercalate (names.map (·.display))
  | some (.str name) => name
  | _ => ((node.get? "$ref").bind Value.text?).elim "value" refName

/-- The node of a map. -/
def mapNode (key value : Value) : Value :=
  Fields.node [("type", .str "object"), ("additionalProperties", value),
    ("description", .str (kindLabel key ++ "→" ++ kindLabel value ++ " mapping"))]

/-- The node of a union from those of its members other than null. -/
def unionNode (nilable : Bool) : List Value → Value
  | [] => nullNode
  | [single] => if nilable then nullable single else single
  | several => Fields.node [("anyOf", .list (several ++ if nilable then [nullNode] else []))]

def nonEmpty (description : Option String) : Option String := description.filter (· ≠ "")

/-- The node of a field from that of its type: widened by null unless it is required, and with its
description. -/
def fieldNode (required : Bool) (description : Option String) (node : Value) : Value :=
  let widened := if !required && !acceptsNull node then nullable node else node
  match nonEmpty description, widened.entries? with
  | some description, some entries => .object (entries.put "description" (.str description))
  | _, _ => widened

def tagNode (name : String) : Value :=
  Fields.node [("type", .str "string"), ("const", .str name)]

/-- The node of a struct from those of its fields. -/
def structNode (options : Options) (struct : Struct) (fields : Fields) : Value :=
  let properties := Fields.putAll [(typeKey, tagNode struct.name)] fields
  let required := typeKey :: requiredNames struct.fields
  let description := if options.structDescriptions then
      [("description", Value.str
        ((nonEmpty struct.description).getD (struct.name ++ " struct")))]
    else []
  Fields.node ([("type", .str "object"), ("properties", Fields.node properties),
    ("required", .list (required.map .str))] ++ description)

/-- The node of a fixed record from those of its fields. -/
def recordNode (name description : Option String) (names : List String) (fields : Fields) :
    Value :=
  let tagged : Fields := match name with
    | some name => [(typeKey, tagNode name)]
    | none => []
  let required := (tagged.map Prod.fst) ++ names
  let described := match nonEmpty description with
    | some description => [("description", Value.str description)]
    | none => []
  Fields.node ([("type", .str "object"), ("properties", Fields.node (tagged.putAll fields)),
    ("required", .list (required.map .str)), ("additionalProperties", .bool false)] ++ described)

/-! ## Passes -/

def refNode (options : Options) (name : String) : Value :=
  Fields.node [("$ref", .str (options.refPrefix ++ name))]

section Nodes

variable {m : Type → Type} [Monad m] [MonadExceptOf Failure m]

mutual

/-- The node of a descriptor; `expand` gives that of a struct. -/
def node (expand : StructId → m Value) : Descriptor → m Value
  | .scalar kind => pure (scalarNode kind)
  | .enum type => pure (enumNode type)
  | .array element => do
    return Fields.node [("type", .str "array"), ("items", ← node expand element)]
  | .map key value => do
    let key ← node expand key
    return mapNode key (← node expand value)
  | .optional inner => do return nullable (← node expand inner)
  | .union members => do
    return unionNode (Descriptor.nilable members) (← memberNodes expand members)
  | .null => pure nullNode
  | .fixed ⟨fields, name, cls, description⟩ => do
    let shape : FixedRecord := ⟨fields, name, cls, description⟩
    let compiled ← fieldNodes expand shape.kind fields
    return recordNode name description (shape.fields.map (·.name)) compiled
  | .struct id => expand id
  | .stray value => throw (.fault (.notDescriptor value))

/-- The nodes of a union's members other than null. -/
def memberNodes (expand : StructId → m Value) : List Descriptor → m (List Value)
  | [] => pure []
  | .null :: members => memberNodes expand members
  | member :: members => do
    let first ← node expand member
    return first :: (← memberNodes expand members)

/-- The nodes of the fields of a record, by name; of fields with one name the last counts. -/
def fieldNodes (expand : StructId → m Value) (owner : String) :
    List (FieldOf Descriptor) → m Fields
  | [] => pure []
  | ⟨name, type, required, description, _⟩ :: fields => do
    if name = typeKey then throw (.schema ⟨owner, .reservedField⟩)
    let compiled := fieldNode required description (← node expand type)
    return (name, compiled) :: (← fieldNodes expand owner fields)

end

end Nodes

/-- The node of a struct: a reference if it is being compiled or defined already, else its own,
which becomes a definition. Each struct inside another takes one unit of fuel. -/
def struct (options : Options) (store : Store) : Nat → List String → StructId → Action Value
  | 0, _, id => pure (refNode options (store.at id).name)
  | fuel + 1, visited, id => do
    let found := store.at id
    let name := found.name
    let pass ← getThe Pass
    if (pass.structs.lookup name).any (· != id) then throw (.schema ⟨name, .sharedName⟩)
    else if visited.contains name || (pass.definitions.get? name).isSome then
      return refNode options name
    else
      set { pass with structs := (name, id) :: pass.structs }
      let fields ← fieldNodes (struct options store fuel (name :: visited)) name found.fields
      let compiled := structNode options found fields
      modifyThe Pass fun pass =>
        { pass with definitions := pass.definitions.put name compiled }
      return compiled

/-- The node of a descriptor in a pass where the structs of some names are being compiled. -/
def descriptor (options : Options) (store : Store) (visited : List String)
    (target : Descriptor) : Action Value :=
  node (struct options store (store.length + 2) visited) target

end Compile

/-- The node of a descriptor beside given definitions, to which it adds its own also when it fails.
-/
def compileNode (options : Options) (store : Store) (visited : List String) (definitions : Fields)
    (target : Descriptor) : Outcome Value × Fields :=
  let (result, pass) := (Compile.descriptor options store visited target).run ⟨definitions, []⟩
  (result, pass.definitions)

/-- A descriptor compiled in a pass of its own. -/
def compile (options : Options) (store : Store) (target : Descriptor) : Outcome Compiled :=
  let (result, definitions) := compileNode options store [] [] target
  result.map fun schema =>
    ⟨schema, definitions.map fun (name, node) => (.str name, node), options.defsKey⟩

end TypedReply
