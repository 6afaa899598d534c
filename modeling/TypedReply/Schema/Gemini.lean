import TypedReply.Plain
import TypedReply.Schema.Compile
import TypedReply.Value.Fold

/-!
# Gemini schemas

Gemini's subset of schemas has neither references nor constants. A reference is replaced by what it
refers to, and inside itself by a bare object node; a constant becomes an enumeration of one value;
a null alternative becomes a flag.
-/

namespace TypedReply.Gemini

open Value (Seen)

/-- The shaping of a part, done when it is needed. -/
abbrev Shaper := Unit → Outcome Value

/-- The node that stands for a struct inside itself. -/
def bareObject : Value := Fields.node [("type", .str "object")]

def keptKeywords : List String := ["description", "format", "enum"]

/-- A keyword with its value, if the node has it. -/
def kept (node : Value.Entries) (keyword : String) : Fields :=
  match node.get? keyword with
  | some value => [(keyword, value)]
  | none => []

def flag (name : String) (isSet : Bool) : Fields := if isSet then [(name, .bool true)] else []

/-- Whether an alternative is null; it must be a node. -/
def isNullNode (member : Value) : Outcome Bool :=
  match member.entries? with
  | some entries => .ok ((entries.get? "type").any (·.isText "null"))
  | none => .fault (.noAttribute member.typeName "get")

/-- The alternatives other than null, and whether there are others. -/
def splitNull : List (Value × Shaper) → Outcome (List Shaper × Bool)
  | [] => .ok ([], false)
  | (member, shape) :: members => do
    let isNull ← isNullNode member
    let (shapes, nullable) ← splitNull members
    .ok (if isNull then (shapes, true) else (shape :: shapes, nullable))

/-- The alternatives of a node: the items of a collection, or whatever else can be iterated. -/
def alternatives (part : Part (Seen Shaper)) : Outcome (List (Value × Shaper)) :=
  match part.value with
  | .list _ => .ok part.result.items
  | .tuple _ => .ok part.result.items
  | other => do
    let items ← Plain.iterated other
    .ok (items.map fun item => (item, fun _ => .fault (.noAttribute item.typeName "get")))

/-- The shape of a node of alternatives. A single one besides null is the node itself. -/
def shapeAlternatives (node : Value.Entries) (part : Part (Seen Shaper)) : Outcome Value := do
  let (shapes, nullable) ← splitNull (← alternatives part)
  let base ← match shapes with
    | [single] => single ()
    | several => do
      .ok (Fields.node [("anyOf", .list (← several.mapM fun shape => shape ()))])
  let entries : Value.Entries := (base.entries?).getD []
  let flagged := if nullable then entries.put "nullable" (.bool true) else entries
  .ok <| .object <| match node.get? "description" with
    | some description =>
      if description.isTruthy then flagged.put "description" description else flagged
    | none => flagged

/-- The type of a node: of several names the first that is not null. -/
def shapeType : Option Value → Fields
  | some (.list types) =>
    let others := types.filter (!·.isText "null")
    ("type", others.headD (.str "string")) ::
      flag "nullable" (others.length < types.length)
  | some .null => []
  | some type => [("type", type)]
  | none => []

/-- The properties of a node, and the names of those that are required. -/
def shapeProperties (node : Value.Entries) (parts : Parts (Seen Shaper)) : Outcome Fields :=
  match parts.get? "properties" with
  | some ⟨.object _, seen⟩ => do
    let properties ← seen.entries.mapM fun (name, _, shape) => do .ok (name, ← shape ())
    let required ← match node.get? "required" with
      | some names => do .ok [("required", Value.list (← Plain.iterated names))]
      | none => .ok []
    .ok (("properties", Value.object properties) :: required)
  | _ => .ok []

/-- The items of a node. -/
def shapeItems (parts : Parts (Seen Shaper)) : Outcome Fields :=
  match parts.get? "items" with
  | some ⟨.object _, seen⟩ => do .ok [("items", ← seen.result ())]
  | _ => .ok []

/-- The shape of a node that is neither a reference nor a choice of alternatives. -/
def shapePlain (node : Value.Entries) (parts : Parts (Seen Shaper)) : Outcome Value := do
  let type := shapeType (node.get? "type")
  let constant : Fields := match node.get? "const" with
    | some value => [("enum", .list [value])]
    | none => []
  let keywords := (type ++ keptKeywords.flatMap (kept node)).putAll constant
  let properties ← shapeProperties node parts
  .ok (Fields.node (keywords ++ properties ++ (← shapeItems parts)))

/-- The shape of a value where a node is expected; `expand` gives that of a reference. -/
def shapeStep (expand : String → Outcome Value) (value : Value) (parts : Parts (Seen Shaper)) :
    Shaper := fun _ =>
  match value with
  | .object node =>
    match (Value.Entries.get? node "$ref").bind Value.text?, parts.get? "anyOf" with
    | some ref, _ => expand (Compile.refName ref)
    | none, some part => shapeAlternatives node part
    | none, none => shapePlain node parts
  | other => .fault (.noAttribute other.typeName "get")

/-- The shape of a node. The names of the definitions around it are being expanded; each further
expansion takes one unit of fuel. -/
def shape (definitions : Value.Entries) : Nat → List String → Value → Outcome Value
  | 0, _, node => node.foldDeep (shapeStep fun _ => .ok bareObject) ()
  | fuel + 1, expanding, node =>
    let expand (name : String) : Outcome Value :=
      match definitions.get? name with
      | some definition =>
        if expanding.contains name then .ok bareObject
        else shape definitions fuel (name :: expanding) definition
      | none => .ok bareObject
    node.foldDeep (shapeStep expand) ()

/-- A member of an object, which must be one; an absent one is empty. -/
def member (name : String) (value : Value) : Outcome Value :=
  match value.entries? with
  | some entries => .ok ((entries.get? name).getD (.object []))
  | none => .fault (.noAttribute value.typeName "get")

/-- The definition that a root node is, by the constant of its tag. -/
def rootName (compiled : Compiled) : Outcome (List String) := do
  let properties ← member "properties" compiled.schema
  let tag ← member typeKey properties
  let constant ← match tag.entries? with
    | some entries => .ok ((entries.get? "const").getD .null)
    | none => .fault (.noAttribute tag.typeName "get")
  match constant.unhashable?, constant.text? with
  | some typeName, _ => .fault (.unhashable typeName)
  | none, some name => .ok (if compiled.definitions.has name then [name] else [])
  | none, none => .ok []

/-- A compiled schema in Gemini's subset. -/
def ofCompiled (compiled : Compiled) : Outcome Value := do
  let expanding ← rootName compiled
  shape compiled.definitions (compiled.definitions.length + 1) expanding compiled.schema

end TypedReply.Gemini
