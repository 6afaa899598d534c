import TypedReply.Naming
import TypedReply.Schema.Compile

/-!
# Strict schemas

A strict schema closes every object node that declares properties: it admits no further properties
and requires all that it declares. Nodes are closed from the root down, through properties, items,
further properties, definitions and combinations.
-/

namespace TypedReply.Strict

mutual

/-- How deep a value nests. -/
def nesting : Value → Nat
  | .list items => nestingItems items + 1
  | .object entries => nestingEntries entries + 1
  | _ => 0

/-- The greatest nesting of items. -/
def nestingItems : List Value → Nat
  | [] => 0
  | item :: items => max (nesting item) (nestingItems items)

/-- The greatest nesting of the values of entries. -/
def nestingEntries : List (Value × Value) → Nat
  | [] => 0
  | (_, value) :: entries => max (nesting value) (nestingEntries entries)

end

/-- Whether a node is one of objects. -/
def isObjectNode (node : Value.Entries) : Bool :=
  match node.get? "type" with
  | some (.list types) => types.any (·.isText "object")
  | some type => type.isText "object"
  | none => false

/-- A node of objects that declares properties, closed; any other node as it is. -/
def closeHere (node : Value.Entries) : Value.Entries :=
  match isObjectNode node, node.get? "properties" with
  | true, some (.object properties) =>
    (node.put "additionalProperties" (.bool false)).put "required"
      (.list (Value.Entries.keys properties))
  | _, _ => node

def combinations : List String := ["anyOf", "oneOf", "allOf"]

/-- Changes the object under a key, if there is one. -/
def onObject (change : Value.Entries → Outcome Value.Entries) (key : String)
    (node : Value.Entries) : Outcome Value.Entries :=
  match node.get? key with
  | some (.object entries) => do .ok (node.put key (.object (← change entries)))
  | _ => .ok node

/-- Changes a schema that must be a node. -/
def onSchema (change : Value.Entries → Outcome Value.Entries) : Value → Outcome Value
  | .object entries => do .ok (.object (← change entries))
  | other => .fault (.noAttribute other.typeName "get")

/-- Changes every schema of an object of schemas. -/
def onValues (change : Value.Entries → Outcome Value.Entries) (table : Value.Entries) :
    Outcome Value.Entries :=
  table.mapM fun (name, schema) => do .ok (name, ← onSchema change schema)

/-- Changes the nodes in the list under a key, if there is one. -/
def onMembers (change : Value.Entries → Outcome Value.Entries) (node : Value.Entries)
    (key : String) : Outcome Value.Entries :=
  match node.get? key with
  | some (.list members) => do
    let changed ← members.mapM fun member => match member with
      | .object entries => do .ok (Value.object (← change entries))
      | other => .ok other
    .ok (node.put key (.list changed))
  | _ => .ok node

/-- Closes a node and the nodes in it. Each level of nesting takes one unit of fuel. -/
def close (defsKey : String) : Nat → Value.Entries → Outcome Value.Entries
  | 0, node => .ok node
  | fuel + 1, node => do
    let node := closeHere node
    let node ← onObject (onValues (close defsKey fuel)) "properties" node
    let node ← onObject (close defsKey fuel) "items" node
    let node ← onObject (close defsKey fuel) "additionalProperties" node
    let node ← onObject (onValues (close defsKey fuel)) defsKey node
    combinations.foldlM (onMembers (close defsKey fuel)) node

/-- The strict form of a schema whose definitions stand under a key. -/
def sanitize (defsKey : String) (schema : Value) : Outcome Value :=
  onSchema (close defsKey (nesting schema + 1)) schema

/-- A document without its dialect. -/
def withoutDialect (schema : Value) : Outcome Value :=
  match schema with
  | .object entries => .ok (.object (Value.Entries.erase entries "$schema"))
  | .list _ => .fault .listForObject
  | .set _ => .fault .setForObject
  | other => .fault (.noAttribute other.typeName "pop")

/-- The response format that holds a schema document, made strict where asked. -/
def responseFormat (document : Value) (defsKey : String) (name : Option String)
    (strict : Bool) : Outcome Value := do
  let schema ← withoutDialect document
  let schema ← if strict then sanitize defsKey schema else .ok schema
  .ok (Value.ofFields
    [("type", .str "json_schema"),
     ("json_schema", Value.ofFields
       [("name", .str (Naming.schemaName name Naming.defaultSchemaName)),
        ("strict", .bool strict),
        ("schema", schema)])])

/-- The response format of a compiled schema. -/
def responseFormatOf (compiled : Compiled) (name : Option String) (strict : Bool) :
    Outcome Value :=
  responseFormat (compiled.document none) compiled.defsKey name strict

end TypedReply.Strict
