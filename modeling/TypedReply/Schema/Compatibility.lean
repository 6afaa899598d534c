import TypedReply.Error
import TypedReply.Options
import TypedReply.Value.Fold

/-!
# Compatibility with providers

Providers limit how deep a schema may nest and which keywords it may use. Depth counts properties,
items and the alternatives of combinations. Keywords are looked for where schemas stand; names of
properties and of definitions are not keywords.
-/

namespace TypedReply.Compatibility

open Value (Seen)

/-- The providers. -/
inductive Provider where
  | openai
  | gemini
deriving DecidableEq

namespace Provider

/-- The name of a provider. -/
def name : Provider → String
  | .openai => "openai"
  | .gemini => "gemini"

def all : List Provider := [.openai, .gemini]

/-- The provider of a name. -/
def named (name : String) : Outcome Provider :=
  match all.find? (·.name == name) with
  | some provider => .ok provider
  | none => .fault (.unknownProvider name (all.map (·.name)))

end Provider

def combinations : List String := ["anyOf", "oneOf", "allOf"]

/-- The depth of a node from the depths of its children. -/
def depthStep (_ : Value) (parts : Parts (Seen Nat)) : Nat :=
  let properties := (Value.Parts.valuesOf parts "properties").map fun (_, _, depth) => depth
  let items := match parts.get? "items" with
    | some ⟨.object _, seen⟩ => [seen.result]
    | _ => []
  let members := combinations.flatMap fun keyword =>
    (Value.Parts.itemsOf parts keyword).map Prod.snd
  ((properties ++ items ++ members).map (· + 1)).foldl max 0

def depth (schema : Value) : Nat := schema.foldDeep depthStep

/-- The keywords under which schemas or lists of schemas stand, definitions apart. -/
def nestedKeywords : List String := ["items", "additionalProperties"] ++ combinations

/-- Whether a node or a list of nodes uses one of some keywords. -/
def usesStep (keywords : List String) (value : Value) (parts : Parts (Seen Bool)) : Bool :=
  match value with
  | .object entries =>
    let here := keywords.any (Value.Entries.has entries)
    let properties := (Value.Parts.valuesOf parts "properties").any fun (_, _, uses) => uses
    let definitions := match parts.get? "$defs" with
      | some ⟨.object _, seen⟩ => seen.entries.any fun (_, _, uses) => uses
      | some part => part.result.result
      | none => false
    let nested := nestedKeywords.any fun keyword =>
      (parts.get? keyword).any fun part => part.result.result
    here || properties || definitions || nested
  | .list _ => parts.items.any fun part => part.result.result
  | _ => false

def uses (keywords : List String) (schema : Value) : Bool := schema.foldDeep (usesStep keywords)

/-- The issue of a schema that nests too deep. -/
def depthIssue (depth : Nat) (limit : Int) : String :=
  "Schema depth (" ++ Value.natText depth ++ ") exceeds recommended limit of " ++
    Value.intText limit ++ " levels"

/-- The keywords that strict schemas may not use, each group with its issue. -/
def strictIssues : List (List String × String) :=
  [(["patternProperties"], "Pattern properties are not supported in OpenAI structured outputs"),
   (["if", "then", "else"], "Conditional schemas (if/then/else) are not supported"),
   (["oneOf"], "oneOf is rejected in strict mode; use anyOf")]

/-- What a provider objects to in a schema, with a limit on its depth. -/
def issues (schema : Value) (provider : Provider) (limit : Int) : List String :=
  let deep := if limit < depth schema then [depthIssue (depth schema) limit] else []
  let keywords := match provider with
    | .openai => strictIssues.filterMap fun (keywords, issue) =>
        if uses keywords schema then some issue else none
    | .gemini => []
  deep ++ keywords

/-- What the provider of a name objects to; without a limit the environment's is used. -/
def validate (env : Environment) (schema : Value) (provider : String) (limit : Option Int) :
    Outcome (List String) := do
  let provider ← Provider.named provider
  let limit ← limit.elim ((Options.ofEnvironment env none none none).map (·.maxDepth)) .ok
  .ok (issues schema provider limit)

end TypedReply.Compatibility
