import TypedReply.Json.Stable
import TypedReply.Prompt
import TypedReply.Reference.Library
import TypedReply.Reply.Read
import TypedReply.Schema.Compatibility
import TypedReply.Schema.Gemini
import TypedReply.Schema.Strict

/-!
# Contracts

A contract is an instruction with the records of its input and output. It yields both schemas, the
response format for a provider, the prompt for given input values, and the typed output of a reply.
-/

namespace TypedReply

/-- The export of a descriptor's document: its stable text, ended by a line feed. -/
def exportText (options : Options) (store : Store) (target : Descriptor)
    (title : Option String) : Outcome String := do
  let compiled ← compile options store target
  .ok ((← Json.stableText (compiled.document title)) ++ "\n")

/-- An instruction with typed input and output. -/
structure Contract where
  name : String
  instruction : String
  inputs : Descriptor
  outputs : Descriptor
  options : Options

namespace Contract

def inputSchema (contract : Contract) (registry : Registry) : Outcome Value := do
  .ok ((← compile contract.options registry.structs contract.inputs).document none)

def outputSchema (contract : Contract) (registry : Registry) : Outcome Value := do
  .ok ((← compile contract.options registry.structs contract.outputs).document none)

/-- A short hash of the contract that changes with its name, instruction and schemas. -/
def fingerprint (contract : Contract) (registry : Registry) : Outcome String := do
  let inputs ← contract.inputSchema registry
  let outputs ← contract.outputSchema registry
  Json.fingerprint (Value.ofFields
    [("name", .str contract.name), ("instruction", .str contract.instruction),
      ("inputs", inputs), ("outputs", outputs)])

/-- The response format of the output for the provider of a name. -/
def responseFormat (contract : Contract) (registry : Registry) (provider : String) :
    Outcome Value := do
  let compiled ← compile contract.options registry.structs contract.outputs
  match ← Compatibility.Provider.named provider with
  | .openai => Strict.responseFormatOf compiled (some contract.name) true
  | .gemini => Gemini.ofCompiled compiled

/-- Input values in plain form; the input must be a record. A record without a name carries no
tag. -/
def inputPayload (contract : Contract) (registry : Registry) (values : Value) :
    Outcome Value := do
  match contract.inputs.record? registry.structs with
  | none => .fault (.noAttribute contract.inputs.typeName "model")
  | some record => do
    match ← Plain.plain (← read registry values contract.inputs) with
    | .object entries =>
      .ok (.object (if record.name.isSome then entries else Value.Entries.erase entries typeKey))
    | other => .ok other

/-- The prompt for input values, with examples. -/
def renderPrompt (contract : Contract) (registry : Registry) (values : Value)
    (examples : List (Value × Value)) : Outcome String := do
  let inputSchema ← contract.inputSchema registry
  let outputSchema ← contract.outputSchema registry
  let payload ← contract.inputPayload registry values
  Prompt.build contract.instruction inputSchema outputSchema payload examples

def parseOutput (contract : Contract) (registry : Registry) (payload : Value) : Outcome Value :=
  read registry payload contract.outputs

end Contract

end TypedReply
