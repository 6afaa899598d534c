import TypedReply.Plain

/-!
# Prompts

The text of a prompt: both schemas, the rules for the answer, examples, the instruction and the
input values. Every piece of JSON stands on lines of its own between fences.
-/

namespace TypedReply.Prompt

def openFence : String := "```json"

def closeFence : String := "```"

/-- The rules for the answer. -/
def rules : List String :=
  ["Respond with a single JSON object only (no markdown, no prose).",
   "The JSON object MUST conform to the output schema.",
   "Every object described with a \"_type\" property MUST include \"_type\" set to its constant.",
   "Include every required field; use null for optional fields you cannot fill."]

/-- The JSON text of a value as it stands in a prompt. -/
def pretty (value : Value) : Outcome String := Json.text (Json.pretty 2) value

def prettyPlain (value : Value) : Outcome String := do pretty (← Plain.plain value)

def fenced (json : String) : List String := [openFence, json, closeFence]

/-- An example with its number. -/
def exampleLines (number : Nat) (input output : Value) : Outcome (List String) := do
  let input ← prettyPlain input
  let output ← prettyPlain output
  .ok (["### Example " ++ Value.natText number, "Input:"] ++ fenced input ++ ["Output:"] ++
    fenced output ++ [""])

/-- Examples numbered from `number` on. -/
def examplesFrom (number : Nat) : List (Value × Value) → Outcome (List String)
  | [] => .ok []
  | (input, output) :: examples => do
    let lines ← exampleLines number input output
    .ok (lines ++ (← examplesFrom (number + 1) examples))

/-- The section of examples, absent where there are none. -/
def exampleSection (examples : List (Value × Value)) : Outcome (List String) :=
  if examples.isEmpty then .ok []
  else (examplesFrom 1 examples).map (["", "Here are some examples:", ""] ++ ·)

/-- The text of a prompt. -/
def build (instruction : String) (inputSchema outputSchema inputValues : Value)
    (examples : List (Value × Value)) : Outcome String := do
  let inputSchema ← pretty inputSchema
  let outputSchema ← pretty outputSchema
  let shown ← exampleSection examples
  let inputValues ← prettyPlain inputValues
  let lines :=
    ["Your input schema fields are:"] ++ fenced inputSchema ++
    ["", "Your output schema fields are:"] ++ fenced outputSchema ++ [""] ++ rules ++ shown ++
    ["", "Your objective is: " ++ instruction, "", "## Input Values"] ++ fenced inputValues
  .ok ("\n".intercalate lines)

end TypedReply.Prompt
