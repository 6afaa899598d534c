import TypedReply.Value.Render

/-!
# Paths

A path leads from a value to one of its parts: integers index items, texts name keys. It is written
like `a.b[2]`, and the empty path as `<root>`.
-/

namespace TypedReply

abbrev Path := List Value

namespace Path

def index (n : Nat) : Value := .int n

def key (name : String) : Value := .str name

/-- What a step adds to the text of the steps before it. -/
def stepText (before : List Char) (step : Value) : List Char :=
  let text := step.display.toList
  if step.integer?.isSome then '[' :: (text ++ [']'])
  else if before.isEmpty then text
  else '.' :: text

def stepsText (path : Path) : List Char :=
  path.foldl (fun before step => before ++ stepText before step) []

theorem stepsText_append_singleton (path : Path) (step : Value) :
    stepsText (path ++ [step]) = stepsText path ++ stepText (stepsText path) step := by
  simp [stepsText]

def format (path : Path) : String :=
  if path.isEmpty then "<root>" else String.ofList (stepsText path)

end Path

end TypedReply
