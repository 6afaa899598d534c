import TypedReply.Text.DecimalDigit
import TypedReply.Text.LowerCase

/-!
# Names

The snake-case form of a name, by which a text may refer to a record, and names that providers
accept.
-/

namespace TypedReply.Naming

open Text

/-- Sets off the last capital of a run of capitals where it begins a word. -/
def splitAcronyms : List Char → List Char
  | a :: b :: c :: rest =>
    if a.isUpper && b.isUpper && c.isLower then a :: '_' :: b :: c :: splitAcronyms rest
    else a :: splitAcronyms (b :: c :: rest)
  | cs => cs

/-- Whether a capital after the character begins a word. -/
def endsWord (c : Char) : Bool := c.isLower || isDecimalDigit c

/-- Sets off each capital that follows a small letter or a digit. -/
def splitWords : List Char → List Char
  | a :: b :: rest =>
    if endsWord a && b.isUpper then a :: '_' :: b :: splitWords rest
    else a :: splitWords (b :: rest)
  | cs => cs

def snakeChars (name : List Char) : List Char := lower (splitWords (splitAcronyms name))

def snakeCase (name : String) : String := String.ofList (snakeChars name.toList)

/-- Whether a provider accepts a character in a schema's name. -/
def isNameChar (c : Char) : Bool := c.isAlphanum || c == '_'

def defaultSchemaName : String := "typebridge_output"

/-- A schema name that providers accept: lower-case letters, digits and underscores. -/
def schemaName (name : Option String) (fallback : String) : String :=
  match name with
  | none => fallback
  | some name =>
    if name = "" then fallback
    else
      String.ofList (lower (name.toList.map fun c => if isNameChar c then c else '_'))

end TypedReply.Naming
