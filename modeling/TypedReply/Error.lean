import TypedReply.Descriptor.Basic
import TypedReply.Path

/-!
# Errors

Three kinds of failure are told apart. A *reply error* says that a reply does not fit its
descriptor: where, what was expected, what was received and why. A *schema error* says that a
descriptor cannot be compiled. A *fault* is a misuse of the library or a value out of the range of
its types; no union recovers from it.
-/

namespace TypedReply

/-- Why a value cannot become a scalar or a choice. -/
inductive Reason where
  | notScalar
  | unsupported
  | booleanNotInteger
  | booleanNotNumber
  | fractional
  | notNumber
  | notBoolean
  | notDate
  | notDateTime
  | notTag

/-- The words for a reason. -/
def Reason.text : Reason → String
  | .notScalar => "not a scalar"
  | .unsupported => "unsupported value"
  | .booleanNotInteger => "booleans are not integers"
  | .booleanNotNumber => "booleans are not numbers"
  | .fractional => "number has a fractional part"
  | .notNumber => "not a number"
  | .notBoolean => "not a boolean literal"
  | .notDate => "not an ISO 8601 date"
  | .notDateTime => "not an ISO 8601 datetime"
  | .notTag => "not an enum tag"

/-- The shapes that a descriptor may demand of a value. -/
inductive Shape where
  | array
  | object
  | null

/-- The words for a shape. -/
def Shape.text : Shape → String
  | .array => "an array"
  | .object => "an object"
  | .null => "null"

/-- Why a reply does not fit. -/
inductive Cause where
  | unconvertible (reason : Reason)
  | wrongShape (shape : Shape)
  /-- A text that names none of the choices. -/
  | noChoice (tag : String) (values : List Value)
  | missingField (name : String)
  /-- A tag that names none of the records. -/
  | unknownTag (names : List String)
  /-- A record class that refuses the values of its fields. -/
  | construction (kind problem : String)
  /-- An error stated by its message. -/
  | stated (isMismatch : Bool) (message : String) (validNames : List String)

/-- A reply that does not fit its descriptor. -/
structure ReplyError where
  path : Path
  expected : String
  received : Value
  cause : Cause

namespace ReplyError

/-- Whether the value at the path has the wrong type, rather than being absent or unknown. -/
def isMismatch (error : ReplyError) : Bool :=
  match error.cause with
  | .unconvertible _ => true
  | .wrongShape _ => true
  | .noChoice _ _ => true
  | .stated isMismatch _ _ => isMismatch
  | _ => false

/-- The message of an error. -/
def message (error : ReplyError) : String :=
  match error.cause with
  | .unconvertible reason =>
    "Cannot convert " ++ error.received.kind ++ " to " ++ error.expected ++ ": " ++ reason.text
  | .wrongShape shape => "Expected " ++ shape.text ++ ", got " ++ error.received.kind
  | .noChoice tag values =>
    Text.quoted tag ++ " is not one of " ++ (Value.list values).render
  | .missingField name => "Missing required field " ++ Text.quoted name
  | .unknownTag names =>
    "Unknown " ++ typeKey ++ " " ++ error.received.render ++ "; valid names are " ++
      Value.renderTexts names
  | .construction kind problem => "Cannot construct " ++ kind ++ ": " ++ problem
  | .stated _ message _ => message

/-- The names that would have been valid, where the error is about a name. -/
def validNames (error : ReplyError) : List String :=
  match error.cause with
  | .unknownTag names => names
  | .stated _ _ names => names
  | _ => []

def className (error : ReplyError) : String :=
  if error.isMismatch then "TypeMismatchError" else "DeserializationError"

/-- The full text of an error. -/
def text (error : ReplyError) : String :=
  error.className ++ "(path=" ++ Text.quoted (Path.format error.path) ++ ", expected=" ++
    Text.quoted error.expected ++ ", received=" ++ error.received.render ++ "): " ++ error.message

end ReplyError

/-- Why a descriptor cannot be compiled. -/
inductive SchemaCause where
  /-- A record declares a field named like the tag. -/
  | reservedField
  /-- Two structs share the name. -/
  | sharedName
  /-- An error stated by its field and message. -/
  | stated (field : Option String) (message : String)

/-- A descriptor that cannot be compiled, with the struct or record at fault. -/
structure SchemaError where
  struct : String
  cause : SchemaCause

namespace SchemaError

/-- The field at fault. -/
def field (error : SchemaError) : Option String :=
  match error.cause with
  | .reservedField => some typeKey
  | .sharedName => none
  | .stated field _ => field

/-- The message of an error. -/
def message (error : SchemaError) : String :=
  match error.cause with
  | .reservedField =>
    error.struct ++ " already declares a " ++ typeKey ++ " field; " ++ typeKey ++
      " is reserved for union type detection."
  | .sharedName =>
    "Two different structs are named " ++ Text.quoted error.struct ++ " in one schema."
  | .stated _ message => message

/-- The full text of an error. -/
def text (error : SchemaError) : String :=
  let place := match error.field with
    | some field => error.struct ++ "." ++ field
    | none => error.struct
  "SchemaCompilationError(" ++ place ++ "): " ++ error.message

end SchemaError

/-- A misuse, or a value out of range. -/
inductive Fault where
  /-- An integer beyond the floating point range. -/
  | integerOverflow
  | notDescriptor (value : Value)
  | notIterable (typeName : String)
  /-- Two keys that cannot be ordered. -/
  | unordered (left right : String)
  | notSerializable (typeName : String)
  /-- A key that no JSON object can have. -/
  | unusableKey (typeName : String)
  /-- A key that no object can have. -/
  | unhashable (typeName : String)
  | emptyUnion
  | emptyLiteral
  /-- A member that a value's type lacks. -/
  | noAttribute (typeName member : String)
  /-- A list where an object should be, from which one item at most can be taken. -/
  | listForObject
  /-- A set where an object should be, from which no chosen item can be taken. -/
  | setForObject
  | unknownProvider (name : String) (known : List String)
  | invalidFlag (setting value : String)
  | invalidInteger (setting value : String)
  | factoryFailed
  /-- A field name that a record class may not have. -/
  | leadingUnderscore (name : String)
  /-- A record class that mentions a name nothing is declared under. -/
  | notDefined (className missing : String)

namespace Fault

/-- The name to use instead of one with leading underscores. -/
def suggestedName (name : String) : String :=
  let rest := name.toList.dropWhile (· == '_')
  if rest.isEmpty then "my_field" else String.ofList rest

/-- The message of a fault. -/
def message : Fault → String
  | .integerOverflow => "int too large to convert to float"
  | .notDescriptor value => "Not a type descriptor: " ++ value.render
  | .notIterable typeName => "'" ++ typeName ++ "' object is not iterable"
  | .unordered left right =>
    "'<' not supported between instances of '" ++ left ++ "' and '" ++ right ++ "'"
  | .notSerializable typeName => "Object of type " ++ typeName ++ " is not JSON serializable"
  | .unusableKey typeName => "keys must be str, int, float, bool or None, not " ++ typeName
  | .unhashable typeName => "unhashable type: '" ++ typeName ++ "'"
  | .emptyUnion => "Cannot take a Union of no types."
  | .emptyLiteral => "literal \"expected\" cannot be empty, obj=typing.Literal[()]"
  | .noAttribute typeName member =>
    "'" ++ typeName ++ "' object has no attribute '" ++ member ++ "'"
  | .listForObject => "pop expected at most 1 argument, got 2"
  | .setForObject => "set.pop() takes no arguments (2 given)"
  | .unknownProvider name known =>
    "Unknown provider " ++ Text.quoted name ++ "; expected one of " ++
      Value.renderTexts known ++ "."
  | .invalidFlag setting value =>
    setting ++ " must be a boolean flag, got " ++ Text.quoted value ++ "."
  | .invalidInteger setting value =>
    setting ++ " must be an integer, got " ++ Text.quoted value ++ "."
  | .factoryFailed => "factory failed"
  | .leadingUnderscore name =>
    "Fields must not use names with leading underscores; e.g., use " ++
      Text.quoted (suggestedName name) ++ " instead of " ++ Text.quoted name ++ "."
  | .notDefined className missing =>
    "\x60" ++ className ++ "\x60 is not fully defined; you should define \x60" ++ missing ++
      "\x60, then call \x60" ++ className ++ ".model_rebuild()\x60."

end Fault

/-- Why an operation has no result. -/
inductive Failure where
  | reply (error : ReplyError)
  | schema (error : SchemaError)
  | fault (fault : Fault)

abbrev Outcome (α : Type) := Except Failure α

namespace Failure

/-- Whether a union may try its next member after the failure. -/
def isReply : Failure → Bool
  | .reply _ => true
  | _ => false

end Failure

def Outcome.fault {α : Type} (fault : Fault) : Outcome α := .error (.fault fault)

end TypedReply
