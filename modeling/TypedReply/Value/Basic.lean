import TypedReply.Calendar.DateTime
import TypedReply.Numeric.Double

/-!
# Values

The values that replies, prompts and schemas are made of: plain data (null, Booleans, numbers,
texts, lists and objects), calendar values, bytes, further collections, members of enumerations and
instances of record classes.

An instance carries what it shows of its class: a tag for the class and a tag for each field. A
member carries the tag of its enumeration, its name and its value.
-/

namespace TypedReply

/-- What members of an enumeration are besides being members. -/
inductive Mixin where
  | text
  | integer
deriving DecidableEq

/-- The identity of an enumeration. Enumerations declared alike are told apart by number. -/
structure EnumTag where
  number : Nat
  name : String
  mixin : Option Mixin
deriving DecidableEq

/-- The identity of a record class: one of the two built-in classes, or the number of a declared
one. Classes declared under one name are told apart by number. -/
inductive ClassKey where
  /-- The class that every other extends. -/
  | base
  /-- The class that the classes of unnamed records extend. -/
  | anonymous
  | declared (number : Nat)
deriving DecidableEq

/-- The identity of a record class and what its instances show of it. -/
structure RecordTag where
  key : ClassKey
  name : String
  /-- The classes that this one extends. -/
  ancestors : List ClassKey
deriving DecidableEq

def RecordTag.isAnonymous (tag : RecordTag) : Bool :=
  tag.key == .anonymous || tag.ancestors.contains .anonymous

/-- What an instance shows of a field of its class. -/
structure FieldTag where
  name : String
  /-- The key of the field in plain data. -/
  wireName : String
  /-- Whether null is left out of plain data, being what an absent field means. -/
  omitsNull : Bool
deriving DecidableEq

/-- A value. -/
inductive Value where
  | null
  | bool (b : Bool)
  | int (n : Int)
  | float (x : Double)
  | str (text : String)
  | date (d : Date)
  | datetime (t : DateTime)
  | bytes (data : List UInt8)
  | member (tag : EnumTag) (name : String) (value : Value)
  | list (items : List Value)
  | tuple (items : List Value)
  | set (items : List Value)
  | frozenset (items : List Value)
  | object (entries : List (Value × Value))
  | record (tag : RecordTag) (fields : List (FieldTag × Value))

namespace Value

instance : Inhabited Value := ⟨.null⟩

abbrev Entries := List (Value × Value)

def ofFields (fields : List (String × Value)) : Value :=
  .object (fields.map fun (name, value) => (.str name, value))

/-- The text that a value is: a text itself, or a member that is one too. -/
def text? : Value → Option String
  | .str text => some text
  | .member ⟨_, _, some .text⟩ _ (.str text) => some text
  | _ => none

/-- The integer that a value is: a Boolean, an integer, or a member that is one too. -/
def integer? : Value → Option Int
  | .bool b => some (if b then 1 else 0)
  | .int n => some n
  | .member ⟨_, _, some .integer⟩ _ (.int n) => some n
  | _ => none

/-- The elements of a list or tuple. -/
def items? : Value → Option (List Value)
  | .list items => some items
  | .tuple items => some items
  | _ => none

/-- The entries of an object. -/
def entries? : Value → Option Entries
  | .object entries => some entries
  | _ => none

def isObject (value : Value) : Bool := value.entries?.isSome

/-- Whether a value is a member of an enumeration. -/
def isMember : Value → Bool
  | .member .. => true
  | _ => false

/-- Whether a value is null. -/
def isNull : Value → Bool
  | .null => true
  | _ => false

/-- Whether a value is an instance of a class or of one that extends it. -/
def isInstance (key : ClassKey) : Value → Bool
  | .record tag _ => tag.key == key || tag.ancestors.contains key
  | _ => false

/-- The name of a value's type. -/
def typeName : Value → String
  | .null => "NoneType"
  | .bool _ => "bool"
  | .int _ => "int"
  | .float _ => "float"
  | .str _ => "str"
  | .date _ => "date"
  | .datetime _ => "datetime"
  | .bytes _ => "bytes"
  | .member tag _ _ => tag.name
  | .list _ => "list"
  | .tuple _ => "tuple"
  | .set _ => "set"
  | .frozenset _ => "frozenset"
  | .object _ => "dict"
  | .record tag _ => tag.name

/-- The kind of a value in the words of JSON; values foreign to JSON are called by their type. -/
def kind (value : Value) : String :=
  match value with
  | .null => "null"
  | .bool _ => "boolean"
  | .float _ => "number"
  | .list _ => "array"
  | .tuple _ => "array"
  | .object _ => "object"
  | _ =>
    if value.integer?.isSome then "integer"
    else if value.text?.isSome then "string"
    else value.typeName

end Value

end TypedReply
