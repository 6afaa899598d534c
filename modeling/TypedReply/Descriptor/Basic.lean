import TypedReply.Descriptor.EnumType

/-!
# Descriptors

A descriptor says what a value looks like: a scalar, an enumeration, a list, a map, an optional, a
union or a record. Records with a fixed list of fields stand in the descriptor itself; structs are
named records that may refer to one another in cycles, so a descriptor holds only the identity of a
struct, and a store holds the structs.
-/

namespace TypedReply

/-- The kinds of scalar. -/
inductive ScalarKind where
  | string
  | int
  | float
  | bool
  | date
  | datetime
deriving DecidableEq

/-- How messages call a scalar kind. -/
def ScalarKind.name : ScalarKind → String
  | .string => "string"
  | .int => "int"
  | .float => "float"
  | .bool => "bool"
  | .date => "date"
  | .datetime => "datetime"

/-- The key of the tag that names an object's record. -/
def typeKey : String := "_type"

/-- A declared field whose type is described by a `δ`. -/
structure FieldOf (δ : Type) where
  name : String
  type : δ
  required : Bool
  description : Option String
  default : Option Value

/-- A record with a fixed list of fields. -/
structure FixedRecordOf (δ : Type) where
  fields : List (FieldOf δ)
  name : Option String
  /-- The class whose instances the record's values are. -/
  cls : Option ClassKey
  description : Option String

/-- The identity of a struct: its place in the store. -/
abbrev StructId := Nat

/-- What a value looks like. -/
inductive Descriptor where
  | scalar (kind : ScalarKind)
  | enum (type : EnumType)
  | array (element : Descriptor)
  | map (key value : Descriptor)
  | optional (inner : Descriptor)
  | union (members : List Descriptor)
  | null
  | fixed (record : FixedRecordOf Descriptor)
  | struct (id : StructId)
  /-- A value that stands where a descriptor should be. -/
  | stray (value : Value)

abbrev Field := FieldOf Descriptor

abbrev FixedRecord := FixedRecordOf Descriptor

instance : Inhabited Descriptor := ⟨.null⟩

/-- A named record. -/
structure Struct where
  name : String
  cls : Option ClassKey
  fields : List Field
  description : Option String

instance : Inhabited Struct := ⟨⟨"", none, [], none⟩⟩

/-- The structs, each at the place that is its identity. -/
abbrev Store := List Struct

/-- The struct at a place; an unused place reads as a struct without name and fields. -/
def Store.at (store : Store) (id : StructId) : Struct := store.getD id default

def requiredNames (fields : List Field) : List String :=
  fields.filterMap fun field => if field.required then some field.name else none

/-- A record as reading and compiling see it, whether it is fixed or a struct. -/
structure RecordView where
  /-- How messages call the record. -/
  kind : String
  name : Option String
  cls : Option ClassKey
  fields : List Field

namespace RecordView

def tag? (record : RecordView) : Option String := record.name.filter (· ≠ "")

end RecordView

namespace FixedRecordOf

/-- How messages call a fixed record. -/
def kind {δ : Type} (record : FixedRecordOf δ) : String :=
  match record.name with
  | some name => if name = "" then "record" else name
  | none => "record"

end FixedRecordOf

def FixedRecord.view (record : FixedRecord) : RecordView :=
  ⟨record.kind, record.name, record.cls, record.fields⟩

def Struct.view (struct : Struct) : RecordView :=
  ⟨struct.name, some struct.name, struct.cls, struct.fields⟩

namespace Descriptor

/-- The record that a descriptor is. -/
def record? (store : Store) : Descriptor → Option RecordView
  | .fixed record => some (FixedRecord.view record)
  | .struct id => some (store.at id).view
  | _ => none

/-- Whether a descriptor is a record. -/
def isRecord : Descriptor → Bool
  | .fixed _ => true
  | .struct _ => true
  | _ => false

/-- Whether a descriptor is the null marker. -/
def isNull : Descriptor → Bool
  | .null => true
  | _ => false

/-- The descriptor inside an optional; any other is itself. -/
def unwrapped : Descriptor → Descriptor
  | .optional inner => inner
  | descriptor => descriptor

def nilable (members : List Descriptor) : Bool := members.any isNull

def nonNull (members : List Descriptor) : List Descriptor := members.filter (!·.isNull)

/-- How messages call the type of a descriptor. -/
def typeName : Descriptor → String
  | .scalar _ => "Scalar"
  | .enum _ => "EnumType"
  | .array _ => "ArrayOf"
  | .map _ _ => "MapOf"
  | .optional _ => "OptionalOf"
  | .union _ => "UnionOf"
  | .null => "NullType"
  | .fixed _ => "FixedRecord"
  | .struct _ => "StructRef"
  | .stray value => value.typeName

mutual

/-- How messages call a descriptor. -/
def kind (store : Store) : Descriptor → String
  | .scalar kind => kind.name
  | .enum type => type.kind
  | .array element => "array<" ++ element.kind store ++ ">"
  | .map key value => "map<" ++ key.kind store ++ "," ++ value.kind store ++ ">"
  | .optional inner => inner.kind store ++ "?"
  | .union members => " | ".intercalate (kinds store members)
  | .null => "null"
  | .fixed record => record.kind
  | .struct id => (store.at id).name
  | .stray value => value.typeName

/-- How messages call each of several descriptors. -/
def kinds (store : Store) : List Descriptor → List String
  | [] => []
  | member :: members => member.kind store :: kinds store members

end

end Descriptor

end TypedReply
