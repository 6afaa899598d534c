import TypedReply.Descriptor.Basic
import TypedReply.Error
import TypedReply.Value.Equality

/-!
# Type expressions

The types by which the fields of a record class are annotated. Unions are kept flat, without
duplicates and with at least two members; type expressions are compared with regard to what they
admit, so that the order of a union's members or of a literal's values does not matter.
-/

namespace TypedReply

/-- The collections that a list of items is kept in. -/
inductive Collection where
  | list
  | tuple
  | set
  | frozenset
deriving DecidableEq

namespace Collection

/-- Whether the items must be hashable. -/
def isUnique : Collection → Bool
  | .set => true
  | .frozenset => true
  | _ => false

/-- Items kept in a collection. -/
def collect : Collection → List Value → Value
  | .list, items => .list items
  | .tuple, items => .tuple items
  | .set, items => .set (Value.distinct items)
  | .frozenset, items => .frozenset (Value.distinct items)

end Collection

/-- The type of a field of a record class. -/
inductive TypeExpr where
  | none
  | any
  | complex
  | bytes
  | object
  | scalar (kind : ScalarKind)
  | bare (collection : Collection)
  | collection (collection : Collection) (element : TypeExpr)
  | tuple (items : List TypeExpr)
  | bareDict
  | dict (key value : TypeExpr)
  | union (members : List TypeExpr)
  | literal (values : List Value)
  /-- A type with a note attached. -/
  | annotated (inner : TypeExpr)
  | enum (cls : EnumClass)
  | record (key : ClassKey)
  /-- A class or enumeration that is named before it is declared. -/
  | unresolved (name : String)

instance : Inhabited TypeExpr := ⟨.any⟩

namespace TypeExpr

def sameChoice (v w : Value) : Bool := v.sameType w && v.same w

/-- Whether every choice of one literal is one of another. -/
def choicesWithin (values others : List Value) : Bool :=
  values.all fun v => others.any (sameChoice v)

mutual

/-- Equality of type expressions. -/
def same : TypeExpr → TypeExpr → Bool
  | .none, other => match other with
    | .none => true
    | _ => false
  | .any, other => match other with
    | .any => true
    | _ => false
  | .complex, other => match other with
    | .complex => true
    | _ => false
  | .bytes, other => match other with
    | .bytes => true
    | _ => false
  | .object, other => match other with
    | .object => true
    | _ => false
  | .scalar kind, other => match other with
    | .scalar otherKind => kind == otherKind
    | _ => false
  | .bare kind, other => match other with
    | .bare otherKind => kind == otherKind
    | _ => false
  | .collection kind element, other => match other with
    | .collection otherKind otherElement => kind == otherKind && element.same otherElement
    | _ => false
  | .tuple items, other => match other with
    | .tuple others => sameEach items others
    | _ => false
  | .bareDict, other => match other with
    | .bareDict => true
    | _ => false
  | .dict key value, other => match other with
    | .dict otherKey otherValue => key.same otherKey && value.same otherValue
    | _ => false
  | .union members, other => match other with
    | .union others => members.length == others.length && within members others
    | _ => false
  | .literal values, other => match other with
    | .literal others => choicesWithin values others && choicesWithin others values
    | _ => false
  | .annotated inner, other => match other with
    | .annotated otherInner => inner.same otherInner
    | _ => false
  | .enum cls, other => match other with
    | .enum otherCls => cls.tag == otherCls.tag
    | _ => false
  | .record key, other => match other with
    | .record otherKey => key == otherKey
    | _ => false
  | .unresolved name, other => match other with
    | .unresolved otherName => name == otherName
    | _ => false
termination_by structural expr => expr

/-- Equality of sequences of type expressions. -/
def sameEach : List TypeExpr → List TypeExpr → Bool
  | [], [] => true
  | a :: as, b :: bs => a.same b && sameEach as bs
  | _, _ => false
termination_by structural exprs => exprs

/-- Whether every type expression equals one of the others. -/
def within : List TypeExpr → List TypeExpr → Bool
  | [], _ => true
  | a :: as, others => others.any a.same && within as others
termination_by structural exprs => exprs

end

/-- The members of a union; any other type expression is its own only member. -/
def members : TypeExpr → List TypeExpr
  | .union members => members
  | expr => [expr]

/-- Type expressions without those that equal an earlier one. -/
def distinct (exprs : List TypeExpr) : List TypeExpr :=
  exprs.foldl (fun kept a => if kept.any (·.same a) then kept else kept ++ [a]) []

/-- The union of type expressions: nested unions are spliced in, duplicates dropped, and a single
member is the union itself. -/
def unionOf (exprs : List TypeExpr) : Outcome TypeExpr :=
  match distinct (exprs.flatMap members) with
  | [] => .fault .emptyUnion
  | [single] => .ok single
  | several => .ok (.union several)

def optionalOf (expr : TypeExpr) : Outcome TypeExpr := unionOf [expr, .none]

/-- The literal of some values, without those that repeat an earlier one's type and value. -/
def literalOf (values : List Value) : TypeExpr :=
  .literal
    (values.foldl (fun kept v => if kept.any (sameChoice v) then kept else kept ++ [v]) [])

/-- Whether a type expression is the null type. -/
def isNone : TypeExpr → Bool
  | .none => true
  | _ => false

/-- Whether a type expression is a list, apart from notes and null. -/
def isListed : TypeExpr → Bool
  | .bare .list => true
  | .collection .list _ => true
  | .annotated inner => inner.isListed
  | .union [inner, .none] => inner.isListed
  | .union [.none, inner] => inner.isListed
  | _ => false

/-- Whether a type expression admits every value. -/
def isAny : TypeExpr → Bool
  | .any => true
  | .object => true
  | _ => false

end TypeExpr

/-! ## Names that are declared later -/

/-- What names stand for, the latest declaration first. -/
abbrev Scope := List (String × TypeExpr)

namespace TypeExpr

mutual

/-- A type expression in which names stand for what a scope declares under them. -/
def settle (scope : Scope) : TypeExpr → TypeExpr
  | .unresolved name => (scope.lookup name).getD (.unresolved name)
  | .collection kind element => .collection kind (settle scope element)
  | .tuple items => .tuple (settleEach scope items)
  | .dict key value => .dict (settle scope key) (settle scope value)
  | .union members => .union (settleEach scope members)
  | .annotated inner => .annotated (settle scope inner)
  | expr => expr

/-- Type expressions in which names stand for what a scope declares under them. -/
def settleEach (scope : Scope) : List TypeExpr → List TypeExpr
  | [] => []
  | expr :: exprs => settle scope expr :: settleEach scope exprs

end

mutual

/-- The names in a type expression that nothing is declared under. -/
def unresolvedNames : TypeExpr → List String
  | .unresolved name => [name]
  | .collection _ element => element.unresolvedNames
  | .tuple items => unresolvedNamesOf items
  | .dict key value => key.unresolvedNames ++ value.unresolvedNames
  | .union members => unresolvedNamesOf members
  | .annotated inner => inner.unresolvedNames
  | _ => []

/-- The names in type expressions that nothing is declared under. -/
def unresolvedNamesOf : List TypeExpr → List String
  | [] => []
  | expr :: exprs => expr.unresolvedNames ++ unresolvedNamesOf exprs

end

/-- Whether a scope declares every name in a type expression. -/
def isSettledBy (scope : Scope) (expr : TypeExpr) : Bool :=
  expr.unresolvedNames.all fun name => (scope.lookup name).isSome

mutual

/-- The record classes that a type expression mentions. -/
def classKeys : TypeExpr → List ClassKey
  | .record key => [key]
  | .collection _ element => element.classKeys
  | .tuple items => classKeysOf items
  | .dict key value => key.classKeys ++ value.classKeys
  | .union members => classKeysOf members
  | .annotated inner => inner.classKeys
  | _ => []

/-- The record classes that type expressions mention. -/
def classKeysOf : List TypeExpr → List ClassKey
  | [] => []
  | expr :: exprs => expr.classKeys ++ classKeysOf exprs

end

/-! ## Type expressions of descriptors -/

mutual

/-- The type expression of a field whose type is a descriptor. -/
def ofDescriptor (store : Store) : Descriptor → Outcome TypeExpr
  | .scalar kind => .ok (.scalar kind)
  | .enum (.ofClass cls) => .ok (.enum cls)
  | .enum (.choices values) => .ok (literalOf values)
  | .array element => do .ok (.collection .list (← ofDescriptor store element))
  | .map key value => do .ok (.dict (← ofDescriptor store key) (← ofDescriptor store value))
  | .optional inner => do optionalOf (← ofDescriptor store inner)
  | .union members => do unionOf (← ofDescriptors store members)
  | .null => .ok .none
  | .fixed shape => .ok (shape.cls.elim .bareDict .record)
  | .struct id => .ok ((store.at id).cls.elim .bareDict .record)
  | .stray _ => .ok .any

/-- The type expressions of several descriptors. -/
def ofDescriptors (store : Store) : List Descriptor → Outcome (List TypeExpr)
  | [] => .ok []
  | member :: members => do
    let expr ← ofDescriptor store member
    .ok (expr :: (← ofDescriptors store members))

end

end TypeExpr

end TypedReply
