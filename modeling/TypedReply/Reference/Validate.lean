import TypedReply.Record.Catalog
import TypedReply.Reference.Loose
import TypedReply.Value.Fold

/-!
# Constructing instances

A class makes an instance from an object: each field is looked up by its wire name and checked
against its type expression and limits; a field that is not given takes its default as it is. An
instance of the class is kept. A union takes the member that fits best. The first problem decides
the error, unless a fault comes to light in what follows: every part is checked before a value is
refused.
-/

namespace TypedReply

/-- A value taken by a class: how well it fits, and how many fields of records were given in it. -/
structure Taken where
  value : Value
  fit : Fit
  fieldCount : Option Nat

namespace Validate

/-- A value refused by a class: where, which, and why. -/
structure Refusal where
  path : Path
  received : Value
  problem : Problem

/-- Why a class makes no instance. -/
inductive Rejection where
  | refused (refusal : Refusal)
  | fault (fault : Fault)

abbrev Check := Except Rejection Taken

/-- What is to be done with a value: checking it against a type expression. -/
abbrev Checker := TypeExpr → Check

/-- The sum of two counts of given fields. -/
def addCounts : Option Nat → Option Nat → Option Nat
  | none, count => count
  | count, none => count
  | some m, some n => some (m + n)

def refuse {α : Type} (received : Value) (problem : Problem) : Except Rejection α :=
  .error (.refused ⟨[], received, problem⟩)

/-- Puts a step in front of the path of a refusal. -/
def below {α : Type} (step : Value) : Except Rejection α → Except Rejection α
  | .error (.refused refusal) => .error (.refused { refusal with path := step :: refusal.path })
  | other => other

/-- A value without records in it, taken as it is. -/
def takeAs (fit : Fit) (value : Value) : Check := .ok ⟨value, fit, none⟩

/-- The result for a scalar. -/
def ofFitted (received : Value) : Loose.Fitted → Check
  | .ok (value, fit) => takeAs fit value
  | .error problem => refuse received problem

/-- The parts of a collection with the values taken for them: their common fit and count. -/
structure Gathered where
  values : List Value
  fit : Fit
  fieldCount : Option Nat

/-- The results of two checks together: a fault in either, else the first refusal. -/
def both {α β : Type} (first : Except Rejection α) (second : Except Rejection β) :
    Except Rejection (α × β) :=
  match first, second with
  | .ok a, .ok b => .ok (a, b)
  | .error (.fault fault), _ => .error (.fault fault)
  | _, .error (.fault fault) => .error (.fault fault)
  | .error (.refused refusal), _ => .error (.refused refusal)
  | _, .error (.refused refusal) => .error (.refused refusal)

theorem both_eq_ok_iff {α β : Type} {first : Except Rejection α} {second : Except Rejection β}
    {a : α} {b : β} : both first second = .ok (a, b) ↔ first = .ok a ∧ second = .ok b := by
  unfold both
  split <;> simp_all

/-- Checks items in order, each under its position. -/
def gather (position : Nat) : List (Unit → Check) → Except Rejection Gathered
  | [] => .ok ⟨[], .exact, none⟩
  | check :: checks => do
    let (first, rest) ← both (below (Path.index position) (check ())) (gather (position + 1) checks)
    .ok ⟨first.value :: rest.values, first.fit.worse rest.fit,
      addCounts first.fieldCount rest.fieldCount⟩

/-- The item of a collection, refused if it cannot be one. -/
def hashable (collection : Collection) (received : Value) (item : Check) : Check := do
  let taken ← item
  if collection.isUnique && taken.value.unhashable?.isSome then refuse received .notHashable
  else .ok taken

/-- The problem of a value that is no such collection. -/
def notCollection : Collection → Problem
  | .list => .notList
  | .tuple => .notTuple
  | .set => .notSet
  | .frozenset => .notFrozenset

/-- How well the kind of a value's items fits a collection; none for a value without items. -/
def collectionFit? (collection : Collection) : Value → Option Fit
  | .list _ => some (if collection = .list then .exact else .lenient)
  | .tuple _ => some (if collection = .tuple then .exact else .lenient)
  | .set _ => some (if collection = .set then .exact else .lenient)
  | .frozenset _ => some (if collection = .frozenset then .exact else .lenient)
  | .record .. => some .lenient
  | _ => none

/-- The step to the value of a key: a text, an integer of 64 bits, or the rendered form of any other
key. -/
def keyStep (key : Value) : Value :=
  match key.text?, key.integer? with
  | some text, _ => .str text
  | none, some n => if Loose.isWord n then .int n else .str key.render
  | none, none => .str key.render

/-- Checks the key and the value of an entry; the problem of a key stands under that key and a
mark. -/
def checkEntry (key : Value) (checkKey checkValue : Unit → Check) :
    Except Rejection (Taken × Taken) := do
  let step := keyStep key
  let newKey := below step (below (.str "[key]") (checkKey ()))
  let (newKey, newValue) ← both newKey (below step (checkValue ()))
  match newKey.value.unhashable? with
  | some typeName => .error (.fault (.unhashable typeName))
  | none => .ok (newKey, newValue)

/-- Checks entries in order. -/
def gatherEntries : List (Value × (Unit → Check) × (Unit → Check)) →
    Except Rejection (List (Value × Value) × Fit × Option Nat)
  | [] => .ok ([], .exact, none)
  | (key, checkKey, checkValue) :: entries => do
    let ((newKey, newValue), rest, fit, count) ←
      both (checkEntry key checkKey checkValue) (gatherEntries entries)
    .ok ((newKey.value, newValue.value) :: rest, (newKey.fit.worse newValue.fit).worse fit,
      addCounts (addCounts newKey.fieldCount newValue.fieldCount) count)

/-! ## Unions -/

mutual

/-- How problems call a member of a union. -/
def label (catalog : Catalog) : TypeExpr → String
  | .none => "none"
  | .any => "any"
  | .complex => "complex"
  | .bytes => "bytes"
  | .object => "any"
  | .scalar .string => "str"
  | .scalar kind => kind.name
  | .bare .list => "list[any]"
  | .bare .tuple => "tuple[any, ...]"
  | .bare .set => "set[any]"
  | .bare .frozenset => "frozenset[any]"
  | .collection .tuple element => "tuple[" ++ label catalog element ++ ", ...]"
  | .collection .list element => "list[" ++ label catalog element ++ "]"
  | .collection .set element => "set[" ++ label catalog element ++ "]"
  | .collection .frozenset element => "frozenset[" ++ label catalog element ++ "]"
  | .tuple items => "tuple[" ++ ", ".intercalate (labels catalog items) ++ "]"
  | .bareDict => "dict[any,any]"
  | .dict key value => "dict[" ++ label catalog key ++ "," ++ label catalog value ++ "]"
  | .union members =>
    let joined := match labels catalog members with
      | [single] => single
      | several => "union[" ++ ",".intercalate several ++ "]"
    if members.any TypeExpr.isNone then "nullable[" ++ joined ++ "]" else joined
  | .literal values => "literal[" ++ ",".intercalate (values.map (·.render)) ++ "]"
  | .annotated inner => label catalog inner
  | .enum cls =>
    let kind := match cls.tag.mixin with
      | some .text => "str-enum["
      | some .integer => "int-enum["
      | none => "enum["
    kind ++ cls.tag.name ++ "]"
  | .record key => ((catalog.get? key).map (·.name)).getD ""
  | .unresolved name => name

/-- How problems call members of a union; the null type is not one of them. -/
def labels (catalog : Catalog) : List TypeExpr → List String
  | [] => []
  | .none :: members => labels catalog members
  | member :: members => label catalog member :: labels catalog members

end

/-- Whether a later result of a union's member is better than an earlier one: more given fields win,
then the better fit. -/
def isBetter (earlier later : Taken) : Bool :=
  match earlier.fieldCount, later.fieldCount with
  | some m, some n => if m = n then earlier.fit.rank < later.fit.rank else m < n
  | _, _ => earlier.fit.rank < later.fit.rank

/-- The best result of a union's members: the first exact one without records, else the best one. -/
def best (found : Option Taken) : List (Unit → Check) → Except Rejection (Option Taken)
  | [] => .ok found
  | check :: checks =>
    match check () with
    | .ok taken =>
      if taken.fit = .exact ∧ taken.fieldCount = none then .ok (some taken)
      else
        let better := match found with
          | none => taken
          | some earlier => if isBetter earlier taken then taken else earlier
        best (some better) checks
    | .error (.refused _) => best found checks
    | .error (.fault fault) => .error (.fault fault)

/-- A value as a member of a union of the given members, each with its label and check. -/
def ofMembers (received : Value) (members : List (String × (Unit → Check))) : Check :=
  match members with
  | [] => refuse received .notNone
  | [(_, check)] => check ()
  | (name, first) :: _ => do
    match ← best none (members.map Prod.snd) with
    | some taken => .ok taken
    | none => below (.str name) (first ())

/-! ## Records -/

/-- The length of a value, and what it is counted of. -/
def length? : Value → Option (Sized × Nat)
  | .str text => some (.text, text.length)
  | .list items => some (.list, items.length)
  | .tuple items => some (.tuple, items.length)
  | .set items => some (.set, items.length)
  | .frozenset items => some (.frozenset, items.length)
  | .object entries => some (.dictionary, entries.length)
  | _ => none

/-- Whether a datetime is at most a bound: aware ones are compared as moments, others as they
read. -/
def isNoLater (t bound : DateTime) : Bool :=
  match t.offset, bound.offset with
  | some p, some q => t.reading - p.micros ≤ bound.reading - q.micros
  | _, _ => t.reading ≤ bound.reading

/-- Whether a number, a date or a datetime is at most a bound of its kind. -/
def atMost (value bound : Value) : Bool :=
  match value, bound, value.number?, bound.number? with
  | .date d, .date last, _, _ => d.ordinal ≤ last.ordinal
  | .datetime t, .datetime last, _, _ => isNoLater t last
  | _, _, some m, some n => m.lt n || m.same n
  | _, _, _, _ => true

/-- The first limit that a value breaks. -/
def broken? (limits : Limits) (value : Value) : Option Problem :=
  let tooLarge := limits.atMost.bind fun bound =>
    if atMost value bound then none else some (.above bound)
  let tooSmall := limits.atLeast.bind fun bound =>
    if atMost bound value then none else some (.below bound)
  let tooShort := do
    let least ← limits.minLength
    let (sized, actual) ← length? value
    if actual < least then some (Problem.tooShort sized least actual) else none
  let tooLong := do
    let most ← limits.maxLength
    let (sized, actual) ← length? value
    if most < actual then some (Problem.tooLong sized most actual) else none
  tooLarge <|> tooSmall <|> tooShort <|> tooLong

/-- The problem of a list with more items than its field admits, which stands before any problem of
an item. -/
def overfull? (field : ClassField) (value : Value) : Option Problem := do
  let most ← field.limits.maxLength
  let actual := (value.items?.getD []).length
  if field.type.isListed && most < actual then some (.tooLong .list most actual) else none

/-- The value of a field that was given. -/
def checkField (field : ClassField) (given : Part Checker) : Check := do
  match overfull? field given.value with
  | some problem => refuse given.value problem
  | none => pure ()
  let taken ← given.result field.type
  match if taken.value.isNull then none else broken? field.limits taken.value with
  | some problem => refuse given.value problem
  | none => .ok taken

/-- The value of a field, given or not. -/
def fieldValue (record : Value) (parts : Parts Checker) (field : ClassField) :
    Except Rejection (Value × Option Nat) :=
  below (.str field.wireName) <|
    match parts.get? field.wireName with
    | some given => (checkField field given).map fun taken =>
        (taken.value, addCounts (some 1) taken.fieldCount)
    | none =>
      match field.presence.fallback with
      | .ok (some value) => .ok (value, some 0)
      | .ok none => refuse record .missing
      | .error (.fault fault) => .error (.fault fault)
      | .error _ => refuse record .missing

/-- The values of fields, given or not. -/
def fieldValues (record : Value) (parts : Parts Checker) :
    List ClassField → Except Rejection (List (Value × Option Nat))
  | [] => .ok []
  | field :: fields => do
    let (first, rest) ← both (fieldValue record parts field) (fieldValues record parts fields)
    .ok (first :: rest)

/-- An instance of a class made from an object. -/
def construct (cls : RecordClass) (record : Value) (parts : Parts Checker) : Check := do
  let values ← fieldValues record parts cls.fields
  let count := values.foldl (fun total (_, given) => addCounts total given) (some 0)
  let fields := (cls.fields.map (·.tag)).zip (values.map Prod.fst)
  .ok ⟨.record cls.tag fields, .lenient, count⟩

/-- A value as an instance of a class. -/
def ofClass (catalog : Catalog) (key : ClassKey) (value : Value) (parts : Parts Checker) : Check :=
  if value.isInstance key then takeAs .exact value
  else
    match catalog.get? key with
    | none => refuse value (.notRecord "")
    | some cls => if value.isObject then construct cls value parts
        else refuse value (.notRecord cls.name)

mutual

/-- Checks a value against a type expression by means of its parts. -/
def check (catalog : Catalog) (value : Value) (parts : Parts Checker) : Checker
  | .none => if value.isNull then takeAs .exact value else refuse value .notNone
  | .any => takeAs .strict value
  | .object => takeAs .strict value
  | .complex => takeAs .lenient value
  | .unresolved _ => takeAs .lenient value
  | .bytes => ofFitted value (Loose.bytes value)
  | .scalar kind => ofFitted value (Loose.scalar kind value)
  | .bare kind =>
    match collectionFit? kind value with
    | some fit => do
      let items ← gather 0 <| parts.items.map fun part => fun _ =>
        hashable kind part.value (takeAs (if kind = .list then .exact else .strict) part.value)
      .ok ⟨kind.collect items.values, fit.worse items.fit, items.fieldCount⟩
    | none => refuse value (notCollection kind)
  | .collection kind element =>
    match collectionFit? kind value with
    | some fit => do
      let items ← gather 0 <| parts.items.map fun part => fun _ =>
        hashable kind part.value <|
          if kind = .list && element.isAny then takeAs .exact part.value else part.result element
      .ok ⟨kind.collect items.values, fit.worse items.fit, items.fieldCount⟩
    | none => refuse value (notCollection kind)
  | .tuple exprs =>
    match collectionFit? .tuple value with
    | some fit => do
      let given := parts.items.length
      let tooMany : Except Rejection Unit :=
        if exprs.length < given then refuse value (.tooLong .tuple exprs.length given) else .ok ()
      let tooFew : Except Rejection Unit :=
        if given < exprs.length then below (Path.index given) (refuse value .missing) else .ok ()
      let checks := (parts.items.zip exprs).map fun (part, expr) =>
        fun (_ : Unit) => part.result expr
      let (_, items, _) ← both tooMany (both (gather 0 checks) tooFew)
      .ok ⟨.tuple items.values, fit.worse items.fit, items.fieldCount⟩
    | none => refuse value .notTuple
  | .bareDict =>
    if value.isObject then takeAs (if parts.entries.isEmpty then .exact else .strict) value
    else refuse value .notDictionary
  | .dict keyType valueType =>
    if value.isObject then do
      let (entries, fit, count) ← gatherEntries <| parts.entries.map fun (key, item) =>
        (key.value, (fun _ => key.result keyType), fun _ => item.result valueType)
      .ok ⟨.object (Value.Entries.ofPairs entries), fit, count⟩
    else refuse value .notDictionary
  | .union members =>
    if value.isNull && members.any TypeExpr.isNone then takeAs .exact value
    else ofMembers value (checks catalog value parts members)
  | .literal values => ofFitted value (Loose.choice values value)
  | .annotated inner => check catalog value parts inner
  | .enum cls => ofFitted value (Loose.member cls value)
  | .record key => ofClass catalog key value parts

/-- The checks of a union's members other than the null type, with their labels. -/
def checks (catalog : Catalog) (value : Value) (parts : Parts Checker) :
    List TypeExpr → List (String × (Unit → Check))
  | [] => []
  | .none :: members => checks catalog value parts members
  | member :: members =>
    (label catalog member, fun _ => check catalog value parts member) ::
      checks catalog value parts members

end

/-- A value as an instance of a class; no class has instances while it leads to a name that nothing
is declared under. -/
def instantiate (catalog : Catalog) (key : ClassKey) (value : Value) : Check :=
  match catalog.get? key, catalog.undeclared? key with
  | some cls, some missing => .error (.fault (.notDefined cls.name missing))
  | _, _ => value.fold (check catalog) (.record key)

end Validate

end TypedReply
