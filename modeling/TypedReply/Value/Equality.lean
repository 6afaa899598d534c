import TypedReply.Value.Basic

/-!
# Equality of values

Values are compared by what they denote: Booleans, integers and floats by number, texts and members
that are texts by content, objects without regard to order, aware datetimes by moment, instances by
class and fields. `nan` equals nothing.
-/

namespace TypedReply

/-- A number of either kind. -/
inductive Number where
  | int (n : Int)
  | float (x : Double)

/-- Numeric equality across the kinds. -/
def Number.same : Number → Number → Bool
  | .int m, .int n => m == n
  | .int m, .float y => y.equalInt m
  | .float x, .int n => x.equalInt n
  | .float x, .float y => x.equal y

/-- Numeric order across the kinds. -/
def Number.lt : Number → Number → Bool
  | .int m, .int n => m < n
  | .int m, .float y => Double.intLt m y
  | .float x, .int n => x.ltInt n
  | .float x, .float y => x.lt y

/-- Sets the value of a key: a key that is the same as it keeps its place and its own form, and a new one
goes last. -/
def setBy {α β : Type} (same : α → α → Bool) (key : α) (value : β) : List (α × β) → List (α × β)
  | [] => [(key, value)]
  | (k, v) :: entries =>
    if same k key then (k, value) :: entries else (k, v) :: setBy same key value entries

/-- The entries that remain when pairs are set one after another. -/
def setAllBy {α β : Type} (same : α → α → Bool) (pairs : List (α × β)) : List (α × β) :=
  pairs.foldl (fun entries (key, value) => setBy same key value entries) []

namespace Value

/-- The number that a value is. -/
def number? (value : Value) : Option Number :=
  match value with
  | .float x => some (.float x)
  | _ => value.integer?.map .int

/-- Equality of values without parts. -/
def sameScalar (v w : Value) : Bool :=
  match v.number?, w.number?, v.text?, w.text? with
  | some m, some n, _, _ => m.same n
  | none, none, some s, some t => s == t
  | _, _, _, _ =>
    match v, w with
    | .null, .null => true
    | .date d, .date e => d == e
    | .datetime s, .datetime t => s.same t
    | .bytes a, .bytes b => a == b
    | .member tag name _, .member other otherName _ => tag == other && name == otherName
    | _, _ => false

mutual

/-- Equality of values. -/
def same : Value → Value → Bool
  | .list a, w => match w with
    | .list b => sameItems a b
    | _ => false
  | .tuple a, w => match w with
    | .tuple b => sameItems a b
    | _ => false
  | .set a, w => match w with
    | .set b => a.length == b.length && itemsWithin a b
    | .frozenset b => a.length == b.length && itemsWithin a b
    | _ => false
  | .frozenset a, w => match w with
    | .set b => a.length == b.length && itemsWithin a b
    | .frozenset b => a.length == b.length && itemsWithin a b
    | _ => false
  | .object a, w => match w with
    | .object b => a.length == b.length && entriesWithin a b
    | _ => false
  | .record tag a, w => match w with
    | .record other b => tag.key == other.key && sameFields a b
    | _ => false
  | v, w => sameScalar v w
termination_by structural v => v

/-- Equality of sequences, item by item. -/
def sameItems : List Value → List Value → Bool
  | [], [] => true
  | v :: vs, w :: ws => v.same w && sameItems vs ws
  | _, _ => false
termination_by structural vs => vs

/-- Whether every item equals one of the others. -/
def itemsWithin : List Value → List Value → Bool
  | [], _ => true
  | v :: vs, others => others.any v.same && itemsWithin vs others
termination_by structural vs => vs

/-- Whether every entry has its equal, key and value, among the others. -/
def entriesWithin : List (Value × Value) → List (Value × Value) → Bool
  | [], _ => true
  | (k, v) :: entries, others =>
    others.any (fun (l, w) => k.same l && v.same w) && entriesWithin entries others
termination_by structural entries => entries

/-- Equality of the fields of two instances of one class. -/
def sameFields : List (FieldTag × Value) → List (FieldTag × Value) → Bool
  | [], [] => true
  | (_, v) :: fields, (_, w) :: others => v.same w && sameFields fields others
  | _, _ => false
termination_by structural fields => fields

end

/-- Whether two values have the same type. -/
def sameType : Value → Value → Bool
  | .null, .null => true
  | .bool _, .bool _ => true
  | .int _, .int _ => true
  | .float _, .float _ => true
  | .str _, .str _ => true
  | .date _, .date _ => true
  | .datetime _, .datetime _ => true
  | .bytes _, .bytes _ => true
  | .member tag _ _, .member other _ _ => tag == other
  | .list _, .list _ => true
  | .tuple _, .tuple _ => true
  | .set _, .set _ => true
  | .frozenset _, .frozenset _ => true
  | .object _, .object _ => true
  | .record tag _, .record other _ => tag.key == other.key
  | _, _ => false

/-- Whether a value is a Boolean, an integer or a text. -/
def isPrimitive : Value → Bool
  | .bool _ => true
  | .int _ => true
  | .str _ => true
  | _ => false

def isText (text : String) (value : Value) : Bool := value.text? == some text

mutual

/-- The type that keeps a value from being a key, if there is one. -/
def unhashable? : Value → Option String
  | .list _ => some "list"
  | .set _ => some "set"
  | .object _ => some "dict"
  | .record tag _ => some tag.name
  | .tuple items => unhashableItem? items
  | _ => none

/-- The type of the first item that cannot be part of a key. -/
def unhashableItem? : List Value → Option String
  | [] => none
  | v :: vs => v.unhashable? <|> unhashableItem? vs

end

namespace Entries

def get? (entries : Entries) (name : String) : Option Value :=
  (List.find? (fun (k, _) => k.isText name) entries).map Prod.snd

def has (entries : Entries) (name : String) : Bool := (entries.get? name).isSome

/-- Sets the value of a key: an equal key keeps its place and its own form, a new one goes last. -/
def insert (key value : Value) (entries : Entries) : Entries := setBy same key value entries

/-- The entries that remain when pairs are set one after another. -/
def ofPairs (pairs : List (Value × Value)) : Entries := setAllBy same pairs

def erase (entries : Entries) (name : String) : Entries :=
  entries.filter fun (k, _) => !k.isText name

def keys (entries : Entries) : List Value := entries.map Prod.fst

def values (entries : Entries) : List Value := entries.map Prod.snd

end Entries

def get? (value : Value) (name : String) : Option Value :=
  value.entries?.bind (Entries.get? · name)

/-- Items without those that equal an earlier one. -/
def distinct (items : List Value) : List Value :=
  items.foldl (fun kept v => if kept.any (·.same v) then kept else kept ++ [v]) []

end Value

end TypedReply
