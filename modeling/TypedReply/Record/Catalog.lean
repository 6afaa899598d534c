import TypedReply.Record.Class

/-!
# The catalog of record classes

Besides the declared classes there are two built-in ones without fields: the class that all others
extend, and the class that the classes of unnamed records extend.
-/

namespace TypedReply

def baseClass : RecordClass :=
  ⟨.base, "BaseModel", none, [], []⟩

/-- The class that the classes of unnamed records extend. -/
def anonymousClass : RecordClass :=
  ⟨.anonymous, "AnonymousRecord",
    some "Base class of record models built for unnamed records.", [.base], []⟩

namespace Catalog

/-- The class of a key. -/
def get? (catalog : Catalog) : ClassKey → Option RecordClass
  | .base => some baseClass
  | .anonymous => some anonymousClass
  | key => catalog.find? (·.key == key)

def nextKey (catalog : Catalog) : ClassKey := .declared catalog.length

/-- The classes that the pending ones lead to, after those reached before, each class before those
it mentions. Each class taken up takes one unit of fuel. -/
def reach (catalog : Catalog) : Nat → List ClassKey → List RecordClass → List RecordClass
  | 0, _, reached => reached
  | _ + 1, [], reached => reached
  | fuel + 1, key :: pending, reached =>
    match reached.any (·.key == key), catalog.get? key with
    | false, some cls => reach catalog fuel (cls.classKeys ++ pending) (reached ++ [cls])
    | _, _ => reach catalog fuel pending reached

/-- The classes that a class leads to, itself first. -/
def reachable (catalog : Catalog) (key : ClassKey) : List RecordClass :=
  let mentions := catalog.foldl (fun count cls => count + cls.classKeys.length) 0
  reach catalog (mentions + 2) [key] []

/-- The first name that keeps a class from having instances, because nothing is declared under
it. -/
def undeclared? (catalog : Catalog) (key : ClassKey) : Option String :=
  (catalog.reachable key).findSome? fun cls => cls.unresolvedNames.head?

end Catalog

end TypedReply
