import TypedReply.Value.Equality

/-!
# Schema nodes

A schema node is an object whose keys are keywords or names. Nodes are built as lists of named
values in the order in which they are written.
-/

namespace TypedReply

abbrev Fields := List (String × Value)

namespace Fields

def get? (fields : Fields) (name : String) : Option Value := fields.lookup name

/-- Sets the value of a name: a name that is there keeps its place, a new one goes last. -/
def put (fields : Fields) (name : String) (value : Value) : Fields :=
  match fields with
  | [] => [(name, value)]
  | (other, old) :: rest =>
    if other = name then (name, value) :: rest else (other, old) :: put rest name value

def putAll (fields : Fields) (more : Fields) : Fields :=
  more.foldl (fun fields (name, value) => fields.put name value) fields

@[simp]
theorem get?_nil (name : String) : get? [] name = none := rfl

theorem get?_cons (other name : String) (value : Value) (fields : Fields) :
    get? ((other, value) :: fields) name =
      if name = other then some value else fields.get? name := by
  by_cases same : name = other
  · simp [get?, same]
  · have unequal : (name == other) = false := by simpa using same
    simp [get?, List.lookup_cons, unequal, same]

@[simp]
theorem get?_put_self (fields : Fields) (name : String) (value : Value) :
    (fields.put name value).get? name = some value := by
  induction fields with
  | nil => simp [put, get?_cons]
  | cons entry rest ih =>
    obtain ⟨other, old⟩ := entry
    by_cases same : other = name
    · simp [put, get?_cons, same]
    · simp [put, get?_cons, same, Ne.symm same, ih]

theorem get?_put_of_ne (fields : Fields) {name other : String} (value : Value)
    (different : other ≠ name) : (fields.put name value).get? other = fields.get? other := by
  induction fields with
  | nil => simp [put, get?_cons, different]
  | cons entry rest ih =>
    obtain ⟨found, old⟩ := entry
    by_cases same : found = name
    · subst same
      simp [put, get?_cons, different]
    · simp [put, get?_cons, same, ih]

/-- The names after one is set: the same in the same order, or with the new one last. -/
theorem map_fst_put (fields : Fields) (name : String) (value : Value) :
    (fields.put name value).map Prod.fst =
      if name ∈ fields.map Prod.fst then fields.map Prod.fst
      else fields.map Prod.fst ++ [name] := by
  induction fields with
  | nil => simp [put]
  | cons entry rest ih =>
    obtain ⟨other, old⟩ := entry
    by_cases same : other = name
    · simp [put, same]
    · have absent : name ≠ other := Ne.symm same
      simp only [put, same, if_false, List.map_cons, ih, List.mem_cons, absent, false_or]
      split <;> simp

def node (fields : Fields) : Value := Value.ofFields fields

end Fields

namespace Value

/-- Whether a value counts as present: it is not null, false, zero or empty. -/
def isTruthy (value : Value) : Bool :=
  match value with
  | .null => false
  | .list items => !items.isEmpty
  | .tuple items => !items.isEmpty
  | .set items => !items.isEmpty
  | .frozenset items => !items.isEmpty
  | .object entries => !entries.isEmpty
  | .bytes data => !data.isEmpty
  | v =>
    match v.text?, v.number? with
    | some text, _ => text ≠ ""
    | none, some n => !n.same (.int 0)
    | none, none => true

def Entries.put (entries : Entries) (name : String) (value : Value) : Entries :=
  entries.insert (.str name) value

end Value

end TypedReply
