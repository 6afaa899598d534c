import TypedReply.Value.Equality

/-!
# Folding over values

Reading and checking a value proceed from its parts: what is to be done with a value is a function
of the value and of what is to be done with its parts. The items of collections and the keys and
values of objects are parts, and so are the fields of an instance, each as a pair of its name and
its value, which is how an instance is iterated over.
-/

namespace TypedReply

/-- A part of a value, with the result of folding it. -/
structure Part (ρ : Type) where
  value : Value
  result : ρ

/-- The parts of a value: items (the fields of an instance as pairs), or entries with their keys. -/
structure Parts (ρ : Type) where
  items : List (Part ρ)
  entries : List (Part ρ × Part ρ)

namespace Parts

variable {ρ : Type}

def none : Parts ρ := ⟨[], []⟩

def get? (parts : Parts ρ) (name : String) : Option (Part ρ) :=
  (parts.entries.find? fun (key, _) => key.value.isText name).map Prod.snd

end Parts

namespace Value

variable {ρ : Type}

mutual

/-- The result of a value from the results of its parts. -/
def fold (step : Value → Parts ρ → ρ) : Value → ρ
  | .list items => step (.list items) ⟨foldItems step items, []⟩
  | .tuple items => step (.tuple items) ⟨foldItems step items, []⟩
  | .set items => step (.set items) ⟨foldItems step items, []⟩
  | .frozenset items => step (.frozenset items) ⟨foldItems step items, []⟩
  | .object entries => step (.object entries) ⟨[], foldEntries step entries⟩
  | .record tag fields => step (.record tag fields) ⟨foldFields step fields, []⟩
  | v => step v .none

/-- The results of items. -/
def foldItems (step : Value → Parts ρ → ρ) : List Value → List (Part ρ)
  | [] => []
  | item :: items => ⟨item, fold step item⟩ :: foldItems step items

/-- The results of the keys and values of entries. -/
def foldEntries (step : Value → Parts ρ → ρ) : List (Value × Value) → List (Part ρ × Part ρ)
  | [] => []
  | (key, value) :: entries =>
    (⟨key, fold step key⟩, ⟨value, fold step value⟩) :: foldEntries step entries

/-- The results of the fields of an instance, as pairs. -/
def foldFields (step : Value → Parts ρ → ρ) : List (FieldTag × Value) → List (Part ρ)
  | [] => []
  | (tag, value) :: fields =>
    let name : Value := .str tag.name
    let pair : Value := .tuple [name, value]
    let parts : Parts ρ := ⟨[⟨name, step name .none⟩, ⟨value, fold step value⟩], []⟩
    ⟨pair, step pair parts⟩ :: foldFields step fields

end

def toPart (step : Value → Parts ρ → ρ) (value : Value) : Part ρ := ⟨value, value.fold step⟩

theorem foldItems_eq_map (step : Value → Parts ρ → ρ) (items : List Value) :
    foldItems step items = items.map (toPart step) := by
  induction items with
  | nil => rfl
  | cons item items ih => simp [foldItems, toPart, ih]

theorem foldEntries_eq_map (step : Value → Parts ρ → ρ) (entries : Entries) :
    foldEntries step entries =
      entries.map fun (key, value) => (toPart step key, toPart step value) := by
  induction entries with
  | nil => rfl
  | cons entry entries ih => simp [foldEntries, toPart, ih]

theorem fold_list (step : Value → Parts ρ → ρ) (items : List Value) :
    fold step (.list items) = step (.list items) ⟨items.map (toPart step), []⟩ := by
  simp [fold, foldItems_eq_map]

theorem fold_object (step : Value → Parts ρ → ρ) (entries : Entries) :
    fold step (.object entries) = step (.object entries)
      ⟨[], entries.map fun (key, value) => (toPart step key, toPart step value)⟩ := by
  simp [fold, foldEntries_eq_map]

/-- The result of a value beside those of its parts. -/
structure Seen (ρ : Type) where
  value : Value
  result : ρ
  items : List (Value × ρ)
  /-- The keys and values of entries, with the results of the values. -/
  entries : List (Value × Value × ρ)

namespace Seen

/-- The result of a value beside those of its parts, from those of its parts and of their parts. -/
def make (step : Value → Parts (Seen ρ) → ρ) (value : Value) (parts : Parts (Seen ρ)) : Seen ρ :=
  ⟨value, step value parts, parts.items.map fun part => (part.value, part.result.result),
    parts.entries.map fun (key, part) => (key.value, part.value, part.result.result)⟩

end Seen

/-- The result of a value where a step looks two levels down. -/
def foldDeep (step : Value → Parts (Seen ρ) → ρ) (value : Value) : ρ :=
  (value.fold (Seen.make step)).result

/-- The results of the values of an object under a key that is a text. -/
def Parts.valuesOf (parts : Parts (Seen ρ)) (name : String) : List (Value × Value × ρ) :=
  match parts.get? name with
  | some part => part.result.entries
  | none => []

/-- The results of the items of a list under a key that is a text. -/
def Parts.itemsOf (parts : Parts (Seen ρ)) (name : String) : List (Value × ρ) :=
  match parts.get? name with
  | some ⟨.list _, seen⟩ => seen.items
  | _ => []

end Value

end TypedReply
