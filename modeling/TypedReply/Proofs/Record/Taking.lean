import TypedReply.Proofs.Coerce.Calendar
import TypedReply.Proofs.Record.Typing
import TypedReply.Proofs.Value.PlainData

/-!
# What is assumed of a library

A library of record classes is a parameter, so what its classes make of values is assumed wherever a
theorem relies on it. The assumptions are laws of the library. They follow its documentation: an object
that is accepted makes an instance of the class asked for, values that have the types of their fields
are held as they are, a list becomes the declared collection of its items, and the texts of integers and
Booleans are converted. Where nothing is documented, nothing is assumed.
-/

namespace TypedReply

/-! ## Values and what is taken of them -/

namespace TypeExpr

/-- A type takes a value, as it is or converted. Items that are kept in a set must be hashable, and
so must keys, which stay apart. -/
inductive Takes : TypeExpr → Value → Value → Prop where
  | scalar {kind : ScalarKind} {value : Value} (isKind : value.scalarKind? = some kind) :
      Takes (.scalar kind) value value
  /-- A member of an enumeration of integers is taken for the integer. -/
  | member {tag : EnumTag} {name : String} {n : Int} (isInteger : tag.mixin = some .integer) :
      Takes (.scalar .int) (.member tag name (.int n)) (.int n)
  | digits {n : Int} (short : (Value.intText n).length ≤ Numeral.maxDigits) :
      Takes (.scalar .int) (.str (Value.intText n)) (.int n)
  | word (b : Bool) : Takes (.scalar .bool) (.str (if b then "true" else "false")) (.bool b)
  | bit (b : Bool) : Takes (.scalar .int) (.bool b) (.int (if b then 1 else 0))
  | enum {cls : EnumClass} {entry : String × Value} (isMember : entry ∈ cls.members) :
      Takes (.enum cls) (cls.toValue entry) (cls.toValue entry)
  | literal {values : List Value} {value : Value}
      (primitive : ∀ choice ∈ values, choice.isPrimitive = true) (isChoice : value ∈ values) :
      Takes (.literal values) value value
  | bare {collection : Collection} {items : List Value}
      (hashable : collection.isUnique = true → ∀ item ∈ items, item.unhashable? = .none) :
      Takes (.bare collection) (.list items) (collection.collect items)
  | collection {collection : Collection} {element : TypeExpr} {items taken : List Value}
      (sameLength : items.length = taken.length)
      (each : ∀ pair ∈ items.zip taken, Takes element pair.1 pair.2)
      (hashable : collection.isUnique = true → ∀ item ∈ taken, item.unhashable? = .none) :
      Takes (.collection collection element) (.list items) (collection.collect taken)
  | tuple {exprs : List TypeExpr} {items taken : List Value}
      (sameLength : items.length = taken.length) (complete : exprs.length = taken.length)
      (each : ∀ slot ∈ items.zip (exprs.zip taken), Takes slot.2.1 slot.1 slot.2.2) :
      Takes (.tuple exprs) (.list items) (.tuple taken)
  | bareDict (entries : Value.Entries) : Takes .bareDict (.object entries) (.object entries)
  | dict {key element : TypeExpr} {entries taken : Value.Entries}
      (sameLength : entries.length = taken.length)
      (keys : ∀ pair ∈ entries.zip taken, Takes key pair.1.1 pair.2.1)
      (values : ∀ pair ∈ entries.zip taken, Takes element pair.1.2 pair.2.2)
      (hashable : ∀ entry ∈ taken, entry.1.unhashable? = .none) (apart : Value.Apart taken.keys) :
      Takes (.dict key element) (.object entries) (.object taken)
  | absent {members : List TypeExpr} (nullable : members.any isNone = true) :
      Takes (.union members) .null .null
  | present {members : List TypeExpr} {inner : TypeExpr} {value taken : Value}
      (others : members.filter (!·.isNone) = [inner]) (takes : Takes inner value taken) :
      Takes (.union members) value taken
  /-- An instance is kept by its own class. -/
  | record {tag : RecordTag} (fields : List (FieldTag × Value)) :
      Takes (.record tag.key) (.record tag fields) (.record tag fields)
  /-- An instance is kept by a union with its own class. -/
  | variant {members : List TypeExpr} {keys : List ClassKey} {tag : RecordTag}
      (others : members.filter (!·.isNone) = keys.map .record) (isMember : tag.key ∈ keys)
      (fields : List (FieldTag × Value)) :
      Takes (.union members) (.record tag fields) (.record tag fields)

/-- A type refuses a value: a text is not made of a number, nor an integer of too many characters, and a
container is not made where a part is refused or what is taken cannot be hashed. -/
inductive Refuses : TypeExpr → Value → Prop where
  | number (n : Int) : Refuses (.scalar .string) (.int n)
  | truth (b : Bool) : Refuses (.scalar .string) (.bool b)
  | digits {n : Int} (long : Numeral.maxDigits < (Value.intText n).length) :
      Refuses (.scalar .int) (.str (Value.intText n))
  | bareItem {collection : Collection} {items : List Value} {item : Value}
      (unique : collection.isUnique = true) (isItem : item ∈ items)
      (unusable : item.unhashable? ≠ .none) : Refuses (.bare collection) (.list items)
  | item {collection : Collection} {element : TypeExpr} {items : List Value} {item : Value}
      (isItem : item ∈ items) (refuses : Refuses element item) :
      Refuses (.collection collection element) (.list items)
  | unusable {collection : Collection} {element : TypeExpr} {items : List Value} {item taken : Value}
      (unique : collection.isUnique = true) (isItem : item ∈ items) (takes : element.Takes item taken)
      (unusable : taken.unhashable? ≠ .none) : Refuses (.collection collection element) (.list items)
  | place {exprs : List TypeExpr} {items : List Value} {slot : Value × TypeExpr}
      (isSlot : slot ∈ items.zip exprs) (refuses : Refuses slot.2 slot.1) :
      Refuses (.tuple exprs) (.list items)
  | key {key element : TypeExpr} {entries : Value.Entries} {entry : Value × Value}
      (isEntry : entry ∈ entries) (refuses : Refuses key entry.1) :
      Refuses (.dict key element) (.object entries)
  | value {key element : TypeExpr} {entries : Value.Entries} {entry : Value × Value}
      (isEntry : entry ∈ entries) (refuses : Refuses element entry.2) :
      Refuses (.dict key element) (.object entries)

/-- A type without choices, none of which can stand for null. -/
inductive Unchosen : TypeExpr → Prop where
  | scalar (kind : ScalarKind) : Unchosen (.scalar kind)
  | collection (collection : Collection) (element : TypeExpr) :
      Unchosen (.collection collection element)
  | bareDict : Unchosen .bareDict
  | dict (key element : TypeExpr) : Unchosen (.dict key element)
  | record (key : ClassKey) : Unchosen (.record key)
  | optional {members : List TypeExpr} {inner : TypeExpr}
      (others : members.filter (!·.isNone) = [inner]) (unchosen : Unchosen inner) :
      Unchosen (.union members)

namespace Takes

variable {element : TypeExpr}

theorem list_of_aligned {items taken : List Value} (aligned : List.Forall₂ element.Takes items taken) :
    Takes (.collection .list element) (.list items) (.list taken) := by
  obtain ⟨sameLength, each⟩ := List.forall₂_iff_zip.mp aligned
  exact @collection .list element items taken sameLength (fun _ isPair => each isPair) nofun

/-- An object of named values is taken if the values are, with what is taken of them under their
names. -/
theorem dict_of_aligned {fields taken : Fields} (distinct : (fields.map Prod.fst).Nodup)
    (aligned : List.Forall₂ (fun field result => field.1 = result.1 ∧ element.Takes field.2 result.2)
      fields taken) :
    Takes (.dict (.scalar .string) element) (.ofFields fields) (.ofFields taken) := by
  have names : fields.map Prod.fst = taken.map Prod.fst :=
    map_eq_of_aligned aligned fun _ _ _ related => related.1
  obtain ⟨sameLength, each⟩ := List.forall₂_iff_zip.mp aligned
  have named (pair) (isPair : pair ∈ (Value.entriesOf fields).zip (Value.entriesOf taken)) :
      ∃ slot ∈ fields.zip taken, ((.str slot.1.1, slot.1.2), (.str slot.2.1, slot.2.2)) = pair := by
    rw [Value.entriesOf, Value.entriesOf, List.zip_map] at isPair
    exact List.mem_map.mp isPair
  refine @dict _ _ _ (Value.entriesOf taken) (by simp [Value.entriesOf, sameLength])
    (fun pair isPair => ?_) (fun pair isPair => ?_) (List.forall_mem_map.mpr fun _ _ => rfl) ?_
  · obtain ⟨slot, isSlot, rfl⟩ := named pair isPair
    rw [(each isSlot).1]
    exact .scalar rfl
  · obtain ⟨slot, isSlot, rfl⟩ := named pair isPair
    exact (each isSlot).2
  · rw [Value.keys_entriesOf]
    exact Value.apart_texts (names ▸ distinct)

end Takes

end TypeExpr

/-! ## Laws -/

/-- The object of the values that are given for the fields of a class, under their wire names. -/
def RecordClass.offering (cls : RecordClass) (given : List Value) : Value :=
  .ofFields ((cls.fields.map (·.wireName)).zip given)

namespace ClassLibrary

/-- What is made of an object is an instance of the class asked for. -/
def MakesInstances (library : ClassLibrary) : Prop :=
  ∀ {catalog : Catalog} {key : ClassKey} {entries : Value.Entries} {value : Value},
    library.validate catalog key (.object entries) = .ok value →
      ∃ tag fields, value = .record tag fields ∧ tag.key = key

/-- A class makes of values that have the types of its fields the instance that holds exactly these,
if the fields permit them and nothing is left to be declared. -/
def KeepsValues (library : ClassLibrary) : Prop :=
  ∀ {catalog : Catalog} {key : ClassKey} {cls : RecordClass} {values : List Value},
    key ≠ .base → catalog.get? key = some cls → catalog.undeclared? key = none →
    (cls.fields.map (·.wireName)).Nodup → (∀ field ∈ cls.fields, field.type.Portable catalog) →
    values.length = cls.fields.length →
    (∀ slot ∈ cls.fields.zip values, HasType library catalog slot.1.type slot.2) →
    (∀ slot ∈ cls.fields.zip values, library.Permits slot.1 slot.2) →
      library.validate catalog key (cls.offering values) = .ok (cls.holding values)

/-- No class has a field whose name starts with an underscore. -/
def ObjectsToUnderscores (library : ClassLibrary) : Prop :=
  ∀ {fields : List ClassField} {field : ClassField}, field ∈ fields →
    field.name.toList.head? = some '_' → library.objection? fields ≠ none

/-- The classes of a library hold what the types of their fields take. -/
structure TakesValues (library : ClassLibrary) : Prop where
  /-- Each field of an instance that is made holds what its type takes of the value that is given for
  it. Null is held as null, unless it may stand for a choice. -/
  holds : ∀ {catalog : Catalog} {key : ClassKey} {cls : RecordClass} {given : List Value}
    {value : Value}, catalog.get? key = some cls → (cls.fields.map (·.wireName)).Nodup →
    given.length = cls.fields.length →
    library.validate catalog key (cls.offering given) = .ok value →
      ∃ held, value = cls.holding held ∧ held.length = cls.fields.length ∧
        List.Forall₂ (fun given (slot : ClassField × Value) =>
          (∀ taken, slot.1.type.Takes given taken → slot.2 = taken) ∧
            (given = .null → slot.1.type.Unchosen → slot.2 = .null)) given (cls.fields.zip held)
  /-- An instance is made of values that the types of the fields take, if the fields permit what is
  taken and nothing is left to be declared. -/
  makes : ∀ {catalog : Catalog} {key : ClassKey} {cls : RecordClass} {given held : List Value},
    key ≠ .base → catalog.get? key = some cls → catalog.undeclared? key = none →
    (cls.fields.map (·.wireName)).Nodup → held.length = cls.fields.length →
    List.Forall₂ (fun given (slot : ClassField × Value) => slot.1.type.Takes given slot.2) given
      (cls.fields.zip held) →
    (∀ slot ∈ cls.fields.zip held, library.Permits slot.1 slot.2) →
      library.validate catalog key (cls.offering given) = .ok (cls.holding held)

/-- No instance is made where the type of a field refuses what is given for it. -/
def RefusesValues (library : ClassLibrary) : Prop :=
  ∀ {catalog : Catalog} {key : ClassKey} {cls : RecordClass} {given : List Value} {value : Value},
    catalog.get? key = some cls → (cls.fields.map (·.wireName)).Nodup →
    given.length = cls.fields.length →
    (∃ slot ∈ cls.fields.zip given, slot.1.type.Refuses slot.2) →
      library.validate catalog key (cls.offering given) ≠ .ok value

theorem permits_of_unlimited {library : ClassLibrary} {field : ClassField}
    (unlimited : field.limits = .none) (value : Value) : library.Permits field value :=
  .inl unlimited

end ClassLibrary

/-! ## Values that have the types of their fields -/

/-- A portable type takes its own values as they are. -/
theorem HasType.takes {library : ClassLibrary} {catalog : Catalog} {expr : TypeExpr} {value : Value}
    (typed : HasType library catalog expr value) (portable : expr.Portable catalog) :
    expr.Takes value value := by
  induction typed with
  | scalar admits => cases admits <;> exact .scalar rfl
  | enum isMember => exact .enum isMember
  | literal isChoice =>
      cases portable with
      | literal primitive => exact .literal primitive isChoice
  | list _ ih =>
      cases portable with
      | list elementPortable =>
          exact .list_of_aligned (List.forall₂_same.mpr fun item isItem =>
            ih item isItem elementPortable)
  | dict distinct _ ih =>
      cases portable with
      | dict elementPortable =>
          exact .dict_of_aligned distinct (List.forall₂_same.mpr fun field isField =>
            ⟨rfl, ih field isField elementPortable⟩)
  | null nullable => exact .absent nullable
  | @member members member value isMember typed ih =>
      cases portable with
      | @optional _ inner others _ innerPortable =>
          rcases TypeExpr.eq_none_or_mem_others isMember with rfl | isOther
          · cases typed
          · rw [others, List.mem_singleton] at isOther
            subst isOther
            exact .present others (ih innerPortable)
      | @union _ classes others =>
          rcases TypeExpr.eq_none_or_mem_others isMember with rfl | isOther
          · cases typed
          · rw [others, List.mem_map] at isOther
            obtain ⟨choice, isChoice, rfl⟩ := isOther
            cases typed with
            | @record _ cls values found =>
                have others :=
                  others.trans (@List.map_map _ _ _ TypeExpr.record RecordClass.key classes).symm
                refine .variant others ?_ _
                rw [RecordClass.tag, Catalog.key_of_get? found]
                exact List.mem_map_of_mem isChoice
  | @record key cls values found _ _ _ _ _ =>
      obtain rfl : cls.tag.key = key := Catalog.key_of_get? found
      exact .record _

theorem ClassLibrary.TakesValues.keepsValues {library : ClassLibrary}
    (takesValues : library.TakesValues) : library.KeepsValues := by
  intro catalog key cls values proper found settled names portable complete typed permits
  have isHeld : (cls.fields.zip values).map Prod.snd = values := List.map_snd_zip complete.le
  have takes : List.Forall₂ (fun given (slot : ClassField × Value) => slot.1.type.Takes given slot.2)
      ((cls.fields.zip values).map Prod.snd) (cls.fields.zip values) := by
    rw [List.forall₂_map_left_iff, List.forall₂_same]
    exact fun slot isSlot => (typed slot isSlot).takes (portable slot.1 (List.of_mem_zip isSlot).1)
  rw [isHeld] at takes
  exact takesValues.makes proper found settled names complete takes permits

end TypedReply
