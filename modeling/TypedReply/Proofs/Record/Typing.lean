import TypedReply.Plain
import TypedReply.Proofs.Calendar.IsoText
import TypedReply.Record.Library
import TypedReply.Schema.Fields

/-!
# Values that have their annotated types

Portable types are those whose values can be told apart in plain data. A value has such a type if it
and whatever is inside is exactly of the declared kinds, enumerations and classes.
-/

namespace TypedReply

/-! ## Types -/

/-- An enumeration whose members carry different texts without blanks at their ends. -/
def EnumClass.IsTextual (cls : EnumClass) : Prop :=
  ∃ texts : List String, cls.members.map Prod.snd = texts.map .str ∧ texts.Nodup ∧
    ∀ text ∈ texts, Text.trim text.toList = text.toList

namespace TypeExpr

/-- The types whose values can be told apart in plain data: scalars, textual enumerations, literals
of Booleans, integers and texts, lists, objects with text keys, classes of the catalog, any one of
these or null, and unions of classes with different names. A class that a tag has to select is tagged
by its own name. -/
inductive Portable (catalog : Catalog) : TypeExpr → Prop where
  | scalar (kind : ScalarKind) : Portable catalog (.scalar kind)
  | enum {cls : EnumClass} (textual : cls.IsTextual) : Portable catalog (.enum cls)
  | literal {values : List Value} (primitive : ∀ value ∈ values, value.isPrimitive = true) :
      Portable catalog (.literal values)
  | list {element : TypeExpr} (portable : Portable catalog element) :
      Portable catalog (.collection .list element)
  | dict {element : TypeExpr} (portable : Portable catalog element) :
      Portable catalog (.dict (.scalar .string) element)
  | record {key : ClassKey} {cls : RecordClass} (found : catalog.get? key = some cls) :
      Portable catalog (.record key)
  | optional {members : List TypeExpr} {inner : TypeExpr}
      (others : members.filter (!·.isNone) = [inner]) (nullable : members.any isNone = true)
      (portable : Portable catalog inner) (flat : ∀ nested, inner ≠ .union nested)
      (tagged : ∀ key cls, inner = .record key → catalog.get? key = some cls → cls.name ≠ "" →
        Plain.tagName cls.tag = cls.name) :
      Portable catalog (.union members)
  | union {members : List TypeExpr} {classes : List RecordClass}
      (others : members.filter (!·.isNone) = classes.map fun cls => .record cls.key)
      (several : 1 < classes.length)
      (found : ∀ cls ∈ classes, catalog.get? cls.key = some cls)
      (distinct : (classes.map (·.name)).Nodup) (named : ∀ cls ∈ classes, cls.name ≠ "")
      (tagged : ∀ cls ∈ classes, Plain.tagName cls.tag = cls.name) :
      Portable catalog (.union members)

theorem eq_none_or_mem_others {members : List TypeExpr} {member : TypeExpr}
    (isMember : member ∈ members) : member = .none ∨ member ∈ members.filter (!·.isNone) := by
  cases isNone : member.isNone with
  | true => cases member <;> first | exact .inl rfl | cases isNone
  | false => exact .inr (List.mem_filter.mpr ⟨isMember, by simp [isNone]⟩)

/-- What is alone beside null in a portable union is portable, and no union itself. -/
theorem Portable.of_single {catalog : Catalog} {members : List TypeExpr} {inner : TypeExpr}
    (portable : Portable catalog (.union members))
    (single : members.filter (!·.isNone) = [inner]) :
    Portable catalog inner ∧ (∀ nested, inner ≠ .union nested) ∧
      ∀ key cls, inner = .record key → catalog.get? key = some cls → cls.name ≠ "" →
        Plain.tagName cls.tag = cls.name := by
  cases portable with
  | optional others _ portable flat tagged =>
      obtain rfl := List.singleton_inj.mp (others.symm.trans single)
      exact ⟨portable, flat, tagged⟩
  | union others several =>
      have length := congrArg List.length (others.symm.trans single)
      rw [List.length_map, List.length_singleton] at length
      omega

/-- Several classes in a portable union are told apart by their names. -/
theorem Portable.of_several {catalog : Catalog} {members : List TypeExpr} {keys : List ClassKey}
    (portable : Portable catalog (.union members))
    (others : members.filter (!·.isNone) = keys.map .record) (several : 1 < keys.length) :
    ∃ classes : List RecordClass, keys = classes.map (·.key) ∧
      (∀ cls ∈ classes, catalog.get? cls.key = some cls) ∧ (classes.map (·.name)).Nodup ∧
      (∀ cls ∈ classes, cls.name ≠ "") ∧ ∀ cls ∈ classes, Plain.tagName cls.tag = cls.name := by
  cases portable with
  | optional single =>
      have length := congrArg List.length (others.symm.trans single)
      rw [List.length_map, List.length_singleton] at length
      omega
  | @union _ classes same _ found distinct named tagged =>
      refine ⟨classes, ?_, found, distinct, named, tagged⟩
      apply (List.map_inj_right fun _ _ same => TypeExpr.record.inj same).mp
      rw [← others, same, List.map_map]
      rfl

theorem unresolvedNamesOf_eq_nil {exprs : List TypeExpr}
    (each : ∀ expr ∈ exprs, expr.unresolvedNames = []) : unresolvedNamesOf exprs = [] := by
  induction exprs with
  | nil => rfl
  | cons expr rest ih =>
      rw [unresolvedNamesOf, each expr List.mem_cons_self,
        ih fun other isLater => each other (List.mem_cons_of_mem _ isLater), List.append_nil]

theorem Portable.unresolvedNames {catalog : Catalog} {expr : TypeExpr}
    (portable : expr.Portable catalog) : expr.unresolvedNames = [] := by
  induction portable with
  | list _ ih => exact ih
  | dict _ ih => exact ih
  | optional others _ _ _ _ ih =>
      refine unresolvedNamesOf_eq_nil fun member isMember => ?_
      rcases eq_none_or_mem_others isMember with rfl | isOther
      · rfl
      · rw [others, List.mem_singleton] at isOther
        exact isOther ▸ ih
  | union others =>
      refine unresolvedNamesOf_eq_nil fun member isMember => ?_
      rcases eq_none_or_mem_others isMember with rfl | isOther
      · rfl
      · rw [others, List.mem_map] at isOther
        obtain ⟨cls, -, rfl⟩ := isOther
        rfl
  | _ => rfl

theorem mem_classKeysOf {exprs : List TypeExpr} {key : ClassKey} (mentioned : key ∈ classKeysOf exprs) :
    ∃ expr ∈ exprs, key ∈ expr.classKeys := by
  induction exprs with
  | nil => cases mentioned
  | cons expr rest ih =>
      rcases List.mem_append.mp mentioned with isFirst | isLater
      · exact ⟨expr, List.mem_cons_self, isFirst⟩
      · obtain ⟨other, isOther, mentions⟩ := ih isLater
        exact ⟨other, List.mem_cons_of_mem _ isOther, mentions⟩

theorem mem_classKeysOf_of_mem {exprs : List TypeExpr} {expr : TypeExpr} (isExpr : expr ∈ exprs)
    {key : ClassKey} (mentions : key ∈ expr.classKeys) : key ∈ classKeysOf exprs := by
  induction exprs with
  | nil => cases isExpr
  | cons first exprs ih =>
      rcases List.mem_cons.mp isExpr with rfl | isLater
      · exact List.mem_append_left _ mentions
      · exact List.mem_append_right _ (ih isLater)

end TypeExpr

/-- A class whose fields have portable types, go by different names other than that of the tag, and
have no factory that fails. -/
structure RecordClass.Portable (catalog : Catalog) (cls : RecordClass) : Prop where
  types : ∀ field ∈ cls.fields, field.type.Portable catalog
  names : (typeKey :: cls.fields.map (·.wireName)).Nodup
  defaults : ∀ field ∈ cls.fields, ∃ default, field.presence.fallback = .ok default

def Catalog.Portable (catalog : Catalog) : Prop :=
  ∀ key cls, catalog.get? key = some cls → cls.Portable catalog

/-! ## Values -/

/-- A scalar of a kind; its text is legible where it is written as one. -/
inductive ScalarKind.Admits : ScalarKind → Value → Prop where
  | string (text : String) : Admits .string (.str text)
  | int (n : Int) : Admits .int (.int n)
  | float (x : Double) : Admits .float (.float x)
  | bool (b : Bool) : Admits .bool (.bool b)
  | date (d : Date) : Admits .date (.date d)
  | datetime {t : DateTime} (legible : t.IsLegible) : Admits .datetime (.datetime t)

/-- A field that has limits only permits values that are within them. -/
def ClassLibrary.Permits (library : ClassLibrary) (field : ClassField) (value : Value) : Prop :=
  field.limits = .none ∨ library.allows field value = true

/-- The instance of a class that holds a value in each field. -/
def RecordClass.holding (cls : RecordClass) (values : List Value) : Value :=
  .record cls.tag ((cls.fields.map (·.tag)).zip values)

/-- A value has a type: members, instances and whatever is inside are exactly of the declared
enumerations and classes. The class that all others extend has no instances of its own. -/
inductive HasType (library : ClassLibrary) (catalog : Catalog) : TypeExpr → Value → Prop where
  | scalar {kind : ScalarKind} {value : Value} (admits : kind.Admits value) :
      HasType library catalog (.scalar kind) value
  | enum {cls : EnumClass} {entry : String × Value} (isMember : entry ∈ cls.members) :
      HasType library catalog (.enum cls) (cls.toValue entry)
  | literal {values : List Value} {value : Value} (isChoice : value ∈ values) :
      HasType library catalog (.literal values) value
  | list {element : TypeExpr} {items : List Value}
      (each : ∀ item ∈ items, HasType library catalog element item) :
      HasType library catalog (.collection .list element) (.list items)
  | dict {element : TypeExpr} {fields : Fields} (distinct : (fields.map Prod.fst).Nodup)
      (each : ∀ field ∈ fields, HasType library catalog element field.2) :
      HasType library catalog (.dict (.scalar .string) element) (.ofFields fields)
  | null {members : List TypeExpr} (nullable : members.any TypeExpr.isNone = true) :
      HasType library catalog (.union members) .null
  | member {members : List TypeExpr} {member : TypeExpr} {value : Value}
      (isMember : member ∈ members) (typed : HasType library catalog member value) :
      HasType library catalog (.union members) value
  | record {key : ClassKey} {cls : RecordClass} {values : List Value}
      (found : catalog.get? key = some cls) (complete : values.length = cls.fields.length)
      (each : ∀ entry ∈ cls.fields.zip values, HasType library catalog entry.1.type entry.2)
      (allowed : ∀ entry ∈ cls.fields.zip values, library.Permits entry.1 entry.2)
      (proper : key ≠ .base) :
      HasType library catalog (.record key) (.record cls.tag ((cls.fields.map (·.tag)).zip values))

theorem Catalog.key_of_get? {catalog : Catalog} {key : ClassKey} {cls : RecordClass}
    (found : catalog.get? key = some cls) : cls.key = key := by
  cases key with
  | base => cases found; rfl
  | anonymous => cases found; rfl
  | declared number => simpa using List.find?_some found

/-- A class that is found is built in or declared. -/
theorem Catalog.forall_get? {catalog : Catalog} {property : RecordClass → Prop}
    (base : property baseClass) (anonymous : property anonymousClass)
    (declared : ∀ cls ∈ catalog, property cls) {key : ClassKey} {cls : RecordClass}
    (found : catalog.get? key = some cls) : property cls := by
  cases key with
  | base => cases found; exact base
  | anonymous => cases found; exact anonymous
  | declared number => exact declared cls (List.mem_of_find?_eq_some found)

/-- The classes that are reached are of a set of keys that holds the pending ones and all that its
classes mention. -/
theorem Catalog.exists_get?_of_mem_reach {catalog : Catalog} {known : ClassKey → Prop}
    (closed : ∀ key cls, known key → catalog.get? key = some cls →
      ∀ other ∈ cls.classKeys, known other)
    (fuel : Nat) {pending : List ClassKey} (start : ∀ key ∈ pending, known key)
    {reached : List RecordClass}
    (each : ∀ cls ∈ reached, ∃ key, known key ∧ catalog.get? key = some cls) :
    ∀ cls ∈ catalog.reach fuel pending reached, ∃ key, known key ∧ catalog.get? key = some cls := by
  fun_induction Catalog.reach catalog fuel pending reached with
  | case1 => exact each
  | case2 => exact each
  | case3 fuel key pending reached cls found new ih =>
      obtain ⟨isKnown, others⟩ := List.forall_mem_cons.mp start
      apply ih
      · intro other isPending
        rcases List.mem_append.mp isPending with isMentioned | isOld
        · exact closed key cls isKnown found other isMentioned
        · exact others other isOld
      · intro other isReached
        rcases List.mem_append.mp isReached with isOld | isNew
        · exact each other isOld
        · exact ⟨key, isKnown, List.mem_singleton.mp isNew ▸ found⟩
  | case4 _ _ _ _ _ ih => exact ih (List.forall_mem_cons.mp start).2 each

theorem Catalog.Portable.undeclared? {catalog : Catalog} (portable : catalog.Portable)
    (key : ClassKey) : catalog.undeclared? key = none := by
  rw [Catalog.undeclared?, List.findSome?_eq_none_iff]
  intro cls isReached
  obtain ⟨found, -, isFound⟩ := @exists_get?_of_mem_reach catalog (fun _ => True)
    (fun _ _ _ _ _ _ => trivial) _ [key] (fun _ _ => trivial) [] (by simp) cls isReached
  have settled : cls.unresolvedNames = [] := by
    refine TypeExpr.unresolvedNamesOf_eq_nil fun expr isType => ?_
    obtain ⟨field, isField, rfl⟩ := List.mem_map.mp isType
    exact ((portable found cls isFound).types field isField).unresolvedNames
  rw [settled]
  rfl

end TypedReply
