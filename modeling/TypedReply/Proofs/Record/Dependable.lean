import TypedReply.Proofs.Outcome
import TypedReply.Proofs.Record.Typing
import TypedReply.Proofs.Value.Tame
import Mathlib.Logic.Relation

/-!
# Classes to depend on

A dependable class leads only to classes that can be constructed: every name is declared, defaults
can be made, and objects are asked only for keys that can be keys. What a library makes of a tame value
for such a class is an assumption about the library: it takes the value or refuses it, without a fault.
-/

namespace TypedReply

/-! ## Types -/

/-- An enumeration whose members carry what can be a key. -/
def EnumClass.CarriesKeys (cls : EnumClass) : Prop := ∀ entry ∈ cls.members, entry.2.IsKey

/-- Whether a collection can be a key if its items can. -/
def Collection.isHashable : Collection → Bool
  | .tuple => true
  | .frozenset => true
  | _ => false

namespace TypeExpr

/-- The type expressions that leave nothing to be declared later and ask for keys only where there
can be any; whatever they admit can be a key itself where that is asked for. -/
inductive IsSafe : Bool → TypeExpr → Prop where
  | none {asKey : Bool} : IsSafe asKey .none
  | any {asKey : Bool} : IsSafe asKey .any
  | complex {asKey : Bool} : IsSafe asKey .complex
  | bytes {asKey : Bool} : IsSafe asKey .bytes
  | object {asKey : Bool} : IsSafe asKey .object
  | scalar {asKey : Bool} (kind : ScalarKind) : IsSafe asKey (.scalar kind)
  | bare {asKey : Bool} {kind : Collection} (usable : asKey = true → kind.isHashable = true) :
      IsSafe asKey (.bare kind)
  | collection {asKey : Bool} {kind : Collection} {element : TypeExpr}
      (usable : asKey = true → kind.isHashable = true) (safe : IsSafe asKey element) :
      IsSafe asKey (.collection kind element)
  | tuple {asKey : Bool} {items : List TypeExpr} (each : ∀ item ∈ items, IsSafe asKey item) :
      IsSafe asKey (.tuple items)
  | bareDict : IsSafe false .bareDict
  | dict {key value : TypeExpr} (safeKey : IsSafe true key) (safeValue : IsSafe false value) :
      IsSafe false (.dict key value)
  | union {asKey : Bool} {members : List TypeExpr}
      (each : ∀ member ∈ members, IsSafe asKey member) : IsSafe asKey (.union members)
  | literal {asKey : Bool} {values : List Value} (keys : ∀ value ∈ values, value.IsKey) :
      IsSafe asKey (.literal values)
  | annotated {asKey : Bool} {inner : TypeExpr} (safe : IsSafe asKey inner) :
      IsSafe asKey (.annotated inner)
  | enum {asKey : Bool} {cls : EnumClass} (keys : cls.CarriesKeys) : IsSafe asKey (.enum cls)
  | record (key : ClassKey) : IsSafe false (.record key)

theorem IsSafe.unresolvedNames {asKey : Bool} {expr : TypeExpr} (safe : expr.IsSafe asKey) :
    expr.unresolvedNames = [] := by
  induction safe with
  | collection _ _ ih => exact ih
  | tuple _ ih => exact unresolvedNamesOf_eq_nil ih
  | dict _ _ ihKey ihValue => rw [TypeExpr.unresolvedNames, ihKey, ihValue, List.append_nil]
  | union _ ih => exact unresolvedNamesOf_eq_nil ih
  | annotated _ ih => exact ih
  | _ => rfl

end TypeExpr

/-- A class with safe types and defaults that can be made. -/
structure RecordClass.IsSafe (cls : RecordClass) : Prop where
  types : ∀ field ∈ cls.fields, field.type.IsSafe false
  defaults : ∀ field ∈ cls.fields, ∃ default, field.presence.fallback = .ok default ∧
    ∀ value, default = some value → value.IsTame

namespace Catalog

/-- A class mentions another in the types of its fields. -/
def Mentions (catalog : Catalog) (key other : ClassKey) : Prop :=
  ∃ cls, catalog.get? key = some cls ∧ other ∈ cls.classKeys

/-- All classes that a class leads to are safe. -/
def Dependable (catalog : Catalog) (key : ClassKey) : Prop :=
  ∀ other cls, Relation.ReflTransGen catalog.Mentions key other → catalog.get? other = some cls →
    cls.IsSafe

theorem Dependable.of_mentions {catalog : Catalog} {key other : ClassKey}
    (dependable : catalog.Dependable key) (mentioned : catalog.Mentions key other) :
    catalog.Dependable other :=
  fun last cls leadsTo => dependable last cls (.head mentioned leadsTo)

theorem Dependable.undeclared? {catalog : Catalog} {key : ClassKey}
    (dependable : catalog.Dependable key) : catalog.undeclared? key = none := by
  rw [Catalog.undeclared?, List.findSome?_eq_none_iff]
  intro cls isReached
  have closed : ∀ other cls, Relation.ReflTransGen catalog.Mentions key other →
      catalog.get? other = some cls → ∀ last ∈ cls.classKeys,
        Relation.ReflTransGen catalog.Mentions key last :=
    fun _ cls leadsTo found _ isMentioned => leadsTo.tail ⟨cls, found, isMentioned⟩
  obtain ⟨found, leadsTo, isFound⟩ := exists_get?_of_mem_reach closed _
    (List.forall_mem_singleton.mpr .refl) (by simp) cls isReached
  have safe : cls.IsSafe := dependable found cls leadsTo isFound
  have settled : cls.unresolvedNames = [] := by
    refine TypeExpr.unresolvedNamesOf_eq_nil fun expr isType => ?_
    obtain ⟨field, isField, rfl⟩ := List.mem_map.mp isType
    exact (safe.types field isField).unresolvedNames
  rw [settled]
  rfl

end Catalog

/-! ## What is assumed of a library -/

/-- A rejection that refuses a tame value. -/
def Rejection.IsTame : Rejection → Prop
  | .refused refusal => refusal.received.IsTame
  | .fault _ => False

/-- A dependable class makes a tame instance of a tame value, or refuses something tame. The class
that all others extend is not asked for instances. -/
def ClassLibrary.TakesOrRefuses (library : ClassLibrary) : Prop :=
  ∀ {catalog : Catalog} {key : ClassKey} {value : Value}, key ≠ .base → catalog.Dependable key →
    value.IsTame → Meets (library.validate catalog key value) Value.IsTame Rejection.IsTame

end TypedReply
