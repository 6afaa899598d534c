import TypedReply.Proofs.Registry.Depth
import TypedReply.Proofs.Registry.Integrity

/-!
# Structs that mirror classes

In a registry in which nothing has failed, a class has at most one struct, and a struct that was
derived mirrors its class: it has a field for each of the class, in order, in whose type every class
stands as the one struct of that class. A class is entered before its fields are derived, so what
holds of all entries holds but for those in progress until they are sealed.
-/

namespace TypedReply

namespace Catalog

/-- A class and those that it leads to are in the catalog, and mention no name that is still to be
declared. -/
def IsSettled (catalog : Catalog) (key : ClassKey) : Prop :=
  ∀ other, Relation.ReflTransGen catalog.Needs key other →
    ∃ cls, catalog.get? other = some cls ∧ cls.unresolvedNames = []

theorem IsSettled.of_needs {catalog : Catalog} {key other : ClassKey} (settled : catalog.IsSettled key)
    (needs : catalog.Needs key other) : catalog.IsSettled other :=
  fun further leads => settled further (.head needs leads)

/-- Declared classes that mention one another and no others, and no name that is still to be declared,
and whose defaults can be made. -/
structure IsFamily (catalog : Catalog) (keys : List ClassKey) : Prop where
  declared : ∀ key ∈ keys, ∃ cls, catalog.get? key = some cls ∧ cls.unresolvedNames = [] ∧
    (∀ other ∈ cls.classKeys, other ∈ keys) ∧ ∀ field ∈ cls.fields, field.presence ≠ .made .failing

namespace IsFamily

variable {catalog : Catalog} {keys : List ClassKey} {key other : ClassKey}

theorem mem_of_needs (family : catalog.IsFamily keys) (isKey : key ∈ keys)
    (needs : catalog.Needs key other) : other ∈ keys := by
  obtain ⟨cls, found, -, mentions, -⟩ := family.declared key isKey
  cases needs with
  | field isFound isField needs =>
      cases found.symm.trans isFound
      apply mentions
      exact TypeExpr.mem_classKeysOf_of_mem (List.mem_map_of_mem isField) needs.mem_classKeys

theorem isSettled (family : catalog.IsFamily keys) (isKey : key ∈ keys) : catalog.IsSettled key := by
  intro other leads
  have isOther : other ∈ keys := by
    induction leads with
    | refl => exact isKey
    | tail _ needs ih => exact family.mem_of_needs ih needs
  obtain ⟨cls, found, settled, -⟩ := family.declared other isOther
  exact ⟨cls, found, settled⟩

theorem not_fails (family : catalog.IsFamily keys) (isKey : key ∈ keys) : ¬catalog.Fails key := by
  intro fails
  induction fails with
  | own found isField isFailing =>
      obtain ⟨cls, isFound, -, -, makes⟩ := family.declared _ isKey
      cases isFound.symm.trans found
      exact makes _ isField isFailing
  | needed needs _ ih => exact ih (family.mem_of_needs isKey needs)

end IsFamily

/-- The declared classes have keys that were given out. -/
def IsNumbered (catalog : Catalog) : Prop :=
  ∀ cls ∈ catalog, ∀ number, cls.key = .declared number → number < catalog.length

theorem IsNumbered.settle {catalog : Catalog} (numbered : catalog.IsNumbered) (scope : Scope) :
    IsNumbered (catalog.map (·.settle scope)) := by
  intro cls isSettled number isNumber
  obtain ⟨before, isClass, rfl⟩ := List.mem_map.mp isSettled
  rw [RecordClass.key_settle] at isNumber
  rw [List.length_map]
  exact numbered before isClass number isNumber

theorem IsNumbered.cons {catalog : Catalog} (numbered : catalog.IsNumbered) {cls : RecordClass}
    (isNew : cls.key = catalog.nextKey) : IsNumbered (cls :: catalog) := by
  intro other isClass number isNumber
  rw [List.length_cons]
  rcases List.mem_cons.mp isClass with rfl | isOld
  · rw [isNew] at isNumber
    cases isNumber
    exact Nat.lt_succ_self _
  · exact Nat.lt_succ_of_lt (numbered other isOld number isNumber)

end Catalog

namespace Registry

variable {registry before after : Registry} {exempt : List ClassKey} {key : ClassKey} {id : StructId}

theorem knows_of_get? (numbered : registry.catalog.IsNumbered) {cls : RecordClass}
    (found : registry.catalog.get? key = some cls) : registry.Knows key := by
  intro number isNumber
  subst isNumber
  exact numbered cls (List.mem_of_find?_eq_some found) number (Catalog.key_of_get? found)

/-! ## Mirrored classes -/

/-- A struct mirrors a class: it is named and documented like the class, and has a field for each of
the class in order. -/
def Mirrors (registry : Registry) (key : ClassKey) (id : StructId) : Prop :=
  ∃ cls fields, registry.catalog.get? key = some cls ∧ cls.unresolvedNames = [] ∧
    registry.structs.at id = { unsealed registry.library key cls with fields } ∧
    List.Forall₂ (ClassField.MirroredBy registry) cls.fields fields

theorem Mirrors.mono (mirrors : before.Mirrors key id)
    (keeps : ∀ key id, before.structOf? key = some id → after.structOf? key = some id)
    (finds : ∀ cls, before.catalog.get? key = some cls → cls.unresolvedNames = [] →
      after.catalog.get? key = some cls)
    (same : after.structs.at id = before.structs.at id)
    (library : after.library = before.library) : after.Mirrors key id := by
  obtain ⟨cls, fields, found, settled, isStruct, aligned⟩ := mirrors
  refine ⟨cls, fields, finds cls found settled, settled, library ▸ same.trans isStruct, ?_⟩
  exact aligned.imp fun _ _ mirrored => mirrored.mono keeps

theorem Mirrors.exists_struct (mirrors : registry.Mirrors key id) {other : ClassKey}
    (needs : registry.catalog.Needs key other) : ∃ place, registry.structOf? other = some place := by
  obtain ⟨cls, fields, found, -, -, aligned⟩ := mirrors
  cases needs with
  | field isFound isField needs =>
      cases found.symm.trans isFound
      obtain ⟨_, -, mirrored⟩ := exists_right_of_mem aligned isField
      exact mirrored.type.exists_struct needs

/-- The classes of a registry are those of its structs, one for one, and but for some the structs mirror
their classes. -/
structure MirrorsExcept (registry : Registry) (exempt : List ClassKey) : Prop where
  numbered : registry.catalog.IsNumbered
  known : ∀ key id, registry.structOf? key = some id → registry.Knows key
  own : ∀ key id, registry.structOf? key = some id ↔ (registry.structs.at id).cls = some key
  mirrors : ∀ key id, registry.structOf? key = some id → key ∉ exempt → registry.Mirrors key id

/-- Of classes that mention one another and no others, each one with a struct is mirrored by it. -/
theorem MirrorsExcept.exists_mirrored {keys : List ClassKey} {property : RecordClass → Prop}
    (mirrors : registry.MirrorsExcept exempt)
    (family : ∀ key ∈ keys, ∃ cls, registry.catalog.get? key = some cls ∧ property cls ∧
      ∀ other ∈ cls.classKeys, other ∈ keys)
    (derived : ∀ key ∈ keys, key ∉ exempt) (isKey : key ∈ keys)
    (entered : registry.structOf? key = some id) :
    ∃ cls fields, registry.catalog.get? key = some cls ∧ cls.key = key ∧ property cls ∧
      (∀ other ∈ cls.classKeys, other ∈ keys) ∧
      registry.structs.at id = { unsealed registry.library key cls with fields } ∧
      List.Forall₂ (ClassField.MirroredBy registry) cls.fields fields := by
  obtain ⟨cls, fields, found, -, isStruct, aligned⟩ :=
    mirrors.mirrors key id entered (derived key isKey)
  obtain ⟨_, isFound, holds, mentions⟩ := family key isKey
  cases found.symm.trans isFound
  exact ⟨cls, fields, found, Catalog.key_of_get? found, holds, mentions, isStruct, aligned⟩

theorem mirrors_fresh (library : ClassLibrary) : (fresh library).MirrorsExcept [] := by
  constructor
  · exact fun _ isClass => nomatch isClass
  · exact fun _ _ entered => nomatch entered
  · intro key id
    constructor
    · exact fun entered => nomatch entered
    · exact fun isClass => (Nat.not_lt_zero _ (lt_of_cls isClass)).elim
  · exact fun _ _ entered => nomatch entered

/-! ### Steps -/

/-- A registry with a struct added as the one of a class. -/
def withStruct (registry : Registry) (key : ClassKey) (struct : Struct) : Registry :=
  (registry.add struct).2.enterClass key (registry.add struct).1

theorem structOf?_withStruct (registry : Registry) (key other : ClassKey) (struct : Struct) :
    (registry.withStruct key struct).structOf? other =
      if other = key then some registry.structs.length else registry.structOf? other := by
  split
  next same =>
    subst same
    exact structOf?_enterClass_self _ _ _
  next different => exact structOf?_enterClass_of_ne _ _ different

/-- A class without a struct gets one, which need not mirror it. -/
theorem MirrorsExcept.withStruct (mirrors : registry.MirrorsExcept exempt)
    (unknown : registry.structOf? key = none) (known : registry.Knows key) (struct : Struct)
    (isClass : struct.cls = some key) :
    (registry.withStruct key struct).MirrorsExcept (key :: exempt) := by
  have longer : (registry.withStruct key struct).structs.length = registry.structs.length + 1 := by
    simp [Registry.withStruct, enterClass, add]
  have new : (registry.withStruct key struct).structs.at registry.structs.length = struct :=
    registry.at_add struct
  have old {place : StructId} (isOld : place < registry.structs.length) :
      (registry.withStruct key struct).structs.at place = registry.structs.at place :=
    registry.at_add_of_lt struct isOld
  have places {other : ClassKey} {place : StructId} (entered : registry.structOf? other = some place) :
      place < registry.structs.length := lt_of_cls ((mirrors.own other place).mp entered)
  have keeps (other : ClassKey) (place : StructId) (entered : registry.structOf? other = some place) :
      (registry.withStruct key struct).structOf? other = some place := by
    rw [structOf?_withStruct, if_neg (ne_of_entered unknown entered)]
    exact entered
  constructor
  · exact mirrors.numbered
  · intro other place entered
    rw [structOf?_withStruct] at entered
    split at entered
    next same => exact same ▸ known
    next => exact mirrors.known other place entered
  · intro other place
    rw [structOf?_withStruct]
    split
    next same =>
      subst same
      constructor
      · intro isNew
        rw [← Option.some.inj isNew, new, isClass]
      · intro isOther
        have bound := lt_of_cls isOther
        rw [longer] at bound
        rcases Nat.lt_succ_iff_lt_or_eq.mp bound with isOld | isNew
        · rw [old isOld] at isOther
          rw [(mirrors.own other place).mpr isOther] at unknown
          cases unknown
        · rw [isNew]
    next different =>
      constructor
      · intro entered
        rw [old (places entered)]
        exact (mirrors.own other place).mp entered
      · intro isOther
        have bound := lt_of_cls isOther
        rw [longer] at bound
        rcases Nat.lt_succ_iff_lt_or_eq.mp bound with isOld | isNew
        · rw [old isOld] at isOther
          exact (mirrors.own other place).mpr isOther
        · rw [isNew, new, isClass] at isOther
          exact (different (Option.some.inj isOther).symm).elim
  · intro other place entered notExempt
    rw [List.mem_cons, not_or] at notExempt
    rw [structOf?_withStruct, if_neg notExempt.1] at entered
    apply (mirrors.mirrors other place entered notExempt.2).mono keeps
    · exact fun _ found _ => found
    · exact old (places entered)
    · rfl

/-- Once its fields are set, a struct mirrors its class. -/
theorem MirrorsExcept.withFields (mirrors : registry.MirrorsExcept (key :: exempt))
    (entered : registry.structOf? key = some id) {cls : RecordClass}
    (found : registry.catalog.get? key = some cls) (settled : cls.unresolvedNames = [])
    (isStruct : registry.structs.at id = unsealed registry.library key cls) {fields : List Field}
    (aligned : List.Forall₂ (ClassField.MirroredBy registry) cls.fields fields) (name : String) :
    (registry.withFields id fields name).MirrorsExcept exempt := by
  have isClass := (mirrors.own key id).mp entered
  have own := at_withFields_self fields name (lt_of_cls isClass)
  have others {place : StructId} (different : place ≠ id) :
      (registry.withFields id fields name).structs.at place = registry.structs.at place :=
    at_withFields_of_ne fields name different
  have keeps (other : ClassKey) (place : StructId) (isEntered : registry.structOf? other = some place) :
      (registry.withFields id fields name).structOf? other = some place := isEntered
  constructor
  · exact mirrors.numbered
  · exact mirrors.known
  · intro other place
    have same : ((registry.withFields id fields name).structs.at place).cls =
        (registry.structs.at place).cls := by
      by_cases isOwn : place = id
      · rw [isOwn, own]
      · rw [others isOwn]
    rw [same]
    exact mirrors.own other place
  · intro other place isEntered notExempt
    by_cases isOwn : other = key
    · subst isOwn
      cases entered.symm.trans isEntered
      refine ⟨cls, fields, found, settled, ?_, ?_⟩
      · rw [own, isStruct]
        rfl
      · exact aligned.imp fun _ _ mirrored => mirrored.mono keeps
    · have notPlace : place ≠ id := by
        rintro rfl
        have isOther := (mirrors.own other place).mp isEntered
        exact isOwn (Option.some.inj (isOther.symm.trans isClass))
      apply (mirrors.mirrors other place isEntered (by simp [isOwn, notExempt])).mono keeps
      · exact fun _ isFound _ => isFound
      · exact others notPlace
      · rfl

/-- What is declared besides does not change the structs nor the classes that they mirror. -/
theorem MirrorsExcept.of_retains (mirrors : before.MirrorsExcept exempt)
    (retains : before.Retains after) (structs : after.structs = before.structs)
    (byClass : after.byClass = before.byClass) (numbered : after.catalog.IsNumbered) :
    after.MirrorsExcept exempt := by
  have same (key : ClassKey) : after.structOf? key = before.structOf? key := by
    rw [structOf?, byClass, structOf?]
  constructor
  · exact numbered
  · intro key id entered
    rw [same] at entered
    exact retains.knows (mirrors.known key id entered)
  · intro key id
    rw [same, structs]
    exact mirrors.own key id
  · intro key id entered notExempt
    rw [same] at entered
    apply (mirrors.mirrors key id entered notExempt).mono
    · intro other place isEntered
      rw [same]
      exact isEntered
    · exact fun cls found => retains.settled key cls (mirrors.known key id entered) found
    · rw [structs]
    · exact retains.library

/-! ## Deriving -/

theorem Proceeds.and_upholds {α : Type} {invariant kept : Registry → Prop} {action : Action α}
    {related : Registry → α → Prop} {failed : Registry → Prop}
    (proceeds : Proceeds invariant action related failed) (upholds : Upholds kept action) :
    Proceeds (fun registry => invariant registry ∧ kept registry) action related failed := by
  intro registry holds
  have proceeded := proceeds registry holds.1
  have upheld := upholds registry holds.2
  unfold Leaves at *
  split at proceeded
  next ran =>
    rw [ran] at upheld
    exact ⟨⟨proceeded.1, upheld⟩, proceeded.2⟩
  next ran => exact proceeded

/-- A registry of some classes that mirrors them but for some, and has fuel for those without a
struct. -/
structure Mirroring (catalog : Catalog) (exempt : List ClassKey) (fuel : Nat)
    (registry : Registry) : Prop where
  catalog : registry.catalog = catalog
  mirrors : registry.MirrorsExcept exempt
  enough : registry.missing.length ≤ fuel

/-- The struct of a settled class can be had unless a default cannot be made, and mirrors the class.
The induction is on the fuel: a class that is entered is one less to be entered below it. -/
theorem proceeds_derive {catalog : Catalog} {failed : Prop} (fuel : Nat) (exempt : List ClassKey)
    {key : ClassKey} (settled : catalog.IsSettled key) (fails : catalog.Fails key → failed) :
    Proceeds (Mirroring catalog exempt fuel) (derive fuel key)
      (fun after id => after.structOf? key = some id) fun _ => failed := by
  induction fuel generalizing exempt key with
  | zero =>
      intro registry mirroring
      obtain ⟨cls, found, -⟩ := settled key .refl
      cases entered : registry.structOf? key with
      | some id =>
          exact (leaves_derive_of_entered entered 0).mpr ⟨mirroring, .refl registry, entered⟩
      | none =>
          -- The class is among those without a struct, of which there is none left without fuel.
          have isMissing := mem_missing (mirroring.catalog ▸ found) entered
          have none := List.length_eq_zero_iff.mp (Nat.le_zero.mp mirroring.enough)
          rw [none] at isMissing
          cases isMissing
  | succ fuel ih =>
      intro registry mirroring
      obtain ⟨cls, found, isSettled⟩ := settled key .refl
      cases entered : registry.structOf? key with
      | some id =>
          exact (leaves_derive_of_entered entered _).mpr ⟨mirroring, .refl registry, entered⟩
      | none =>
          have isFound : registry.catalog.get? key = some cls := mirroring.catalog ▸ found
          have known := knows_of_get? mirroring.mirrors.numbered isFound
          have fewer := length_missing_withClass_lt cls entered isFound
          -- The class is exempt while its fields are described: its struct has none yet, and may be
          -- referred to already.
          have start : Mirroring catalog (key :: exempt) fuel (registry.withClass key cls) :=
            ⟨mirroring.catalog, mirroring.mirrors.withStruct entered known (unsealed _ key cls) rfl,
              Nat.le_of_lt_succ (Nat.lt_of_lt_of_le fewer mirroring.enough)⟩
          have each (field) (isField : field ∈ cls.fields) :
              Proceeds (fun between => Mirroring catalog (key :: exempt) fuel between ∧
                (registry.withClass key cls).Retains between) (fieldFrom (derive fuel) field)
                (fun after declared => field.MirroredBy after declared) fun _ => failed := by
            apply Proceeds.and_upholds
            · apply proceeds_mirroredField
              · intro other isNeeded
                have needs : catalog.Needs key other := .field found isField isNeeded
                exact ih (key :: exempt) (settled.of_needs needs) fun hasFailed =>
                  fails (.needed needs hasFailed)
              · exact fun isFailing _ _ => fails (.own found isField isFailing)
            · exact upholds_fieldFrom (upholds_derive _ fuel) field
          rw [leaves_derive_of_unknown entered isFound]
          apply (Proceeds.mapM lasts_mirroredField each _ ⟨start, .refl _⟩).imp
          · rintro fields between ⟨⟨derived, retains⟩, later, aligned⟩
            have isEntered := later.keeps key _ (structOf?_withClass_self cls)
            have isStruct : between.structs.at registry.structs.length =
                unsealed between.library key cls := by
              rw [retains.structs _ (by simp [length_structs_withClass]), at_withClass_self,
                later.library]
              rfl
            have finish := derived.mirrors.withFields isEntered (derived.catalog.symm ▸ found)
              isSettled isStruct aligned cls.name
            have same := between.extends_withFields registry.structs.length fields cls.name
            have extend := ((extends_withClass cls entered).trans later).trans same
            exact ⟨⟨derived.catalog, finish,
              Nat.le_trans extend.length_missing_le mirroring.enough⟩, extend, isEntered⟩
          · exact fun _ _ hasFailed => hasFailed

/-- The struct of a settled class can be had, unless a default cannot be made, from every registry that
mirrors its classes. -/
theorem proceeds_fromClass {catalog : Catalog} {failed : Prop} {key : ClassKey}
    (settled : catalog.IsSettled key) (fails : catalog.Fails key → failed) :
    Proceeds (fun registry => registry.catalog = catalog ∧ registry.MirrorsExcept exempt)
      (fromClass key) (fun after id => after.structOf? key = some id) fun _ => failed := by
  rintro registry ⟨sameCatalog, mirrors⟩
  rw [fromClass, leaves_bind, leaves_get]
  apply (proceeds_derive _ exempt settled fails registry
    ⟨sameCatalog, mirrors, registry.length_missing_le⟩).imp
  · rintro id after ⟨derived, extend, entered⟩
    exact ⟨⟨derived.catalog, derived.mirrors⟩, extend, entered⟩
  · exact fun _ _ hasFailed => hasFailed

end Registry

end TypedReply
