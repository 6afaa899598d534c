import TypedReply.Proofs.Descriptor.Reach
import TypedReply.Proofs.Registry.Description
import TypedReply.Reference.Library

/-!
# What failures leave of a registry

The struct of a class is entered before its fields are derived and taken out again if one of them
cannot be. Whatever was derived in between stays, and may refer to the struct that was taken out. So
the structs that a registry has, and those that they reach, are sealed and found by their classes,
but for orphans: structs without fields, of classes on a cycle that leads to a failing default.
-/

namespace TypedReply

/-! ## Classes that lead to others -/

namespace Catalog

variable {catalog : Catalog} {key other : ClassKey}

/-- The struct of a class needs that of another for one of its fields. -/
inductive Needs (catalog : Catalog) : ClassKey → ClassKey → Prop where
  | field {key other : ClassKey} {cls : RecordClass} {field : ClassField}
      (found : catalog.get? key = some cls) (isField : field ∈ cls.fields)
      (needs : field.type.Needs other) : Needs catalog key other

/-- The struct of a class needs that of another, or one that leads to it. -/
def LeadsTo (catalog : Catalog) : ClassKey → ClassKey → Prop :=
  Relation.TransGen (Needs catalog)

/-- A class has a default factory that fails, or needs a class that leads to one. -/
inductive Fails (catalog : Catalog) : ClassKey → Prop where
  | own {key : ClassKey} {cls : RecordClass} {field : ClassField}
      (found : catalog.get? key = some cls) (isField : field ∈ cls.fields)
      (fails : field.presence = .made .failing) : Fails catalog key
  | needed {key other : ClassKey} (needs : catalog.Needs key other)
      (fails : Fails catalog other) : Fails catalog key

def IsClosed (catalog : Catalog) : Prop :=
  ∀ key other, catalog.Needs key other → ∃ cls, catalog.get? other = some cls

theorem isClosed_of_declared (each : ∀ cls ∈ catalog, ∀ field ∈ cls.fields, ∀ other,
      field.type.Needs other → ∃ target, catalog.get? other = some target) : catalog.IsClosed := by
  rintro key other ⟨found, isField, needs⟩
  have each (cls) (isDeclared : cls ∈ catalog) (field) (isField : field ∈ cls.fields) :=
    each cls isDeclared field isField other
  exact @forall_get? catalog (fun cls => ∀ field ∈ cls.fields, field.type.Needs other →
      ∃ target, catalog.get? other = some target) (List.forall_mem_nil _) (List.forall_mem_nil _)
    each _ _ found _ isField needs

end Catalog

/-! ## Descriptors over structs -/

/-- All structs in a descriptor that describes a type are of some kind. -/
inductive Descriptor.Over (condition : StructId → Prop) : Descriptor → Prop where
  | scalar (kind : ScalarKind) : Over condition (.scalar kind)
  | enum (type : EnumType) : Over condition (.enum type)
  | null : Over condition .null
  | array {element : Descriptor} (isOver : Over condition element) :
      Over condition (.array element)
  | map {key value : Descriptor} (keyOver : Over condition key) (valueOver : Over condition value) :
      Over condition (.map key value)
  | optional {inner : Descriptor} (isOver : Over condition inner) :
      Over condition (.optional inner)
  | union {members : List Descriptor} (isOver : ∀ member ∈ members, Over condition member) :
      Over condition (.union members)
  | struct {id : StructId} (holds : condition id) : Over condition (.struct id)

theorem Descriptor.Over.imp {condition implied : StructId → Prop} {descriptor : Descriptor}
    (isOver : descriptor.Over condition) (implies : ∀ id, condition id → implied id) :
    descriptor.Over implied := by
  induction isOver with
  | scalar kind => exact .scalar kind
  | enum type => exact .enum type
  | null => exact .null
  | array _ ih => exact .array ih
  | map _ _ keyIh valueIh => exact .map keyIh valueIh
  | optional _ ih => exact .optional ih
  | union _ ih => exact .union ih
  | struct holds => exact .struct (implies _ holds)

namespace Registry

/-! ## Describing -/

/-- A struct is that of a class that a type needs. -/
def Serves (registry : Registry) (expr : TypeExpr) (id : StructId) : Prop :=
  ∃ key, expr.Needs key ∧ registry.structOf? key = some id

theorem serves_imp {registry : Registry} {expr whole : TypeExpr} {descriptor : Descriptor}
    (needs : ∀ key, expr.Needs key → whole.Needs key)
    (isOver : descriptor.Over (registry.Serves expr)) : descriptor.Over (registry.Serves whole) :=
  isOver.imp fun _ ⟨key, isNeeded, entered⟩ => ⟨key, needs key isNeeded, entered⟩

theorem over_ofMembers {condition : StructId → Prop} {described : List Descriptor}
    (each : ∀ descriptor ∈ described, descriptor.Over condition) (nullable : Bool) :
    (Descriptor.ofMembers described nullable).Over condition := by
  unfold Descriptor.ofMembers
  split
  · exact .optional (each _ List.mem_cons_self)
  · exact each _ List.mem_cons_self
  · apply Descriptor.Over.union
    intro member isMember
    rcases List.mem_append.mp isMember with isDescribed | isNull
    · exact each member isDescribed
    · obtain rfl := List.mem_singleton.mp isNull
      exact .null
  · exact .union each

theorem over_of_mirrored {registry : Registry} {expr : TypeExpr} {descriptor : Descriptor}
    (mirrored : expr.MirroredBy registry descriptor) :
    descriptor.Over (registry.Serves expr) := by
  induction expr using TypeExpr.induction generalizing descriptor with
  | collection kind element ih =>
      simp only [TypeExpr.MirroredBy] at mirrored
      obtain ⟨inner, mirrored, rfl⟩ := mirrored
      exact .array (serves_imp (fun _ => .element) (ih mirrored))
  | tuple items ih =>
      cases items with
      | nil =>
          simp only [TypeExpr.MirroredBy] at mirrored
          exact mirrored ▸ .array (.scalar _)
      | cons item rest =>
          simp only [TypeExpr.MirroredBy] at mirrored
          obtain ⟨inner, mirrored, rfl⟩ := mirrored
          exact .array (serves_imp (fun _ => .item) (ih item List.mem_cons_self mirrored))
  | dict key value keyIh valueIh =>
      simp only [TypeExpr.MirroredBy] at mirrored
      obtain ⟨keyInner, valueInner, keyMirrored, valueMirrored, rfl⟩ := mirrored
      exact .map (serves_imp (fun _ => .key) (keyIh keyMirrored))
        (serves_imp (fun _ => .value) (valueIh valueMirrored))
  | union members ih =>
      simp only [TypeExpr.MirroredBy, TypeExpr.mirroredByEach_iff] at mirrored
      obtain ⟨described, aligned, rfl⟩ := mirrored
      apply over_ofMembers
      intro descriptor isDescribed
      obtain ⟨member, isOther, mirrored⟩ := exists_left_of_mem aligned isDescribed
      have isMember := List.mem_of_mem_filter isOther
      exact serves_imp (fun _ => .member isMember) (ih member isMember mirrored)
  | annotated inner ih =>
      simp only [TypeExpr.MirroredBy] at mirrored
      exact serves_imp (fun _ => .inner) (ih mirrored)
  | record key =>
      simp only [TypeExpr.MirroredBy] at mirrored
      obtain ⟨id, entered, rfl⟩ := mirrored
      exact .struct ⟨key, .record key, entered⟩
  | none => exact mirrored ▸ .null
  | literal values => exact mirrored ▸ .enum _
  | enum cls => exact mirrored ▸ .enum _
  | bare kind => exact mirrored ▸ .array (.scalar _)
  | bareDict => exact mirrored ▸ .map (.scalar _) (.scalar _)
  | _ => exact mirrored ▸ .scalar _

/-! ## Intact registries -/

variable {registry : Registry}

/-- The struct of a class is sealed: it has one field for each field of the class. -/
def IsSealed (registry : Registry) (key : ClassKey) (id : StructId) : Prop :=
  ∃ cls, registry.catalog.get? key = some cls ∧
    List.Forall₂ ClassField.IsDeclaredAs cls.fields (registry.structs.at id).fields

/-- A struct was taken out when deriving it failed, while one that refers to it stays: its class is
on a cycle and has a failing default, or leads to one. -/
structure IsOrphan (registry : Registry) (key : ClassKey) (id : StructId) : Prop where
  isClass : (registry.structs.at id).cls = some key
  withdrawn : registry.structOf? key ≠ some id
  unsealed : (registry.structs.at id).fields = []
  cyclic : registry.catalog.LeadsTo key key
  fails : registry.catalog.Fails key

/-- A struct is the one of its class, or an orphan. A class in progress to whose struct another one
refers is on a cycle. -/
inductive Accounts (registry : Registry) (pending : List ClassKey) (id : StructId) : Prop where
  | entered {key : ClassKey} (entered : registry.structOf? key = some id)
      (cyclic : key ∈ pending → registry.catalog.LeadsTo key key) : Accounts registry pending id
  | orphan {key : ClassKey} (orphan : registry.IsOrphan key id) : Accounts registry pending id

/-- The structs of a registry are those of their classes. Apart from classes in progress, they are
sealed and only refer to structs that are accounted for, and what is found by name is found by
class. -/
structure IntactExcept (registry : Registry) (pending : List ClassKey) : Prop where
  classes : ∀ key id, registry.structOf? key = some id → (registry.structs.at id).cls = some key
  unsealed : ∀ key ∈ pending, ∃ id, registry.structOf? key = some id ∧
    (registry.structs.at id).fields = []
  sealed : ∀ key id, registry.structOf? key = some id → key ∉ pending → registry.IsSealed key id
  fields : ∀ key id, registry.structOf? key = some id → key ∉ pending →
    ∀ declared ∈ (registry.structs.at id).fields, declared.type.Over (registry.Accounts pending)
  names : ∀ name id, registry.get? name = some id →
    ∃ key, key ∉ pending ∧ registry.structOf? key = some id

theorem intact_of_fresh (noClasses : registry.byClass = []) (noNames : registry.byName = []) :
    registry.IntactExcept [] := by
  have unknown (key) (id) : registry.structOf? key ≠ some id := by
    simp [structOf?, noClasses]
  constructor
  · exact fun key id entered => (unknown key id entered).elim
  · exact List.forall_mem_nil _
  · exact fun key id entered => (unknown key id entered).elim
  · exact fun key id entered => (unknown key id entered).elim
  · intro name id named
    simp [get?, noNames] at named

theorem lt_of_cls {id : StructId} {key : ClassKey}
    (isClass : (registry.structs.at id).cls = some key) : id < registry.structs.length := by
  by_contra beyond
  have none : registry.structs[id]? = none := List.getElem?_eq_none (Nat.le_of_not_lt beyond)
  rw [Store.at, List.getD_eq_getElem?_getD, none] at isClass
  cases isClass

theorem ne_of_entered {key other : ClassKey} {id : StructId}
    (unknown : registry.structOf? key = none) (entered : registry.structOf? other = some id) :
    other ≠ key := by
  rintro rfl
  rw [unknown] at entered
  cases entered

/-- A class that is taken out takes no other one out. -/
theorem structOf?_leaveClass_of_ne (registry : Registry) {key other : ClassKey}
    (different : other ≠ key) :
    (registry.leaveClass key).structOf? other = registry.structOf? other :=
  lookup_filter_of_ne _ different

theorem get?_enterName_of_ne (registry : Registry) (id : StructId) {name other : String}
    (different : other ≠ name) : (registry.enterName name id).get? other = registry.get? other := by
  simp only [enterName, get?, List.lookup_cons, beq_false_of_ne different]
  exact lookup_filter_of_ne _ different

section Steps

variable {pending : List ClassKey} {key : ClassKey} {id : StructId}

/-! ### Entering a class -/

theorem Accounts.withClass (cls : RecordClass) (unknown : registry.structOf? key = none)
    (accounts : registry.Accounts pending id) :
    (registry.withClass key cls).Accounts (key :: pending) id := by
  cases accounts with
  | @entered other entered cyclic =>
      have different := ne_of_entered unknown entered
      refine .entered ((structOf?_withClass_of_ne cls different).trans entered) fun isPending => ?_
      exact cyclic ((List.mem_cons.mp isPending).resolve_left different)
  | @orphan other orphan =>
      have known := lt_of_cls orphan.isClass
      have same := @at_withClass_of_lt registry key cls id known
      refine .orphan ⟨same ▸ orphan.isClass, ?_, same ▸ orphan.unsealed, orphan.cyclic,
        orphan.fails⟩
      by_cases isOwn : other = key
      · subst isOwn
        -- The new struct of the class stands behind all others, so behind the orphan too.
        rw [structOf?_withClass_self cls]
        intro isNew
        exact Nat.lt_irrefl _ (Option.some.inj isNew ▸ known)
      · rw [structOf?_withClass_of_ne cls isOwn]
        exact orphan.withdrawn

/-- Entering a class leaves it in progress. -/
theorem IntactExcept.withClass (intact : registry.IntactExcept pending) (cls : RecordClass)
    (unknown : registry.structOf? key = none) :
    (registry.withClass key cls).IntactExcept (key :: pending) := by
  have known {other : ClassKey} {place : StructId}
      (entered : registry.structOf? other = some place) :
      (registry.withClass key cls).structs.at place = registry.structs.at place :=
    at_withClass_of_lt cls (lt_of_cls (intact.classes other place entered))
  have new := registry.at_withClass_self key cls
  have before {other : ClassKey} {place : StructId} (different : other ≠ key)
      (entered : (registry.withClass key cls).structOf? other = some place) :
      registry.structOf? other = some place :=
    (structOf?_withClass_of_ne cls different).symm.trans entered
  constructor
  · intro other place entered
    by_cases isOwn : other = key
    · subst isOwn
      obtain rfl := Option.some.inj ((structOf?_withClass_self cls).symm.trans entered)
      rw [new]
      rfl
    · rw [known (before isOwn entered)]
      exact intact.classes other place (before isOwn entered)
  · intro other isPending
    by_cases isOwn : other = key
    · subst isOwn
      exact ⟨_, structOf?_withClass_self cls, by rw [new]; rfl⟩
    · obtain ⟨place, entered, unsealed⟩ :=
        intact.unsealed other ((List.mem_cons.mp isPending).resolve_left isOwn)
      exact ⟨place, (structOf?_withClass_of_ne cls isOwn).trans entered, by rwa [known entered]⟩
  · intro other place entered notPending
    rw [List.mem_cons, not_or] at notPending
    obtain ⟨cls, found, aligned⟩ :=
      intact.sealed other place (before notPending.1 entered) notPending.2
    exact ⟨cls, found, by rwa [known (before notPending.1 entered)]⟩
  · intro other place entered notPending
    rw [List.mem_cons, not_or] at notPending
    rw [known (before notPending.1 entered)]
    intro declared isDeclared
    exact (intact.fields other place (before notPending.1 entered) notPending.2 declared
      isDeclared).imp fun _ => .withClass cls unknown
  · intro name place named
    obtain ⟨other, notPending, entered⟩ := intact.names name place named
    have different := ne_of_entered unknown entered
    exact ⟨other, by simp [different, notPending],
      (structOf?_withClass_of_ne cls different).trans entered⟩

/-! ### Sealing a class -/

/-- The struct of a class is no orphan. -/
theorem IsOrphan.ne_of_entered {other : ClassKey} {place : StructId}
    (orphan : registry.IsOrphan other place) (entered : registry.structOf? key = some id)
    (isClass : (registry.structs.at id).cls = some key) : place ≠ id := by
  rintro rfl
  obtain rfl := Option.some.inj (isClass.symm.trans orphan.isClass)
  exact orphan.withdrawn entered

theorem Accounts.withFields {place : StructId}
    (accounts : registry.Accounts (key :: pending) place)
    (entered : registry.structOf? key = some id)
    (isClass : (registry.structs.at id).cls = some key) (fields : List Field) (name : String) :
    (registry.withFields id fields name).Accounts pending place := by
  cases accounts with
  | entered isEntered cyclic =>
      exact .entered isEntered fun isPending => cyclic (List.mem_cons_of_mem _ isPending)
  | orphan orphan =>
      have same := @at_withFields_of_ne registry id fields name place
        (orphan.ne_of_entered entered isClass)
      exact .orphan ⟨same ▸ orphan.isClass, orphan.withdrawn, same ▸ orphan.unsealed, orphan.cyclic,
        orphan.fails⟩

/-- Once its fields are set, a class is no longer in progress. -/
theorem IntactExcept.withFields (intact : registry.IntactExcept (key :: pending))
    (notPending : key ∉ pending) (entered : registry.structOf? key = some id) {cls : RecordClass}
    (found : registry.catalog.get? key = some cls) {fields : List Field}
    (aligned : List.Forall₂ ClassField.IsDeclaredAs cls.fields fields)
    (isOver : ∀ declared ∈ fields, declared.type.Over (registry.Accounts (key :: pending)))
    (name : String) : (registry.withFields id fields name).IntactExcept pending := by
  have isClass := intact.classes key id entered
  have own := at_withFields_self fields name (lt_of_cls isClass)
  have others {other : ClassKey} {place : StructId} (different : other ≠ key)
      (isEntered : registry.structOf? other = some place) :
      (registry.withFields id fields name).structs.at place = registry.structs.at place := by
    apply at_withFields_of_ne
    rintro rfl
    exact different (Option.some.inj ((intact.classes other place isEntered).symm.trans isClass))
  have unchanged {other : ClassKey} (different : other ≠ key) (isOld : other ∉ pending) :
      other ∉ key :: pending := by
    simp [different, isOld]
  constructor
  · intro other place isEntered
    by_cases isOwn : other = key
    · subst isOwn
      obtain rfl := Option.some.inj (entered.symm.trans isEntered)
      rw [own]
      exact isClass
    · rw [others isOwn isEntered]
      exact intact.classes other place isEntered
  · intro other isPending
    obtain ⟨place, isEntered, unsealed⟩ := intact.unsealed other (List.mem_cons_of_mem _ isPending)
    exact ⟨place, isEntered, by rwa [others (ne_of_mem_of_not_mem isPending notPending) isEntered]⟩
  · intro other place isEntered isOld
    by_cases isOwn : other = key
    · subst isOwn
      obtain rfl := Option.some.inj (entered.symm.trans isEntered)
      exact ⟨cls, found, by rwa [own]⟩
    · obtain ⟨cls, found, aligned⟩ :=
        intact.sealed other place isEntered (unchanged isOwn isOld)
      exact ⟨cls, found, by rwa [others isOwn isEntered]⟩
  · intro other place isEntered isOld declared isDeclared
    have outlives (place : StructId) (accounts : registry.Accounts (key :: pending) place) :=
      accounts.withFields entered isClass fields name
    by_cases isOwn : other = key
    · subst isOwn
      obtain rfl := Option.some.inj (entered.symm.trans isEntered)
      rw [own] at isDeclared
      exact (isOver declared isDeclared).imp outlives
    · rw [others isOwn isEntered] at isDeclared
      exact (intact.fields other place isEntered (unchanged isOwn isOld) declared isDeclared).imp
        outlives
  · intro other place named
    by_cases isOwn : other = name
    · subst isOwn
      obtain rfl := Option.some.inj ((get?_enterName_self _ other id).symm.trans named)
      exact ⟨key, notPending, entered⟩
    · have sameName := get?_enterName_of_ne (registry.setFields id fields) id isOwn
      have isNamed := sameName.symm.trans named
      obtain ⟨holder, isOld, isEntered⟩ := intact.names other place isNamed
      exact ⟨holder, fun isPending => isOld (List.mem_cons_of_mem _ isPending), isEntered⟩

/-! ### Taking a class out -/

/-- The struct of a class that is taken out becomes an orphan if another one refers to it. -/
theorem Accounts.leaveClass {place : StructId}
    (accounts : registry.Accounts (key :: pending) place)
    (intact : registry.IntactExcept (key :: pending)) (fails : registry.catalog.Fails key) :
    (registry.leaveClass key).Accounts pending place := by
  cases accounts with
  | @entered other entered cyclic =>
      by_cases isOwn : other = key
      · subst isOwn
        obtain ⟨own, isOwn, unsealed⟩ := intact.unsealed other List.mem_cons_self
        obtain rfl := Option.some.inj (isOwn.symm.trans entered)
        exact .orphan ⟨intact.classes other own entered, by simp, unsealed,
          cyclic List.mem_cons_self, fails⟩
      · have sameStruct := structOf?_leaveClass_of_ne registry isOwn
        exact .entered (sameStruct.trans entered) fun isPending =>
          cyclic (List.mem_cons_of_mem _ isPending)
  | @orphan other orphan =>
      refine .orphan ⟨orphan.isClass, ?_, orphan.unsealed, orphan.cyclic, orphan.fails⟩
      by_cases isOwn : other = key
      · subst isOwn
        simp
      · rw [structOf?_leaveClass_of_ne registry isOwn]
        exact orphan.withdrawn

/-- A class that fails is taken out, and no longer in progress. -/
theorem IntactExcept.leaveClass (intact : registry.IntactExcept (key :: pending))
    (notPending : key ∉ pending) (fails : registry.catalog.Fails key) :
    (registry.leaveClass key).IntactExcept pending := by
  have before {other : ClassKey} {place : StructId}
      (entered : (registry.leaveClass key).structOf? other = some place) :
      other ≠ key ∧ registry.structOf? other = some place := by
    have different := ne_of_entered (registry.structOf?_leaveClass_self key) entered
    exact ⟨different, (structOf?_leaveClass_of_ne registry different).symm.trans entered⟩
  have unchanged {other : ClassKey} (different : other ≠ key) (isOld : other ∉ pending) :
      other ∉ key :: pending := by
    simp [different, isOld]
  constructor
  · intro other place entered
    exact intact.classes other place (before entered).2
  · intro other isPending
    obtain ⟨place, entered, unsealed⟩ := intact.unsealed other (List.mem_cons_of_mem _ isPending)
    have different := ne_of_mem_of_not_mem isPending notPending
    exact ⟨place, (structOf?_leaveClass_of_ne registry different).trans entered, unsealed⟩
  · intro other place entered isOld
    obtain ⟨different, isEntered⟩ := before entered
    exact intact.sealed other place isEntered (unchanged different isOld)
  · intro other place entered isOld declared isDeclared
    obtain ⟨different, isEntered⟩ := before entered
    exact (intact.fields other place isEntered (unchanged different isOld) declared isDeclared).imp
      fun _ accounts => accounts.leaveClass intact fails
  · intro name place named
    obtain ⟨holder, isOld, entered⟩ := intact.names name place named
    rw [List.mem_cons, not_or] at isOld
    exact ⟨holder, isOld.2, (structOf?_leaveClass_of_ne registry isOld.1).trans entered⟩

end Steps

/-! ## Deriving -/

/-- A registry of some classes that is intact but for those in progress, and has fuel for the
others. -/
structure Accountable (catalog : Catalog) (pending : List ClassKey) (fuel : Nat)
    (registry : Registry) : Prop where
  catalog : registry.catalog = catalog
  intact : registry.IntactExcept pending
  enough : registry.missing.length ≤ fuel

/-- Deriving the struct of a class leaves a registry intact, whether it succeeds or fails, and fails
only if the class has a failing default or leads to one. The induction is on the fuel; the classes
in progress lead to the class, so that one of them is on a cycle if the class refers back to it. -/
theorem advances_derive {catalog : Catalog} (closed : catalog.IsClosed) (fuel : Nat)
    (pending : List ClassKey) {key : ClassKey} {cls : RecordClass}
    (found : catalog.get? key = some cls) (leads : ∀ other ∈ pending, catalog.LeadsTo other key) :
    Advances (Accountable catalog pending fuel) (derive fuel key)
      (fun after id => after.structOf? key = some id) (catalog.Fails key) := by
  induction fuel generalizing pending key cls with
  | zero =>
      intro registry accountable
      cases entered : registry.structOf? key with
      | some id =>
          exact (leaves_derive_of_entered entered 0).mpr ⟨accountable, .refl registry, entered⟩
      | none =>
          have isMissing := mem_missing (accountable.catalog ▸ found) entered
          have none := List.length_eq_zero_iff.mp (Nat.le_zero.mp accountable.enough)
          rw [none] at isMissing
          cases isMissing
  | succ fuel ih =>
      intro registry accountable
      cases entered : registry.structOf? key with
      | some id =>
          exact (leaves_derive_of_entered entered _).mpr ⟨accountable, .refl registry, entered⟩
      | none =>
          have isFound : registry.catalog.get? key = some cls := accountable.catalog ▸ found
          have notPending : key ∉ pending := by
            intro isPending
            obtain ⟨id, isEntered, -⟩ := accountable.intact.unsealed key isPending
            rw [entered] at isEntered
            cases isEntered
          have fewer := length_missing_withClass_lt cls entered isFound
          have start : Accountable catalog (key :: pending) fuel (registry.withClass key cls) :=
            ⟨accountable.catalog, accountable.intact.withClass cls entered,
              Nat.le_of_lt_succ (Nat.lt_of_lt_of_le fewer accountable.enough)⟩
          -- The classes in progress, the class itself now among them, lead to whatever it needs.
          have onward {other : ClassKey} (needs : catalog.Needs key other) (earlier : ClassKey)
              (isEarlier : earlier ∈ key :: pending) : catalog.LeadsTo earlier other := by
            rcases List.mem_cons.mp isEarlier with rfl | isPending
            · exact .single needs
            · exact .tail (leads earlier isPending) needs
          have each (field) (isField : field ∈ cls.fields) :
              Advances (Accountable catalog (key :: pending) fuel) (fieldFrom (derive fuel) field)
                (fun after declared => field.MirroredBy after declared) (catalog.Fails key) := by
            refine advances_mirroredField (fun other isNeeded => ?_) (.own found isField)
            have needs : catalog.Needs key other := .field found isField isNeeded
            obtain ⟨otherClass, isOther⟩ := closed key other needs
            exact (ih (key :: pending) isOther (onward needs)).imp (fun _ _ held => held)
              (.needed needs)
          rw [leaves_derive_of_unknown entered isFound]
          apply (Advances.mapM lasts_mirroredField each _ start).imp
          · rintro fields between ⟨derived, later, aligned⟩
            have isEntered := later.keeps key _ (structOf?_withClass_self cls)
            have isOver (declared) (isDeclared : declared ∈ fields) :
                declared.type.Over (between.Accounts (key :: pending)) := by
              obtain ⟨field, isField, mirrored⟩ := exists_left_of_mem aligned isDeclared
              refine (over_of_mirrored mirrored.type).imp fun id ⟨other, needs, isOther⟩ =>
                .entered isOther fun isPending => ?_
              -- A field that refers back to a class in progress closes a cycle through that class.
              rw [derived.catalog]
              exact onward (.field found isField needs) other isPending
            have finish := derived.intact.withFields notPending isEntered
              (derived.catalog.symm ▸ found) (aligned.imp fun _ _ mirrored => mirrored.isDeclared) isOver
              cls.name
            have same := between.extends_withFields registry.structs.length fields cls.name
            have extend := ((extends_withClass cls entered).trans later).trans same
            exact ⟨⟨derived.catalog, finish,
              Nat.le_trans extend.length_missing_le accountable.enough⟩, extend, isEntered⟩
          · rintro failure between ⟨derived, later, fails⟩
            have finish := derived.intact.leaveClass notPending (derived.catalog.symm ▸ fails)
            have extended := (extends_withClass cls entered).trans later
            have extend : registry.Extends (between.leaveClass key) := by
              refine ⟨extended.library, extended.catalog, fun other id isOther => ?_⟩
              have different := ne_of_entered entered isOther
              rw [structOf?_leaveClass_of_ne between different]
              exact extended.keeps other id isOther
            exact ⟨⟨derived.catalog, finish,
              Nat.le_trans extend.length_missing_le accountable.enough⟩, extend, fails⟩

theorem advances_fromClass {catalog : Catalog} (closed : catalog.IsClosed) {key : ClassKey}
    {cls : RecordClass} (found : catalog.get? key = some cls) :
    Advances (fun registry => registry.catalog = catalog ∧ registry.IntactExcept [])
      (fromClass key) (fun after id => after.structOf? key = some id) (catalog.Fails key) := by
  rintro registry ⟨sameCatalog, intact⟩
  rw [fromClass, leaves_bind, leaves_get]
  apply (advances_derive closed _ [] found (List.forall_mem_nil _) registry
    ⟨sameCatalog, intact, registry.length_missing_le⟩).imp
  · rintro id after ⟨derived, extend, entered⟩
    exact ⟨⟨derived.catalog, derived.intact⟩, extend, entered⟩
  · rintro failure after ⟨derived, extend, fails⟩
    exact ⟨⟨derived.catalog, derived.intact⟩, extend, fails⟩

/-! ## Calls -/

/-- A registry after the structs of classes were asked for one after another, whichever of them
could be derived. -/
def afterCalls (registry : Registry) (keys : List ClassKey) : Registry :=
  keys.foldl (fun registry key => ((fromClass key).run registry).2) registry

theorem intact_afterCalls (intact : registry.IntactExcept []) (closed : registry.catalog.IsClosed)
    {keys : List ClassKey} (known : ∀ key ∈ keys, ∃ cls, registry.catalog.get? key = some cls) :
    (registry.afterCalls keys).catalog = registry.catalog ∧
      (registry.afterCalls keys).IntactExcept [] := by
  suffices ∀ before : Registry, before.catalog = registry.catalog ∧ before.IntactExcept [] →
      (before.afterCalls keys).catalog = registry.catalog ∧
        (before.afterCalls keys).IntactExcept [] from this registry ⟨rfl, intact⟩
  induction keys with
  | nil => exact fun _ holds => holds
  | cons key rest ih =>
      obtain ⟨⟨cls, found⟩, others⟩ := List.forall_mem_cons.mp known
      exact fun before holds =>
        ih others _ ((advances_fromClass closed found).upholds.run holds)

def Caches (registry : Registry) (id : StructId) : Prop :=
  (∃ key, registry.structOf? key = some id) ∨ ∃ name, registry.get? name = some id

/-- A struct is sealed, and the one that is found by its class. -/
def HasSealed (registry : Registry) (id : StructId) : Prop :=
  ∃ key, (registry.structs.at id).cls = some key ∧ registry.structOf? key = some id ∧
    registry.IsSealed key id

section Reach

variable {id : StructId} (intact : registry.IntactExcept [])
include intact

theorem IntactExcept.hasSealed {key : ClassKey} (entered : registry.structOf? key = some id) :
    registry.HasSealed id :=
  ⟨key, intact.classes key id entered, entered, intact.sealed key id entered List.not_mem_nil⟩

theorem IntactExcept.hasSealed_of_caches (caches : registry.Caches id) : registry.HasSealed id := by
  rcases caches with ⟨key, entered⟩ | ⟨name, named⟩
  · exact intact.hasSealed entered
  · obtain ⟨key, -, entered⟩ := intact.names name id named
    exact intact.hasSealed entered

/-- What a sealed struct of an intact registry reaches is accounted for. The set of descriptors over
such structs is closed under parts, since orphans have no fields. -/
theorem IntactExcept.accounts_of_reaches (sealed : registry.HasSealed id) {found : StructId}
    (reaches : Descriptor.Reaches registry.structs (.struct id) (.struct found)) :
    registry.Accounts [] found := by
  have closed (descriptor part : Descriptor) (isOver : descriptor.Over (registry.Accounts []))
      (isPart : Descriptor.Part registry.structs descriptor part) :
      part.Over (registry.Accounts []) := by
    cases isPart with
    | element => cases isOver with | array isOver => exact isOver
    | key => cases isOver with | map keyOver _ => exact keyOver
    | value => cases isOver with | map _ valueOver => exact valueOver
    | inner => cases isOver with | optional isOver => exact isOver
    | member isMember => cases isOver with | union isOver => exact isOver _ isMember
    | field isField =>
        cases isOver with
        | struct accounts =>
            cases accounts with
            | @entered key entered _ =>
                exact intact.fields key _ entered List.not_mem_nil _ isField
            | orphan orphan =>
                rw [Descriptor.fields, orphan.unsealed] at isField
                cases isField
        | _ => cases isField
  obtain ⟨key, -, entered, -⟩ := sealed
  have start : Descriptor.Over (registry.Accounts []) (.struct id) :=
    .struct (.entered entered fun isPending => nomatch isPending)
  have throughout : Descriptor.Throughout registry.structs
      (Descriptor.Over (registry.Accounts [])) (.struct id) :=
    .of_closed closed (fun _ isOver => isOver) start
  cases throughout _ reaches with
  | struct accounts => exact accounts

end Reach

/-- After any calls, the structs that are found by class or by name are sealed, and so are the
structs that they reach, and found by their classes, but for the orphans of classes on a cycle that
have a failing default or lead to one. -/
theorem hasSealed_or_isOrphan_of_reaches (noClasses : registry.byClass = [])
    (noNames : registry.byName = []) (closed : registry.catalog.IsClosed) {keys : List ClassKey}
    (known : ∀ key ∈ keys, ∃ cls, registry.catalog.get? key = some cls) {id : StructId}
    (caches : (registry.afterCalls keys).Caches id) :
    (registry.afterCalls keys).HasSealed id ∧ ∀ found,
      Descriptor.Reaches (registry.afterCalls keys).structs (.struct id) (.struct found) →
        (registry.afterCalls keys).HasSealed found ∨
          ∃ key, (registry.afterCalls keys).IsOrphan key found := by
  obtain ⟨-, intact⟩ := intact_afterCalls (intact_of_fresh noClasses noNames) closed known
  have sealed := intact.hasSealed_of_caches caches
  refine ⟨sealed, fun found reaches => ?_⟩
  cases intact.accounts_of_reaches sealed reaches with
  | entered entered _ => exact .inl (intact.hasSealed entered)
  | orphan orphan => exact .inr ⟨_, orphan⟩

/-! ### A family that is torn apart -/

/-- A class that refers to its children and whose stamp cannot be made. -/
def parentClass : RecordClass :=
  ⟨.declared 0, "Parent", none, [.base],
    [⟨"child", none, .union [.record (.declared 1), .none], .default .null, none, .none⟩,
      ⟨"stamp", none, .scalar .int, .made .failing, none, .none⟩]⟩

/-- A class that refers to its parent. -/
def childClass : RecordClass :=
  ⟨.declared 1, "Child", none, [.base],
    [⟨"parent", none, .union [.record (.declared 0), .none], .default .null, none, .none⟩]⟩

/-- A registry with a class of parents and a class of children, of which no struct was derived. -/
def familyRegistry : Registry := ⟨.reference, [childClass, parentClass], [], [], [], []⟩

theorem family_isClosed : familyRegistry.catalog.IsClosed := by
  have optional {key other : ClassKey} (needs : (TypeExpr.union [.record key, .none]).Needs other) :
      other = key := by
    cases needs with
    | member isMember needs =>
        rcases List.mem_pair.mp isMember with rfl | rfl
        · cases needs; rfl
        · cases needs
  apply Catalog.isClosed_of_declared
  simp only [familyRegistry, childClass, parentClass, List.forall_mem_cons]
  refine ⟨⟨fun other needs => ?_, List.forall_mem_nil _⟩,
    ⟨fun other needs => ?_, nofun, List.forall_mem_nil _⟩, List.forall_mem_nil _⟩
  · exact ⟨parentClass, by rw [optional needs]; rfl⟩
  · exact ⟨childClass, by rw [optional needs]; rfl⟩

/-- The family after its classes were asked for: that of parents first, which fails. -/
def tornFamily : Registry := familyRegistry.afterCalls [.declared 0, .declared 1]

/-- The struct of children is sealed, and what it reaches is sealed or an orphan. -/
theorem child_hasSealed : tornFamily.HasSealed 1 ∧ ∀ found,
    Descriptor.Reaches tornFamily.structs (.struct 1) (.struct found) →
      tornFamily.HasSealed found ∨ ∃ key, tornFamily.IsOrphan key found := by
  refine hasSealed_or_isOrphan_of_reaches rfl rfl family_isClosed ?_ (.inl ⟨.declared 1, rfl⟩)
  simp only [List.forall_mem_cons]
  exact ⟨⟨parentClass, rfl⟩, ⟨childClass, rfl⟩, List.forall_mem_nil _⟩

/-- Asking for parents derived the struct of children before it failed. That struct stays, and
reaches one of parents that is not the one of its class and has no fields. -/
theorem parent_orphaned : tornFamily.Caches 1 ∧
    Descriptor.Reaches tornFamily.structs (.struct 1) (.struct 0) ∧
    ¬tornFamily.HasSealed 0 ∧ (tornFamily.structs.at 0).fields = [] := by
  refine ⟨.inl ⟨.declared 1, rfl⟩, ?_, ?_, rfl⟩
  · exact .head (.field List.mem_cons_self) (.single (.inner _))
  · rintro ⟨key, isClass, entered, -⟩
    obtain rfl : ClassKey.declared 0 = key := Option.some.inj isClass
    cases entered

end Registry

end TypedReply
