import TypedReply.Proofs.Registry.Retention

/-!
# How deep deriving goes

Deriving the struct of a class goes into the classes that it needs, but never into one that it is
inside of: that one has been entered. Each class on the way is a further one without a struct, so
the way is no longer than the catalog, whatever cycles the classes form and whatever lies below.
-/

namespace TypedReply

namespace Registry

variable {start registry after : Registry}

/-! ## What deriving adds -/

/-- The classes that have a struct keep it, and those that get one are in the catalog. -/
structure Enlarges (start after : Registry) : Prop where
  isExtended : start.Extends after
  found : ∀ key id, after.structOf? key = some id →
    start.structOf? key = some id ∨ ∃ cls, start.catalog.get? key = some cls

theorem Enlarges.refl (registry : Registry) : registry.Enlarges registry :=
  ⟨.refl registry, fun _ _ entered => .inl entered⟩

/-- A class of the catalog is entered. -/
theorem Enlarges.withClass (enlarges : start.Enlarges registry) {key : ClassKey} {cls : RecordClass}
    (unknown : registry.structOf? key = none) (found : registry.catalog.get? key = some cls) :
    start.Enlarges (registry.withClass key cls) where
  isExtended := enlarges.isExtended.trans (extends_withClass cls unknown)
  found other id entered := by
    by_cases same : other = key
    · subst same
      exact .inr ⟨cls, enlarges.isExtended.catalog ▸ found⟩
    · exact enlarges.found other id ((structOf?_withClass_of_ne cls same).symm.trans entered)

theorem Enlarges.leaveClass (enlarges : start.Enlarges registry) {key : ClassKey}
    (unknown : start.structOf? key = none) : start.Enlarges (registry.leaveClass key) := by
  have others {other : ClassKey} (different : other ≠ key) :
      (registry.leaveClass key).structOf? other = registry.structOf? other :=
    lookup_filter_of_ne _ different
  constructor
  · refine ⟨enlarges.isExtended.library, enlarges.isExtended.catalog, fun other id entered => ?_⟩
    have different : other ≠ key := by
      rintro rfl
      rw [unknown] at entered
      cases entered
    rw [others different]
    exact enlarges.isExtended.keeps other id entered
  · intro other id entered
    have different : other ≠ key := by
      rintro rfl
      rw [structOf?_leaveClass_self] at entered
      cases entered
    exact enlarges.found other id ((others different).symm.trans entered)

theorem upholds_enlarges_derive (start : Registry) (fuel : Nat) (key : ClassKey) :
    Upholds start.Enlarges (derive fuel key) := by
  induction fuel generalizing key with
  | zero =>
      rw [derive]
      exact Upholds.get.bind fun _ => .pure _
  | succ fuel ih =>
      intro registry enlarges
      cases entered : registry.structOf? key with
      | some id => exact (leaves_derive_of_entered entered _).mpr enlarges
      | none =>
          cases found : registry.catalog.get? key with
          | none =>
              simpa only [derive, leaves_bind, leaves_get, leaves_pure, entered, found] using enlarges
          | some cls =>
              have unknown : start.structOf? key = none := by
                cases early : start.structOf? key with
                | none => rfl
                | some id =>
                    rw [enlarges.isExtended.keeps key id early] at entered
                    cases entered
              have each (field) (_ : field ∈ cls.fields) := upholds_fieldFrom ih field
              rw [leaves_derive_of_unknown entered found]
              apply (Upholds.mapM each _ (enlarges.withClass entered found)).imp
              · intro fields between isLarger
                have extended := isLarger.isExtended
                exact ⟨⟨extended.library, extended.catalog, extended.keeps⟩, isLarger.found⟩
              · intro failure between isLarger
                exact isLarger.leaveClass unknown

/-! ## Operations that coincide -/

variable {α β : Type} {invariant : Registry → Prop}

/-- Where an invariant holds, an operation keeps it and does what another one does. -/
structure Coincides (invariant : Registry → Prop) (action other : Action α) : Prop where
  upholds : Upholds invariant action
  alike : ∀ before, invariant before → Alike action other before

namespace Coincides

theorem refl {action : Action α} (upholds : Upholds invariant action) :
    Coincides invariant action action :=
  ⟨upholds, fun _ _ => .refl action⟩

theorem bind {action other : Action α} {next otherNext : α → Action β}
    (first : Coincides invariant action other)
    (rest : ∀ value, Coincides invariant (next value) (otherNext value)) :
    Coincides invariant (action >>= next) (other >>= otherNext) where
  upholds := first.upholds.bind fun value => (rest value).upholds
  alike before holds := by
    apply (first.alike before holds).bind
    intro result between yields
    exact (rest result).alike between ((first.upholds before holds).of_yields yields)

theorem mapM {operation other : α → Action β} {values : List α}
    (each : ∀ value ∈ values, Coincides invariant (operation value) (other value)) :
    Coincides invariant (values.mapM operation) (values.mapM other) := by
  induction values with
  | nil => exact refl (.pure [])
  | cons value rest ih =>
      obtain ⟨first, others⟩ := List.forall_mem_cons.mp each
      rw [List.mapM_cons, List.mapM_cons]
      exact first.bind fun _ => (ih others).bind fun _ => refl (.pure _)

section Describe

variable {structFor other : ClassKey → Action StructId}

theorem describeMembers {members : List TypeExpr} (described : ∀ member ∈ members,
      Coincides invariant (describe structFor member) (describe other member)) :
    Coincides invariant (describeMembers structFor members) (describeMembers other members) := by
  induction members with
  | nil => exact refl (.pure [])
  | cons member rest ih =>
      obtain ⟨first, others⟩ := List.forall_mem_cons.mp described
      rw [Registry.describeMembers, Registry.describeMembers]
      split
      · exact ih others
      · exact first.bind fun _ => (ih others).bind fun _ => refl (.pure _)

variable (each : ∀ key, Coincides invariant (structFor key) (other key))
include each

theorem describe (expr : TypeExpr) :
    Coincides invariant (describe structFor expr) (Registry.describe other expr) := by
  induction expr using TypeExpr.induction with
  | collection kind element ih =>
      rw [Registry.describe, Registry.describe]
      exact ih.bind fun _ => refl (.pure _)
  | tuple items ih =>
      cases items with
      | nil => exact refl (.pure _)
      | cons item rest =>
          rw [Registry.describe, Registry.describe]
          exact (ih item List.mem_cons_self).bind fun _ => refl (.pure _)
  | dict key value keyIh valueIh =>
      rw [Registry.describe, Registry.describe]
      exact keyIh.bind fun _ => valueIh.bind fun _ => refl (.pure _)
  | union members ih =>
      rw [Registry.describe, Registry.describe]
      apply (describeMembers ih).bind
      intro described
      split <;> exact refl (.pure _)
  | annotated inner ih =>
      rw [Registry.describe, Registry.describe]
      exact ih
  | record key =>
      rw [Registry.describe, Registry.describe]
      exact (each key).bind fun _ => refl (.pure _)
  | _ => exact refl (.pure _)

theorem fieldFrom (field : ClassField) :
    Coincides invariant (fieldFrom structFor field) (Registry.fieldFrom other field) := by
  rw [Registry.fieldFrom, Registry.fieldFrom]
  apply (refl (upholds_liftOutcome _)).bind
  intro default
  exact (describe each field.type).bind fun _ => refl (.pure _)

end Describe

end Coincides

/-! ## The depth -/

/-- One step of deriving: the struct of a class by means of those of the classes that it needs. -/
def deriveStep (inside : ClassKey → Action StructId) (key : ClassKey) : Action StructId := do
  let registry ← getThe Registry
  match registry.structOf? key, registry.catalog.get? key with
  | some id, _ => return id
  | none, none => return 0
  | none, some cls => do
    let (id, added) := registry.add (unsealed registry.library key cls)
    set (added.enterClass key id)
    let fields ← tryCatch (cls.fields.mapM (fieldFrom inside)) fun failure => do
      modifyThe Registry (·.leaveClass key)
      throw failure
    modifyThe Registry fun registry => (registry.setFields id fields).enterName cls.name id
    return id

/-- Deriving to some depth, below which anything may happen. -/
def unrolled (bottom : ClassKey → Action StructId) : Nat → ClassKey → Action StructId
  | 0 => bottom
  | depth + 1 => deriveStep (unrolled bottom depth)

/-- Steps do the same for a class if the operations inside them do so for the fields of the class once
it is entered. -/
theorem alike_deriveStep {inside other : ClassKey → Action StructId} {key : ClassKey}
    (fields : ∀ cls, registry.structOf? key = none → registry.catalog.get? key = some cls →
      Alike (cls.fields.mapM (fieldFrom inside)) (cls.fields.mapM (fieldFrom other))
        (registry.withClass key cls)) :
    Alike (deriveStep inside key) (deriveStep other key) registry := by
  apply (Alike.refl _).bind
  intro before between run
  obtain ⟨rfl, rfl⟩ := (yields_get _).mp run
  cases entered : between.structOf? key with
  | some id => exact .refl _
  | none =>
      cases found : between.catalog.get? key with
      | none => exact .refl _
      | some cls =>
          apply (Alike.refl _).bind
          intro _ opened run
          obtain rfl := (yields_set _ _).mp run
          apply ((fields cls entered found).tryCatch _).bind
          intro _ _ _
          exact .refl _

/-- With fuel for more classes than are without a struct, it does not matter what lies below the depth
of deriving. The induction is on the fuel: a class that is entered is one less without a struct. -/
theorem alike_derive (bottom : ClassKey → Action StructId) (fuel : Nat) (start : Registry)
    (enough : start.missing.length < fuel) (key : ClassKey) {before : Registry}
    (enlarges : start.Enlarges before) :
    Alike (derive fuel key) (unrolled bottom fuel key) before := by
  induction fuel generalizing start key before with
  | zero => exact (Nat.not_lt_zero _ enough).elim
  | succ fuel ih =>
      -- A class that is entered is missing no longer, so the fuel that is left is enough below it.
      change Alike (deriveStep (derive fuel) key) (deriveStep (unrolled bottom fuel) key) before
      apply alike_deriveStep
      intro cls unknown found
      have fewer := length_missing_withClass_lt cls unknown found
      have few := enlarges.isExtended.length_missing_le
      have inside (other : ClassKey) : Coincides (before.withClass key cls).Enlarges
          (derive fuel other) (unrolled bottom fuel other) :=
        ⟨upholds_enlarges_derive _ fuel other, fun between isLarger =>
          ih (before.withClass key cls) (by omega) other isLarger⟩
      have fields := Coincides.mapM fun field (_ : field ∈ cls.fields) => .fieldFrom inside field
      exact fields.alike _ (.refl _)

/-- Deriving the struct of a class comes to an end in every registry, whatever lies below its
depth. -/
theorem run_unrolled_eq_fromClass (registry : Registry) (bottom : ClassKey → Action StructId)
    (key : ClassKey) :
    (unrolled bottom (registry.catalog.length + 3) key).run registry =
      (fromClass key).run registry := by
  have alike := alike_derive bottom (registry.catalog.length + 3) registry
    registry.length_missing_lt key (.refl registry)
  rw [fromClass, run_bind]
  exact alike.symm

end Registry

end TypedReply
