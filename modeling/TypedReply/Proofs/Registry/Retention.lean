import TypedReply.Proofs.Action
import TypedReply.Proofs.Outcome
import TypedReply.Proofs.Record.Settled
import TypedReply.Proofs.Registry.Derive

/-!
# What a registry retains

However a registry is used, successfully or not, the structs that it has stay as they are, and
classes whose types are settled are found as they were declared. Structs are added at new places, and
only a struct that was just added is given its fields; classes are added under new keys.
-/

namespace TypedReply

namespace Registry

/-- A class key that is built in or was given out already. -/
def Knows (registry : Registry) (key : ClassKey) : Prop :=
  ∀ number, key = .declared number → number < registry.catalog.length

/-- A registry has the structs of another and its classes of settled types. -/
structure Retains (before after : Registry) : Prop where
  library : after.library = before.library
  places : before.structs.length ≤ after.structs.length
  structs : ∀ id, id < before.structs.length → after.structs.at id = before.structs.at id
  classes : before.catalog.length ≤ after.catalog.length
  settled : ∀ key cls, before.Knows key → before.catalog.get? key = some cls →
    cls.unresolvedNames = [] → after.catalog.get? key = some cls

variable {before registry after : Registry}

namespace Retains

theorem refl (registry : Registry) : registry.Retains registry :=
  ⟨rfl, Nat.le_refl _, fun _ _ => rfl, Nat.le_refl _, fun _ _ _ found _ => found⟩

theorem knows (retains : before.Retains after) {key : ClassKey} (known : before.Knows key) :
    after.Knows key :=
  fun number isNumber => Nat.lt_of_lt_of_le (known number isNumber) retains.classes

theorem trans (earlier : before.Retains registry) (later : registry.Retains after) :
    before.Retains after where
  library := later.library.trans earlier.library
  places := Nat.le_trans earlier.places later.places
  structs id known := by
    rw [later.structs id (Nat.lt_of_lt_of_le known earlier.places), earlier.structs id known]
  classes := Nat.le_trans earlier.classes later.classes
  settled key cls known found isSettled :=
    later.settled key cls (earlier.knows known) (earlier.settled key cls known found isSettled)
      isSettled

/-- A record that is there stays as it is. -/
theorem record? (retains : before.Retains after) {descriptor : Descriptor}
    (placed : ∀ id, descriptor = .struct id → id < before.structs.length) :
    descriptor.record? after.structs = descriptor.record? before.structs := by
  cases descriptor with
  | struct id =>
      exact congrArg (fun struct : Struct => some struct.view) (retains.structs id (placed id rfl))
  | _ => rfl

/-! ## Single changes -/

/-- What a class or a name stands for has no part in it. -/
theorem of_same (library : after.library = registry.library)
    (structs : after.structs = registry.structs) (catalog : after.catalog = registry.catalog) :
    registry.Retains after where
  library := library
  places := Nat.le_of_eq (congrArg List.length structs).symm
  structs _ _ := by rw [structs]
  classes := Nat.le_of_eq (congrArg List.length catalog).symm
  settled key cls _ found _ := by rw [catalog, found]

theorem add (registry : Registry) (struct : Struct) : registry.Retains (registry.add struct).2 where
  library := rfl
  places := by simp [Registry.add]
  structs _ known := registry.at_add_of_lt struct known
  classes := Nat.le_refl _
  settled _ _ _ found _ := found

theorem declare (registry : Registry) (name : String) (target : TypeExpr) :
    registry.Retains (registry.declare name target) where
  library := rfl
  places := Nat.le_refl _
  structs _ _ := rfl
  classes := by simp [Registry.declare]
  settled _ _ _ found isSettled := Catalog.get?_settle found isSettled _

/-- A class that is added has a new key. -/
theorem addClass (registry : Registry) {cls : RecordClass}
    (isNew : cls.key = registry.catalog.nextKey) :
    registry.Retains { registry with catalog := cls :: registry.catalog } where
  library := rfl
  places := Nat.le_refl _
  structs _ _ := rfl
  classes := Nat.le_succ _
  settled key other known found _ := by
    cases key with
    | base => exact found
    | anonymous => exact found
    | declared number =>
        have different : (cls.key == ClassKey.declared number) = false := by
          have isOld := known number rfl
          rw [isNew, Catalog.nextKey, beq_eq_false_iff_ne]
          intro same
          rw [ClassKey.declared.inj same] at isOld
          exact Nat.lt_irrefl _ isOld
        exact (List.find?_cons_of_neg (by simp [different])).trans found

/-- Setting the fields of a struct that was added later changes nothing earlier. -/
theorem setFields (retains : before.Retains registry) {id : StructId}
    (isNew : before.structs.length ≤ id) (fields : List Field) :
    before.Retains (registry.setFields id fields) where
  library := retains.library
  places := by simpa [Registry.setFields] using retains.places
  structs other known := by
    have different : id ≠ other := (Nat.ne_of_lt (Nat.lt_of_lt_of_le known isNew)).symm
    rw [← retains.structs other known]
    simp [Registry.setFields, Store.at, different]
  classes := retains.classes
  settled := retains.settled

end Retains

/-! ## Operations -/

variable {α β : Type} {invariant : Registry → Prop}

@[simp]
theorem leaves_liftOutcome (outcome : Outcome α) {returned : α → Registry → Prop}
    {failed : Failure → Registry → Prop} :
    Leaves (liftOutcome outcome) registry returned failed ↔
      Meets outcome (returned · registry) (failed · registry) := by
  cases outcome <;> rfl

theorem yields_liftOutcome {outcome : Outcome α} {result : α} :
    Yields (liftOutcome outcome) registry result after ↔ outcome = .ok result ∧ after = registry := by
  constructor
  · intro yields
    cases outcome <;> cases yields
    exact ⟨rfl, rfl⟩
  · rintro ⟨rfl, rfl⟩
    rfl

theorem upholds_liftOutcome (outcome : Outcome α) : Upholds invariant (liftOutcome outcome) := by
  intro registry holds
  rw [leaves_liftOutcome]
  cases outcome <;> exact holds

/-! ### Declarations

A declaration that is refused leaves the registry as it is. Otherwise it adds one class, under the next
key, and a struct beside if it is the declaration of a struct. -/

section Declarations

variable {reference name : String} {fields : List Field} {description : Option String}
variable {failed : Failure → Registry → Prop} (refused : ∀ failure, failed failure registry)
include refused

theorem leaves_addClass_of_added {doc : Option String} {ancestors : List ClassKey}
    {classFields : List ClassField} {returned : ClassKey → Registry → Prop}
    (added : ∀ cls : RecordClass,
      cls = ⟨registry.catalog.nextKey, name, doc, ancestors, classFields⟩ →
        returned cls.key
          ({ registry with catalog := cls :: registry.catalog }.declare reference (.record cls.key))) :
    Leaves (addClass reference name doc ancestors classFields) registry returned failed := by
  rw [addClass, leaves_bind, leaves_get]
  cases registry.library.objection? classFields with
  | some fault => exact refused _
  | none => exact added _ rfl

theorem leaves_buildClass_of_held {ancestors : List ClassKey}
    {returned : ClassKey → Registry → Prop}
    (held : ∀ classFields, fields.mapM (RecordClass.fieldOf registry.structs) = .ok classFields →
      Leaves (addClass reference name description ancestors (RecordClass.latest classFields)) registry
        returned failed) :
    Leaves (buildClass reference name fields description ancestors) registry returned failed := by
  rw [buildClass, leaves_bind, leaves_get, leaves_bind, leaves_liftOutcome]
  cases areHeld : fields.mapM (RecordClass.fieldOf registry.structs) with
  | error failure => exact refused failure
  | ok classFields => exact held classFields areHeld

/-- The struct is entered as the one of its class, and under its name. -/
theorem leaves_defineStruct_of_built {returned : StructId → Registry → Prop}
    (built : Leaves (buildClass reference name fields description [.base]) registry
      (fun key between =>
        let (id, added) := between.add ⟨name, some key, fields, description⟩
        returned id ((added.enterClass key id).enterName name id)) failed) :
    Leaves (defineStruct reference name fields description) registry returned failed := by
  rw [defineStruct, leaves_bind, checkNames]
  split
  · exact refused _
  · rw [leaves_pure, leaves_bind]
    exact built

/-- The class of a record is built under its name, or, without one, as one that extends the class of
unnamed records. -/
theorem leaves_defineRecord_of_built {name : Option String}
    {returned : FixedRecord → Registry → Prop}
    (built : Leaves (buildClass reference (name.getD anonymousClass.name) fields description
        (name.elim [.anonymous, .base] fun _ => [.base])) registry
      (fun key after => returned ⟨fields, name, some key, description⟩ after) failed) :
    Leaves (defineRecord reference name fields description) registry returned failed := by
  unfold defineRecord
  cases name with
  | none =>
      rw [leaves_bind]
      exact built
  | some name =>
      rw [leaves_bind, checkNames]
      split
      · exact refused _
      · rw [leaves_pure, leaves_bind]
        exact built

end Declarations

section Describe

variable {structFor : ClassKey → Action StructId}

theorem upholds_describeMembers {members : List TypeExpr}
    (described : ∀ member ∈ members, Upholds invariant (describe structFor member)) :
    Upholds invariant (describeMembers structFor members) := by
  induction members with
  | nil => exact .pure []
  | cons member rest ih =>
      obtain ⟨first, others⟩ := List.forall_mem_cons.mp described
      rw [describeMembers]
      split
      · exact ih others
      · apply first.bind
        intro descriptor
        exact (ih others).bind fun _ => .pure _

variable (each : ∀ key, Upholds invariant (structFor key))
include each

theorem upholds_describe (expr : TypeExpr) : Upholds invariant (describe structFor expr) := by
  induction expr using TypeExpr.induction with
  | collection kind element ih =>
      rw [describe]
      exact ih.bind fun _ => .pure _
  | tuple items ih =>
      cases items with
      | nil => exact .pure _
      | cons item rest =>
          rw [describe]
          exact (ih item List.mem_cons_self).bind fun _ => .pure _
  | dict key value keyIh valueIh =>
      rw [describe]
      exact keyIh.bind fun _ => valueIh.bind fun _ => .pure _
  | union members ih =>
      rw [describe]
      apply (upholds_describeMembers ih).bind
      intro described
      split <;> exact .pure _
  | annotated inner ih =>
      rw [describe]
      exact ih
  | record key =>
      rw [describe]
      exact (each key).bind fun _ => .pure _
  | _ => exact .pure _

theorem upholds_fieldFrom (field : ClassField) : Upholds invariant (fieldFrom structFor field) := by
  rw [fieldFrom]
  apply (upholds_liftOutcome _).bind
  intro default
  apply (upholds_describe each field.type).bind
  intro type
  exact .pure _

end Describe

theorem upholds_derive (before : Registry) (fuel : Nat) (key : ClassKey) :
    Upholds before.Retains (derive fuel key) := by
  induction fuel generalizing key with
  | zero =>
      rw [derive]
      exact Upholds.get.bind fun _ => .pure _
  | succ fuel ih =>
      intro registry retains
      cases entered : registry.structOf? key with
      | some id => exact (leaves_derive_of_entered entered _).mpr retains
      | none =>
          cases found : registry.catalog.get? key with
          | none =>
              simpa only [derive, leaves_bind, leaves_get, leaves_pure, entered, found] using retains
          | some cls =>
              have withClass : before.Retains (registry.withClass key cls) :=
                (retains.trans (.add registry (unsealed registry.library key cls))).trans
                  (.of_same rfl rfl rfl)
              have each (field) (_ : field ∈ cls.fields) := upholds_fieldFrom ih field
              rw [leaves_derive_of_unknown entered found]
              apply (Upholds.mapM each _ withClass).imp
              · intro fields between isRetained
                exact (isRetained.setFields retains.places fields).trans (.of_same rfl rfl rfl)
              · intro failure between isRetained
                exact isRetained.trans (.of_same rfl rfl rfl)

theorem upholds_fromClass (before : Registry) (key : ClassKey) :
    Upholds before.Retains (fromClass key) := by
  rw [fromClass]
  exact Upholds.get.bind fun registry => upholds_derive before _ key

theorem upholds_addClass (before : Registry) (reference name : String) (doc : Option String)
    (ancestors : List ClassKey) (fields : List ClassField) :
    Upholds before.Retains (addClass reference name doc ancestors fields) := by
  intro registry retains
  refine leaves_addClass_of_added (fun _ => retains) fun cls isClass => ?_
  have isNew : cls.key = registry.catalog.nextKey := congrArg RecordClass.key isClass
  exact (retains.trans (.addClass registry isNew)).trans (.declare _ _ _)

theorem upholds_buildClass (before : Registry) (reference name : String) (fields : List Field)
    (description : Option String) (ancestors : List ClassKey) :
    Upholds before.Retains (buildClass reference name fields description ancestors) :=
  fun registry retains => leaves_buildClass_of_held (fun _ => retains) fun _ _ =>
    upholds_addClass before reference name description ancestors _ registry retains

theorem upholds_defineStruct (before : Registry) (reference name : String) (fields : List Field)
    (description : Option String) :
    Upholds before.Retains (defineStruct reference name fields description) := by
  intro registry retains
  apply leaves_defineStruct_of_built fun _ => retains
  apply (upholds_buildClass before reference name fields description [.base] registry retains).imp
  · exact fun _ between retains => (retains.trans (.add between _)).trans (.of_same rfl rfl rfl)
  · exact fun _ _ retains => retains

theorem upholds_defineRecord (before : Registry) (reference : String) (name : Option String)
    (fields : List Field) (description : Option String) :
    Upholds before.Retains (defineRecord reference name fields description) :=
  fun registry retains => leaves_defineRecord_of_built (fun _ => retains)
    (upholds_buildClass before reference _ fields description _ registry retains)

/-! ## Uses -/

/-- A registry is used once, successfully or not. -/
inductive Use (registry : Registry) : Registry → Prop where
  | enum (name : String) (mixin : Option Mixin) (members : List (String × Value)) :
      Use registry (registry.declareEnum name mixin members)
  | cls (reference name : String) (doc : Option String) (ancestors : List ClassKey)
      (fields : List ClassField) :
      Use registry ((addClass reference name doc ancestors fields).run registry).2
  | struct (reference name : String) (fields : List Field) (description : Option String) :
      Use registry ((defineStruct reference name fields description).run registry).2
  | record (reference : String) (name : Option String) (fields : List Field)
      (description : Option String) :
      Use registry ((defineRecord reference name fields description).run registry).2
  | derive (key : ClassKey) : Use registry ((fromClass key).run registry).2
  | describe (expr : TypeExpr) : Use registry ((descriptorFor expr).run registry).2

theorem Use.retains (used : registry.Use after) : registry.Retains after := by
  have start := Retains.refl registry
  cases used with
  | enum name mixin members => exact .declare registry name _
  | cls reference name doc ancestors fields =>
      exact (upholds_addClass registry reference name doc ancestors fields).run start
  | struct reference name fields description =>
      exact (upholds_defineStruct registry reference name fields description).run start
  | record reference name fields description =>
      exact (upholds_defineRecord registry reference name fields description).run start
  | derive key => exact (upholds_fromClass registry key).run start
  | describe expr => exact (upholds_describe (upholds_fromClass registry) expr).run start

end Registry

end TypedReply
