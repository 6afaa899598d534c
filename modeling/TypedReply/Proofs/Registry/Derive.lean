import TypedReply.Proofs.Action
import TypedReply.Proofs.Aligned
import TypedReply.Proofs.Record.Typing
import TypedReply.Registry

/-!
# The structs of classes

The struct of a class is derived once and found again. A registry is faithful to its classes if the
struct of every class describes the fields of the class; while classes are in progress, theirs need
not yet. Deriving the struct of a class goes from one faithful registry to another that knows more
classes, and the fuel it has is enough: every class on the way is a further one of the catalog.
-/

namespace TypedReply

/-! ## Descriptions -/

/-- A descriptor describes a portable type, its classes by the structs that a registry has for
them. -/
inductive TypeExpr.Describes (registry : Registry) : TypeExpr → Descriptor → Prop where
  | scalar (kind : ScalarKind) : Describes registry (.scalar kind) (.scalar kind)
  | enum (cls : EnumClass) : Describes registry (.enum cls) (.enum (.ofClass cls))
  | literal (values : List Value) : Describes registry (.literal values) (.enum (.choices values))
  | list {element : TypeExpr} {descriptor : Descriptor}
      (describes : Describes registry element descriptor) :
      Describes registry (.collection .list element) (.array descriptor)
  | dict {element : TypeExpr} {descriptor : Descriptor}
      (describes : Describes registry element descriptor) :
      Describes registry (.dict (.scalar .string) element) (.map (.scalar .string) descriptor)
  | record {key : ClassKey} {id : StructId} (entered : registry.structOf? key = some id) :
      Describes registry (.record key) (.struct id)
  | optional {members : List TypeExpr} {inner : TypeExpr} {descriptor : Descriptor}
      (others : members.filter (!·.isNone) = [inner]) (nullable : members.any isNone = true)
      (describes : Describes registry inner descriptor) :
      Describes registry (.union members) (.optional descriptor)
  | union {members : List TypeExpr} {keys : List ClassKey} {ids : List StructId}
      (others : members.filter (!·.isNone) = keys.map .record) (several : 1 < keys.length)
      (entered : List.Forall₂ (fun key id => registry.structOf? key = some id) keys ids) :
      Describes registry (.union members)
        (.union (ids.map .struct ++ if members.any isNone then [.null] else []))

/-- A declared field describes a field of a class. -/
structure ClassField.Describes (registry : Registry) (classField : ClassField) (field : Field) :
    Prop where
  name : field.name = classField.wireName
  type : classField.type.Describes registry field.type
  required : field.required = classField.presence.isRequired
  default : classField.presence.fallback = .ok field.default

/-! ## Extensions -/

namespace Registry

/-- A registry has the library and the classes of another, and the structs that the other has for
them. -/
structure Extends (before after : Registry) : Prop where
  library : after.library = before.library
  catalog : after.catalog = before.catalog
  keeps : ∀ key id, before.structOf? key = some id → after.structOf? key = some id

theorem Extends.refl (registry : Registry) : registry.Extends registry :=
  ⟨rfl, rfl, fun _ _ entered => entered⟩

theorem Extends.trans {first second third : Registry} (earlier : first.Extends second)
    (later : second.Extends third) : first.Extends third :=
  ⟨later.library.trans earlier.library, later.catalog.trans earlier.catalog,
    fun key id entered => later.keeps key id (earlier.keeps key id entered)⟩

end Registry

/-- What describes a type still does so in an extended registry. -/
theorem TypeExpr.Describes.extend {before after : Registry} (extend : before.Extends after)
    {expr : TypeExpr} {descriptor : Descriptor} (describes : expr.Describes before descriptor) :
    expr.Describes after descriptor := by
  induction describes with
  | scalar kind => exact .scalar kind
  | enum cls => exact .enum cls
  | literal values => exact .literal values
  | list _ ih => exact .list ih
  | dict _ ih => exact .dict ih
  | record entered => exact .record (extend.keeps _ _ entered)
  | optional others nullable _ ih => exact .optional others nullable ih
  | union others several entered =>
      exact .union others several (entered.imp fun key id => extend.keeps key id)

theorem ClassField.Describes.extend {before after : Registry} (extend : before.Extends after)
    {classField : ClassField} {field : Field} (describes : classField.Describes before field) :
    classField.Describes after field :=
  { describes with type := describes.type.extend extend }

namespace Registry

/-! ## Operations that extend a registry -/

/-- Where an invariant holds, an operation that succeeds extends the registry and keeps the invariant,
and the result and the registry after it are related; if it fails, something is known of the registry
that it leaves. -/
def Proceeds {α : Type} (invariant : Registry → Prop) (action : Action α)
    (related : Registry → α → Prop) (failed : Registry → Prop) : Prop :=
  ∀ before, invariant before → Leaves action before
    (fun result after => invariant after ∧ before.Extends after ∧ related after result)
    fun _ after => failed after

/-- Where an invariant holds, an operation extends the registry and keeps the invariant, whether it
succeeds or fails; the result and the registry after it are related, and something is known if there
is none. -/
def Advances {α : Type} (invariant : Registry → Prop) (action : Action α)
    (related : Registry → α → Prop) (failed : Prop) : Prop :=
  ∀ before, invariant before → Leaves action before
    (fun result after => invariant after ∧ before.Extends after ∧ related after result)
    fun _ after => invariant after ∧ before.Extends after ∧ failed

/-- Where an invariant holds, an operation succeeds, extends the registry and keeps the invariant;
the result and the registry after it are related. -/
def Grows {α : Type} (invariant : Registry → Prop) (action : Action α)
    (related : Registry → α → Prop) : Prop :=
  ∀ before, invariant before → ∃ result after, Yields action before result after ∧
    invariant after ∧ before.Extends after ∧ related after result

/-- A relation of results to registries that lasts when the registry is extended. -/
def Lasts {α : Type} (related : Registry → α → Prop) : Prop :=
  ∀ before after result, before.Extends after → related before result → related after result

variable {α β : Type} {invariant : Registry → Prop} {failed : Prop}

theorem grows_iff_advances {action : Action α} {related : Registry → α → Prop} :
    Grows invariant action related ↔ Advances invariant action related False := by
  refine forall₂_congr fun before _ => ?_
  unfold Leaves Yields
  rcases action.run before with ⟨failure | result, after⟩
  · constructor
    · rintro ⟨_, _, yields, -⟩
      cases yields
    · exact fun fails => fails.2.2.elim
  · constructor
    · rintro ⟨_, _, yields, holds⟩
      cases yields
      exact holds
    · exact fun holds => ⟨result, after, rfl, holds⟩

theorem lasts_aligned {related : α → Registry → β → Prop}
    (lasts : ∀ value, Lasts (related value)) (values : List α) :
    Lasts fun registry results =>
      List.Forall₂ (fun value result => related value registry result) values results :=
  fun before after _ extend aligned =>
    aligned.imp fun value result => lasts value before after result extend

namespace Proceeds

variable {failed : Registry → Prop}

theorem pure {related : Registry → α → Prop} {result : α}
    (holds : ∀ registry, related registry result) :
    Proceeds invariant (Pure.pure result) related failed :=
  fun registry invariantHolds => ⟨invariantHolds, .refl registry, holds registry⟩

theorem imp {action : Action α} {related implied : Registry → α → Prop}
    (proceeds : Proceeds invariant action related failed)
    (implies : ∀ registry result, related registry result → implied registry result) :
    Proceeds invariant action implied failed :=
  fun before invariantHolds => (proceeds before invariantHolds).imp
    (fun result after ⟨afterHolds, extend, isRelated⟩ =>
      ⟨afterHolds, extend, implies after result isRelated⟩)
    fun _ _ fails => fails

/-- One operation after another; what the first result is lasts until the end. -/
theorem bind {action : Action α} {next : α → Action β} {held : Registry → α → Prop}
    {related : Registry → β → Prop} (lasts : Lasts held)
    (first : Proceeds invariant action held failed)
    (second : ∀ value, Proceeds invariant (next value)
      (fun after result => held after value → related after result) failed) :
    Proceeds invariant (action >>= next) related failed := by
  intro before invariantHolds
  rw [leaves_bind]
  apply (first before invariantHolds).imp
  · rintro value between ⟨betweenHolds, earlier, isHeld⟩
    apply (second value between betweenHolds).imp
    · rintro result after ⟨afterHolds, later, isRelated⟩
      exact ⟨afterHolds, earlier.trans later, isRelated (lasts _ _ value later isHeld)⟩
    · exact fun _ _ fails => fails
  · exact fun _ _ fails => fails

theorem liftOutcome {outcome : Outcome α} (fails : ∀ failure, outcome = .error failure →
      ∀ registry, invariant registry → failed registry) :
    Proceeds invariant (liftOutcome outcome) (fun _ value => outcome = .ok value) failed := by
  intro registry invariantHolds
  cases outcome with
  | ok value => exact ⟨invariantHolds, .refl registry, rfl⟩
  | error failure => exact fails failure rfl registry invariantHolds

/-- An operation on every value of a list leaves an aligned list. -/
theorem mapM {operation : α → Action β} {related : α → Registry → β → Prop}
    (lasts : ∀ value, Lasts (related value)) {values : List α}
    (each : ∀ value ∈ values, Proceeds invariant (operation value) (related value) failed) :
    Proceeds invariant (values.mapM operation) (fun after results =>
      List.Forall₂ (fun value result => related value after result) values results) failed := by
  induction values with
  | nil => exact pure fun _ => .nil
  | cons value rest ih =>
      rw [List.mapM_cons]
      refine bind (lasts value) (each value List.mem_cons_self) fun first => ?_
      exact bind (lasts_aligned lasts rest)
        (ih fun other isLater => each other (List.mem_cons_of_mem _ isLater))
        fun others => pure fun _ areRest isFirst => .cons isFirst areRest

/-- Descriptors of the members other than null are related to them one by one. -/
theorem describeMembers {structFor : ClassKey → Action StructId}
    {related : TypeExpr → Registry → Descriptor → Prop} (lasts : ∀ member, Lasts (related member))
    {members : List TypeExpr} (each : ∀ member ∈ members.filter (!·.isNone),
      Proceeds invariant (describe structFor member) (related member) failed) :
    Proceeds invariant (describeMembers structFor members) (fun after descriptors =>
      List.Forall₂ (fun member descriptor => related member after descriptor)
        (members.filter (!·.isNone)) descriptors) failed := by
  induction members with
  | nil => exact pure fun _ => .nil
  | cons member rest ih =>
      rw [Registry.describeMembers]
      cases isNone : member.isNone with
      | true =>
          simp only [if_true]
          simpa [isNone] using ih (by simpa [isNone] using each)
      | false =>
          simp only [List.filter_cons, isNone, Bool.not_false, if_true, List.forall_mem_cons]
            at each ⊢
          refine bind (lasts member) each.1 fun descriptor => ?_
          exact bind (lasts_aligned lasts _) (ih each.2) fun others =>
            pure fun _ areRest isFirst => .cons isFirst areRest

end Proceeds

/-- To advance is to proceed from every registry that was extended so far, with what extends it left
also by a failure. -/
theorem advances_iff_proceeds {action : Action α} {related : Registry → α → Prop} :
    Advances invariant action related failed ↔
      ∀ start : Registry, Proceeds (fun registry => invariant registry ∧ start.Extends registry)
        action related
        fun registry => invariant registry ∧ start.Extends registry ∧ failed := by
  constructor
  · intro advances start before holds
    apply (advances before holds.1).imp
    · rintro result after ⟨afterHolds, extend, isRelated⟩
      exact ⟨⟨afterHolds, holds.2.trans extend⟩, extend, isRelated⟩
    · rintro failure after ⟨afterHolds, extend, hasFailed⟩
      exact ⟨afterHolds, holds.2.trans extend, hasFailed⟩
  · intro proceeds before invariantHolds
    apply (proceeds before before ⟨invariantHolds, .refl before⟩).imp
    · rintro result after ⟨⟨afterHolds, -⟩, extend, isRelated⟩
      exact ⟨afterHolds, extend, isRelated⟩
    · exact fun _ _ fails => fails

namespace Advances

theorem pure {related : Registry → α → Prop} {result : α}
    (holds : ∀ registry, related registry result) :
    Advances invariant (Pure.pure result) related failed :=
  advances_iff_proceeds.mpr fun _ => .pure holds

theorem imp {action : Action α} {related implied : Registry → α → Prop} {escaped : Prop}
    (advances : Advances invariant action related failed)
    (implies : ∀ registry result, related registry result → implied registry result)
    (escapes : failed → escaped) : Advances invariant action implied escaped :=
  fun before invariantHolds => (advances before invariantHolds).imp
    (fun result after ⟨afterHolds, extend, isRelated⟩ =>
      ⟨afterHolds, extend, implies after result isRelated⟩)
    fun _ _ ⟨afterHolds, extend, hasFailed⟩ => ⟨afterHolds, extend, escapes hasFailed⟩

theorem upholds {action : Action α} {related : Registry → α → Prop}
    (advances : Advances invariant action related failed) : Upholds invariant action :=
  fun before invariantHolds => (advances before invariantHolds).imp
    (fun _ _ holds => holds.1) fun _ _ holds => holds.1

/-- One operation after another; what the first result is lasts until the end. -/
theorem bind {action : Action α} {next : α → Action β} {held : Registry → α → Prop}
    {related : Registry → β → Prop} (lasts : Lasts held)
    (first : Advances invariant action held failed)
    (second : ∀ value, Advances invariant (next value)
      (fun after result => held after value → related after result) failed) :
    Advances invariant (action >>= next) related failed :=
  advances_iff_proceeds.mpr fun start => .bind lasts (advances_iff_proceeds.mp first start)
    fun value => advances_iff_proceeds.mp (second value) start

theorem liftOutcome {outcome : Outcome α} (fails : ∀ failure, outcome = .error failure → failed) :
    Advances invariant (liftOutcome outcome) (fun _ value => outcome = .ok value) failed :=
  advances_iff_proceeds.mpr fun _ => .liftOutcome fun failure isError _ holds =>
    ⟨holds.1, holds.2, fails failure isError⟩

/-- An operation on every value of a list leaves an aligned list. -/
theorem mapM {operation : α → Action β} {related : α → Registry → β → Prop}
    (lasts : ∀ value, Lasts (related value)) {values : List α}
    (each : ∀ value ∈ values, Advances invariant (operation value) (related value) failed) :
    Advances invariant (values.mapM operation) (fun after results =>
      List.Forall₂ (fun value result => related value after result) values results) failed :=
  advances_iff_proceeds.mpr fun start => .mapM lasts fun value isValue =>
    advances_iff_proceeds.mp (each value isValue) start

/-- Descriptors of the members other than null are related to them one by one. -/
theorem describeMembers {structFor : ClassKey → Action StructId}
    {related : TypeExpr → Registry → Descriptor → Prop} (lasts : ∀ member, Lasts (related member))
    {members : List TypeExpr} (each : ∀ member ∈ members.filter (!·.isNone),
      Advances invariant (describe structFor member) (related member) failed) :
    Advances invariant (describeMembers structFor members) (fun after descriptors =>
      List.Forall₂ (fun member descriptor => related member after descriptor)
        (members.filter (!·.isNone)) descriptors) failed :=
  advances_iff_proceeds.mpr fun start => .describeMembers lasts fun member isMember =>
    advances_iff_proceeds.mp (each member isMember) start

end Advances

namespace Grows

theorem pure {related : Registry → α → Prop} {result : α}
    (holds : ∀ registry, related registry result) :
    Grows invariant (Pure.pure result) related :=
  grows_iff_advances.mpr (.pure holds)

/-- One operation after another; what the first result is lasts until the end. -/
theorem bind {action : Action α} {next : α → Action β} {held : Registry → α → Prop}
    {related : Registry → β → Prop} (lasts : Lasts held) (first : Grows invariant action held)
    (second : ∀ value, Grows invariant (next value) fun after result =>
      held after value → related after result) :
    Grows invariant (action >>= next) related :=
  grows_iff_advances.mpr (.bind lasts (grows_iff_advances.mp first) fun value =>
    grows_iff_advances.mp (second value))

theorem liftOutcome {outcome : Outcome α} {result : α} (succeeds : outcome = .ok result) :
    Grows invariant (liftOutcome outcome) fun _ value => outcome = .ok value :=
  grows_iff_advances.mpr (.liftOutcome fun failure fails => by cases succeeds.symm.trans fails)

/-- An operation on every value of a list leaves an aligned list. -/
theorem mapM {operation : α → Action β} {related : α → Registry → β → Prop}
    (lasts : ∀ value, Lasts (related value)) {values : List α}
    (each : ∀ value ∈ values, Grows invariant (operation value) (related value)) :
    Grows invariant (values.mapM operation) fun after results =>
      List.Forall₂ (fun value result => related value after result) values results :=
  grows_iff_advances.mpr (.mapM lasts fun value isValue => grows_iff_advances.mp (each value isValue))

end Grows

/-! ## Types -/

theorem lasts_describes (expr : TypeExpr) :
    Lasts fun registry descriptor => expr.Describes registry descriptor :=
  fun _ _ _ extend describes => describes.extend extend

/-- Descriptors of the members other than null describe them one by one. -/
theorem grows_describeMembers {structFor : ClassKey → Action StructId} {members : List TypeExpr}
    (each : ∀ member ∈ members.filter (!·.isNone),
      Grows invariant (describe structFor member) fun after => member.Describes after) :
    Grows invariant (describeMembers structFor members) fun after descriptors =>
      List.Forall₂ (fun member => member.Describes after) (members.filter (!·.isNone))
        descriptors :=
  grows_iff_advances.mpr (.describeMembers lasts_describes fun member isMember =>
    grows_iff_advances.mp (each member isMember))

/-- What describes classes are their structs. -/
theorem exists_ids_of_describes {registry : Registry} {keys : List ClassKey}
    {descriptors : List Descriptor}
    (aligned : List.Forall₂ (fun expr => TypeExpr.Describes registry expr) (keys.map .record)
      descriptors) :
    ∃ ids : List StructId, descriptors = ids.map .struct ∧
      List.Forall₂ (fun key id => registry.structOf? key = some id) keys ids := by
  induction keys generalizing descriptors with
  | nil =>
      cases aligned
      exact ⟨[], rfl, .nil⟩
  | cons key rest ih =>
      cases aligned with
      | cons describes aligned =>
          cases describes with
          | record entered =>
              obtain ⟨ids, rfl, areEntered⟩ := ih aligned
              exact ⟨_ :: ids, rfl, .cons entered areEntered⟩

/-- Where the struct of every class can be had, so can a descriptor of every portable type. -/
theorem grows_describe {structFor : ClassKey → Action StructId} {catalog : Catalog}
    (structs : ∀ key cls, catalog.get? key = some cls →
      Grows invariant (structFor key) fun after id => after.structOf? key = some id)
    {expr : TypeExpr} (portable : expr.Portable catalog) :
    Grows invariant (describe structFor expr) fun after => expr.Describes after := by
  induction portable with
  | scalar kind =>
      rw [describe]
      exact .pure fun _ => .scalar kind
  | enum textual =>
      rw [describe]
      exact .pure fun _ => .enum _
  | literal primitive =>
      rw [describe]
      exact .pure fun _ => .literal _
  | @list element _ ih =>
      rw [describe]
      exact .bind (lasts_describes element) ih fun descriptor => .pure fun _ describes =>
        .list describes
  | @dict element _ ih =>
      rw [describe, describe, pure_bind]
      exact .bind (lasts_describes element) ih fun descriptor => .pure fun _ describes =>
        .dict describes
  | @record key cls found =>
      rw [describe]
      exact .bind (fun _ _ id extend => extend.keeps key id) (structs key cls found)
        fun id => .pure fun _ entered => .record entered
  | @optional members inner others nullable _ _ _ ih =>
      have described := @grows_describeMembers invariant structFor members (by simpa [others] using ih)
      rw [describe]
      refine .bind (lasts_aligned lasts_describes _) described fun descriptors => ?_
      rw [others, nullable]
      match descriptors with
      | [] => exact .pure fun _ aligned => nomatch aligned
      | [descriptor] =>
          refine .pure fun _ aligned => ?_
          cases aligned with
          | cons describes _ => exact .optional others nullable describes
      | _ :: _ :: _ =>
          refine .pure fun _ aligned => ?_
          cases aligned with
          | cons _ rest => cases rest
  | @union members classes others several found =>
      have isKeys : members.filter (!·.isNone) = (classes.map (·.key)).map .record := by
        rw [others, List.map_map]
        rfl
      have each (member) (isMember : member ∈ members.filter (!·.isNone)) :
          Grows invariant (describe structFor member) fun after => member.Describes after := by
        rw [others, List.mem_map] at isMember
        obtain ⟨cls, isClass, rfl⟩ := isMember
        rw [describe]
        exact .bind (fun _ _ id extend => extend.keeps cls.key id)
          (structs cls.key cls (found cls isClass)) fun id => .pure fun _ entered => .record entered
      rw [describe]
      refine .bind (lasts_aligned lasts_describes _) (grows_describeMembers each)
        fun descriptors => ?_
      rw [isKeys]
      have isUnion (after : Registry) (aligned : List.Forall₂
          (fun expr => TypeExpr.Describes after expr) ((classes.map (·.key)).map .record)
          descriptors) : TypeExpr.Describes after (.union members)
          (.union (descriptors ++ if members.any TypeExpr.isNone then [.null] else [])) := by
        obtain ⟨ids, rfl, entered⟩ := exists_ids_of_describes aligned
        exact .union isKeys (by simpa using several) entered
      have short {after : Registry} {descriptors : List Descriptor} (few : descriptors.length ≤ 1) :
          ¬List.Forall₂ (fun expr => TypeExpr.Describes after expr)
            ((classes.map (·.key)).map .record) descriptors := by
        intro aligned
        have sameLength := aligned.length_eq
        rw [List.length_map, List.length_map] at sameLength
        omega
      match descriptors, nullable : members.any TypeExpr.isNone with
      | [], true => exact .pure fun _ aligned => (short (by simp) aligned).elim
      | [], false => exact .pure fun _ aligned => (short (by simp) aligned).elim
      | [_], true => exact .pure fun _ aligned => (short (by simp) aligned).elim
      | [_], false => exact .pure fun _ aligned => (short (by simp) aligned).elim
      | first :: second :: rest, true =>
          exact .pure fun after aligned => by simpa [nullable] using isUnion after aligned
      | first :: second :: rest, false =>
          exact .pure fun after aligned => by simpa [nullable] using isUnion after aligned

/-! ## Fields -/

theorem lasts_describesField (field : ClassField) :
    Lasts fun registry declared => field.Describes registry declared :=
  fun _ _ _ extend describes => describes.extend extend

/-- A field of a class with a portable type and a default that can be had is described. -/
theorem grows_fieldFrom {structFor : ClassKey → Action StructId} {catalog : Catalog}
    (structs : ∀ key cls, catalog.get? key = some cls →
      Grows invariant (structFor key) fun after id => after.structOf? key = some id)
    {field : ClassField} (portable : field.type.Portable catalog) {default : Option Value}
    (falls : field.presence.fallback = .ok default) :
    Grows invariant (fieldFrom structFor field) fun after => field.Describes after := by
  rw [fieldFrom]
  refine .bind (fun _ _ _ _ held => held) (.liftOutcome falls) fun default => ?_
  refine .bind (lasts_describes field.type) (grows_describe structs portable) fun type => ?_
  exact .pure fun _ describes isDefault => ⟨rfl, describes, rfl, isDefault⟩

/-! ## Classes -/

/-- The structs of a registry are those of its classes: each bears the name of its class, and, unless
the class is in progress, describes the fields of the class. -/
structure FaithfulExcept (registry : Registry) (pending : List ClassKey) : Prop where
  places : ∀ key id, registry.structOf? key = some id → id < registry.structs.length ∧
    (registry.structs.at id).cls = some key
  names : ∀ key id, registry.structOf? key = some id → ∀ cls, registry.catalog.get? key = some cls →
    (registry.structs.at id).name = cls.name
  fields : ∀ key id, registry.structOf? key = some id → key ∉ pending →
    ∀ cls, registry.catalog.get? key = some cls →
      List.Forall₂ (fun field declared => field.Describes registry declared) cls.fields
        (registry.structs.at id).fields

/-- The struct of every class describes the class. -/
def Faithful (registry : Registry) : Prop := registry.FaithfulExcept []

theorem faithful_of_no_classes {registry : Registry} (none : registry.byClass = []) :
    registry.Faithful := by
  have unknown (key) (id) : registry.structOf? key ≠ some id := by
    simp [structOf?, none]
  exact ⟨fun key id entered => (unknown key id entered).elim,
    fun key id entered => (unknown key id entered).elim,
    fun key id entered => (unknown key id entered).elim⟩

/-- The classes without a struct. -/
def missing (registry : Registry) : List ClassKey :=
  (.base :: .anonymous :: registry.catalog.map (·.key)).filter fun key =>
    (registry.structOf? key).isNone

theorem mem_missing {registry : Registry} {key : ClassKey} {cls : RecordClass}
    (found : registry.catalog.get? key = some cls) (unknown : registry.structOf? key = none) :
    key ∈ registry.missing := by
  refine List.mem_filter.mpr ⟨?_, by simp [unknown]⟩
  cases key with
  | base => simp
  | anonymous => simp
  | declared number =>
      have isMember := List.mem_of_find?_eq_some found
      have sameKey : cls.key = .declared number := Catalog.key_of_get? found
      simp only [List.mem_cons, reduceCtorEq, List.mem_map, false_or]
      exact ⟨cls, isMember, sameKey⟩

theorem length_missing_lt (registry : Registry) :
    registry.missing.length < registry.catalog.length + 3 := by
  have all := List.length_filter_le (fun key => (registry.structOf? key).isNone)
    (.base :: .anonymous :: registry.catalog.map (·.key))
  rw [missing]
  simp only [List.length_cons, List.length_map] at all
  omega

theorem length_missing_le (registry : Registry) :
    registry.missing.length ≤ registry.catalog.length + 3 :=
  Nat.le_of_lt registry.length_missing_lt

theorem Extends.length_missing_le {before after : Registry} (extend : before.Extends after) :
    after.missing.length ≤ before.missing.length := by
  rw [missing, missing, extend.catalog]
  apply List.Sublist.length_le
  apply List.monotone_filter_right
  intro key isMissing
  cases entered : before.structOf? key with
  | none => rfl
  | some id => simp [extend.keeps key id entered] at isMissing

/-- What a key has in a list of entries it still has when another key is taken out. -/
theorem lookup_filter_of_ne {κ : Type} [DecidableEq κ] (entries : List (κ × StructId))
    {key other : κ} (different : other ≠ key) :
    (entries.filter (·.1 != key)).lookup other = entries.lookup other := by
  induction entries with
  | nil => rfl
  | cons entry rest ih =>
      obtain ⟨found, place⟩ := entry
      by_cases dropped : found = key
      · subst dropped
        simpa [List.lookup_cons, beq_false_of_ne different] using ih
      · by_cases hit : other = found
        · simp [dropped, hit]
        · simpa [dropped, List.lookup_cons, beq_false_of_ne hit] using ih

theorem structOf?_enterClass_of_ne (registry : Registry) {key other : ClassKey} (id : StructId)
    (different : other ≠ key) : (registry.enterClass key id).structOf? other =
      registry.structOf? other := by
  simp only [enterClass, structOf?, List.lookup_cons, beq_false_of_ne different]
  exact lookup_filter_of_ne _ different

/-- A registry with a class entered, its struct still without fields. -/
def withClass (registry : Registry) (key : ClassKey) (cls : RecordClass) : Registry :=
  (registry.add (unsealed registry.library key cls)).2.enterClass key
    (registry.add (unsealed registry.library key cls)).1

/-- A registry with the fields of a struct set and its name entered. -/
def withFields (registry : Registry) (id : StructId) (fields : List Field) (name : String) :
    Registry := (registry.setFields id fields).enterName name id

section WithClass

variable {registry : Registry} {key : ClassKey} (cls : RecordClass)

theorem structOf?_withClass_of_ne {other : ClassKey} (different : other ≠ key) :
    (registry.withClass key cls).structOf? other = registry.structOf? other :=
  structOf?_enterClass_of_ne _ _ different

theorem structOf?_withClass_self :
    (registry.withClass key cls).structOf? key = some registry.structs.length :=
  structOf?_enterClass_self _ _ _

theorem extends_withClass (unknown : registry.structOf? key = none) :
    registry.Extends (registry.withClass key cls) := by
  refine ⟨rfl, rfl, fun other id entered => ?_⟩
  rw [structOf?_withClass_of_ne cls, entered]
  rintro rfl
  rw [unknown] at entered
  cases entered

theorem extends_withFields (registry : Registry) (id : StructId) (fields : List Field)
    (name : String) : registry.Extends (registry.withFields id fields name) :=
  ⟨rfl, rfl, fun _ _ entered => entered⟩

/-- A class that is entered is no longer missing. -/
theorem length_missing_withClass_lt (unknown : registry.structOf? key = none)
    (found : registry.catalog.get? key = some cls) :
    (registry.withClass key cls).missing.length < registry.missing.length := by
  have isMissing := mem_missing found unknown
  have fewer : (registry.withClass key cls).missing =
      registry.missing.filter fun other => other ≠ key := by
    rw [missing, missing, List.filter_filter]
    apply List.filter_congr
    intro other _
    by_cases same : other = key
    · subst same
      simp [structOf?_withClass_self cls]
    · simp [structOf?_withClass_of_ne cls same, same]
  rw [fewer]
  apply List.length_filter_lt_length_iff_exists.mpr
  exact ⟨key, isMissing, by simp⟩

theorem length_structs_withClass (registry : Registry) (key : ClassKey) (cls : RecordClass) :
    (registry.withClass key cls).structs.length = registry.structs.length + 1 := by
  simp [withClass, enterClass, add]

/-- The struct of a class that is entered is new. -/
theorem at_withClass_self (registry : Registry) (key : ClassKey) (cls : RecordClass) :
    (registry.withClass key cls).structs.at registry.structs.length =
    unsealed registry.library key cls :=
  registry.at_add (unsealed registry.library key cls)

theorem at_withClass_of_lt {id : StructId} (known : id < registry.structs.length) :
    (registry.withClass key cls).structs.at id = registry.structs.at id :=
  registry.at_add_of_lt (unsealed registry.library key cls) known

/-- Entering a class leaves it in progress. -/
theorem FaithfulExcept.withClass {pending : List ClassKey}
    (faithful : registry.FaithfulExcept pending) (unknown : registry.structOf? key = none)
    (found : registry.catalog.get? key = some cls) :
    (registry.withClass key cls).FaithfulExcept (key :: pending) := by
  have longer := registry.length_structs_withClass key cls
  have new := registry.at_withClass_self key cls
  constructor
  · intro other id entered
    by_cases same : other = key
    · subst same
      obtain rfl := Option.some.inj ((structOf?_withClass_self cls).symm.trans entered)
      exact ⟨longer ▸ Nat.lt_succ_self _, by rw [new]; rfl⟩
    · rw [structOf?_withClass_of_ne cls same] at entered
      obtain ⟨known, isStruct⟩ := faithful.places other id entered
      exact ⟨longer ▸ Nat.lt_succ_of_lt known, by rw [at_withClass_of_lt cls known, isStruct]⟩
  · intro other id entered otherClass isFound
    by_cases same : other = key
    · subst same
      obtain rfl := Option.some.inj ((structOf?_withClass_self cls).symm.trans entered)
      obtain rfl := Option.some.inj (found.symm.trans isFound)
      rw [new]
      rfl
    · rw [structOf?_withClass_of_ne cls same] at entered
      rw [at_withClass_of_lt cls (faithful.places other id entered).1]
      exact faithful.names other id entered otherClass isFound
  · intro other id entered notPending otherClass isFound
    rw [List.mem_cons, not_or] at notPending
    rw [structOf?_withClass_of_ne cls notPending.1] at entered
    rw [at_withClass_of_lt cls (faithful.places other id entered).1]
    exact (faithful.fields other id entered notPending.2 otherClass isFound).imp
      fun field declared describes => describes.extend (extends_withClass cls unknown)

end WithClass

section WithFields

variable {registry : Registry} {id : StructId} (fields : List Field) (name : String)

theorem at_withFields_self (known : id < registry.structs.length) :
    (registry.withFields id fields name).structs.at id =
      { registry.structs.at id with fields } := by
  simp [withFields, enterName, setFields, Store.at, known]

theorem at_withFields_of_ne {other : StructId} (different : other ≠ id) :
    (registry.withFields id fields name).structs.at other = registry.structs.at other := by
  simp [withFields, enterName, setFields, Store.at, Ne.symm different]

end WithFields

/-- Once its fields are set, a class is no longer in progress. -/
theorem FaithfulExcept.withFields {registry : Registry} {pending : List ClassKey} {key : ClassKey}
    (faithful : registry.FaithfulExcept (key :: pending)) {id : StructId}
    (entered : registry.structOf? key = some id) {cls : RecordClass}
    (found : registry.catalog.get? key = some cls) {fields : List Field}
    (describes : List.Forall₂ (fun field declared => field.Describes registry declared) cls.fields
      fields) (name : String) :
    (registry.withFields id fields name).FaithfulExcept pending := by
  obtain ⟨known, isStruct⟩ := faithful.places key id entered
  have sameLength : (registry.withFields id fields name).structs.length =
      registry.structs.length := by
    simp [Registry.withFields, enterName, setFields]
  have extend : registry.Extends (registry.withFields id fields name) :=
    ⟨rfl, rfl, fun _ _ entered => entered⟩
  have own := at_withFields_self fields name known
  constructor
  · intro other place isEntered
    obtain ⟨isKnown, isOwn⟩ := faithful.places other place isEntered
    refine ⟨by rwa [sameLength], ?_⟩
    by_cases same : place = id
    · subst same
      rw [own, isOwn]
    · rw [at_withFields_of_ne fields name same, isOwn]
  · intro other place isEntered otherClass isFound
    rw [← faithful.names other place isEntered otherClass isFound]
    by_cases same : place = id
    · subst same
      rw [own]
    · rw [at_withFields_of_ne fields name same]
  · intro other place isEntered notPending otherClass isFound
    obtain ⟨isKnown, isOwn⟩ := faithful.places other place isEntered
    by_cases same : place = id
    · subst same
      obtain rfl : key = other := Option.some.inj (isStruct.symm.trans isOwn)
      obtain rfl : cls = otherClass := Option.some.inj (found.symm.trans isFound)
      rw [own]
      exact describes.imp fun field declared describes => describes.extend extend
    · have notOwn : other ≠ key := by
        rintro rfl
        exact same (Option.some.inj (isEntered.symm.trans entered))
      rw [at_withFields_of_ne fields name same]
      exact (faithful.fields other place isEntered (by simp [notOwn, notPending]) otherClass
        isFound).imp fun field declared describes => describes.extend extend

/-! ## Deriving -/

section Derive

variable {registry : Registry} {key : ClassKey} {returned : StructId → Registry → Prop}
variable {failed : Failure → Registry → Prop}

theorem leaves_derive_of_entered {id : StructId} (entered : registry.structOf? key = some id)
    (fuel : Nat) : Leaves (derive fuel key) registry returned failed ↔ returned id registry := by
  cases fuel with
  | zero => simp only [derive, leaves_bind, leaves_get, leaves_pure, entered, Option.getD_some]
  | succ fuel => simp only [derive, leaves_bind, leaves_get, entered, leaves_pure]

/-- The struct of a class that is not registered is entered, and then sealed or taken out again. -/
theorem leaves_derive_of_unknown {cls : RecordClass} (unknown : registry.structOf? key = none)
    (found : registry.catalog.get? key = some cls) (fuel : Nat) :
    Leaves (derive (fuel + 1) key) registry returned failed ↔
      Leaves (cls.fields.mapM (fieldFrom (derive fuel))) (registry.withClass key cls)
        (fun fields between => returned registry.structs.length
          (between.withFields registry.structs.length fields cls.name))
        fun failure between => failed failure (between.leaveClass key) := by
  simp only [derive, leaves_bind, leaves_get, unknown, found, leaves_set, leaves_tryCatch,
    leaves_modify, leaves_throw, leaves_pure]
  rfl

end Derive

/-- A registry of some classes that is faithful but for those in progress, and has fuel for the
others. -/
structure Derivable (catalog : Catalog) (pending : List ClassKey) (fuel : Nat)
    (registry : Registry) : Prop where
  catalog : registry.catalog = catalog
  faithful : registry.FaithfulExcept pending
  enough : registry.missing.length ≤ fuel

/-- The struct of every class can be had, with one unit of fuel for each class that has none. The
induction is on the fuel: a class that is entered is one less to be entered below it. -/
theorem grows_derive {catalog : Catalog} (portable : catalog.Portable) (fuel : Nat)
    (pending : List ClassKey) {key : ClassKey} {cls : RecordClass}
    (found : catalog.get? key = some cls) :
    Grows (Derivable catalog pending fuel) (derive fuel key) fun after id =>
      after.structOf? key = some id := by
  induction fuel generalizing pending key cls with
  | zero =>
      intro registry derivable
      cases entered : registry.structOf? key with
      | some id =>
          refine ⟨id, registry, ?_, derivable, .refl registry, entered⟩
          rw [derive, yields_bind]
          refine ⟨registry, registry, (yields_get _).mpr ⟨rfl, rfl⟩, ?_⟩
          simp [entered]
      | none =>
          have isMissing := mem_missing (derivable.catalog ▸ found) entered
          have none := List.length_eq_zero_iff.mp (Nat.le_zero.mp derivable.enough)
          rw [none] at isMissing
          cases isMissing
  | succ fuel ih =>
      intro registry derivable
      cases entered : registry.structOf? key with
      | some id =>
          refine ⟨id, registry, ?_, derivable, .refl registry, entered⟩
          rw [derive, yields_bind]
          refine ⟨registry, registry, (yields_get _).mpr ⟨rfl, rfl⟩, ?_⟩
          simp [entered]
      | none =>
          have isFound : registry.catalog.get? key = some cls := derivable.catalog ▸ found
          have fewer := length_missing_withClass_lt cls entered isFound
          have start : Derivable catalog (key :: pending) fuel (registry.withClass key cls) :=
            ⟨derivable.catalog, derivable.faithful.withClass cls entered isFound,
              Nat.le_of_lt_succ (Nat.lt_of_lt_of_le fewer derivable.enough)⟩
          have each (field) (isField : field ∈ cls.fields) :
              Grows (Derivable catalog (key :: pending) fuel) (fieldFrom (derive fuel) field)
                fun after => field.Describes after := by
            obtain ⟨default, falls⟩ := (portable key cls found).defaults field isField
            exact grows_fieldFrom (fun other otherClass isOther => ih (key :: pending) isOther)
              ((portable key cls found).types field isField) falls
          obtain ⟨fields, between, yields, derived, later, describes⟩ :=
            Grows.mapM lasts_describesField each _ start
          have extend := (extends_withClass cls entered).trans later
          have isEntered := later.keeps key _ (structOf?_withClass_self cls)
          have isBetween : between.catalog.get? key = some cls := derived.catalog ▸ found
          have finish := derived.faithful.withFields isEntered isBetween describes cls.name
          have same := between.extends_withFields registry.structs.length fields cls.name
          refine ⟨registry.structs.length, between.withFields registry.structs.length fields cls.name,
            ?_, ⟨derived.catalog, finish, ?_⟩, extend.trans same, isEntered⟩
          · rw [derive, yields_bind]
            refine ⟨registry, registry, (yields_get _).mpr ⟨rfl, rfl⟩, ?_⟩
            simp only [entered, isFound, yields_bind]
            exact ⟨⟨⟩, _, (yields_set _ _).mpr rfl, fields, between, yields_tryCatch _ yields,
              ⟨⟩, _, (yields_modify _ _).mpr rfl, (yields_pure _ _).mpr ⟨rfl, rfl⟩⟩
          · exact Nat.le_trans (extend.trans same).length_missing_le derivable.enough

/-- The struct of a class can be had from every faithful registry of portable classes, and leaves
the registry faithful. -/
theorem exists_fromClass {registry : Registry} (portable : registry.catalog.Portable)
    (faithful : registry.Faithful) {key : ClassKey} {cls : RecordClass}
    (found : registry.catalog.get? key = some cls) :
    ∃ id after, Yields (fromClass key) registry id after ∧ after.Faithful ∧
      registry.Extends after ∧ after.structOf? key = some id := by
  obtain ⟨id, after, yields, derived, extend, entered⟩ :=
    grows_derive portable (registry.catalog.length + 3) [] found registry
      ⟨rfl, faithful, registry.length_missing_le⟩
  refine ⟨id, after, ?_, derived.faithful, extend, entered⟩
  rw [fromClass, yields_bind]
  exact ⟨registry, registry, (yields_get _).mpr ⟨rfl, rfl⟩, yields⟩

/-- Deriving the structs of classes one after another leaves a faithful registry faithful. -/
theorem exists_mapM_fromClass {registry : Registry} (portable : registry.catalog.Portable)
    (faithful : registry.Faithful) {keys : List ClassKey}
    (found : ∀ key ∈ keys, ∃ cls, registry.catalog.get? key = some cls) :
    ∃ ids after, Yields (keys.mapM fromClass) registry ids after ∧ after.Faithful ∧
      registry.Extends after := by
  have each (key) (isKey : key ∈ keys) : Grows
      (fun before => before.catalog = registry.catalog ∧ before.Faithful) (fromClass key)
      fun _ _ => True := by
    rintro before ⟨sameCatalog, isFaithful⟩
    obtain ⟨cls, isFound⟩ := found key isKey
    obtain ⟨id, after, yields, remains, extend, -⟩ :=
      exists_fromClass (sameCatalog ▸ portable) isFaithful (sameCatalog ▸ isFound)
    exact ⟨id, after, yields, ⟨extend.catalog.trans sameCatalog, remains⟩, extend, trivial⟩
  obtain ⟨ids, after, yields, remains, extend, -⟩ :=
    Grows.mapM (fun _ _ _ _ _ _ => trivial) each registry ⟨rfl, faithful⟩
  exact ⟨ids, after, yields, remains.2, extend⟩

end Registry

end TypedReply
