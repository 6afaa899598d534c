import TypedReply.Proofs.Registry.Mirror
import TypedReply.Reference.Library

/-!
# Registries and their histories

A registry comes about by declaring enumerations, classes, structs and records and by deriving the
structs of classes. After uses that succeed it mirrors its classes, apart from those of declared
structs. Whatever is done with it later, the struct of a class stays the struct of that class.
-/

namespace TypedReply

namespace Registry

variable {registry before after start : Registry} {declared : List ClassKey} {key : ClassKey}

/-! ## Adding classes -/

/-- A class is added under a new key, and nothing is derived. -/
structure AddsClass (before : Registry) (key : ClassKey) (after : Registry) : Prop where
  retains : before.Retains after
  structs : after.structs = before.structs
  byClass : after.byClass = before.byClass
  byName : after.byName = before.byName
  isNew : key = before.catalog.nextKey
  length : after.catalog.length = before.catalog.length + 1
  numbered : before.catalog.IsNumbered → after.catalog.IsNumbered

theorem AddsClass.structOf? (adds : before.AddsClass key after) (other : ClassKey) :
    after.structOf? other = before.structOf? other := by
  rw [Registry.structOf?, adds.byClass, Registry.structOf?]

theorem AddsClass.knows (adds : before.AddsClass key after) {other : ClassKey}
    (known : before.Knows other) : after.Knows other := by
  intro number isNumber
  rw [adds.length]
  exact Nat.lt_succ_of_lt (known number isNumber)

theorem AddsClass.knows_self (adds : before.AddsClass key after) : after.Knows key := by
  intro number isNumber
  rw [adds.isNew] at isNumber
  cases isNumber
  rw [adds.length]
  exact Nat.lt_succ_self _

/-- A class that is added has no struct. -/
theorem AddsClass.unknown (adds : before.AddsClass key after)
    (known : ∀ other id, before.structOf? other = some id → before.Knows other) :
    after.structOf? key = none := by
  rw [adds.structOf?]
  cases entered : before.structOf? key with
  | none => rfl
  | some id => exact (Nat.lt_irrefl _ (known key id entered _ adds.isNew)).elim

theorem leaves_addClass (before : Registry) (reference name : String) (doc : Option String)
    (ancestors : List ClassKey) (fields : List ClassField) :
    Leaves (addClass reference name doc ancestors fields) before
      (fun key after => before.AddsClass key after) fun _ after => after = before := by
  refine leaves_addClass_of_added ?_ fun cls isClass => ?_
  · exact fun _ => rfl
  have isNew : cls.key = before.catalog.nextKey := congrArg RecordClass.key isClass
  constructor
  · exact (Retains.addClass before isNew).trans (.declare _ _ _)
  · rfl
  · rfl
  · rfl
  · exact isNew
  · simp [declare]
  · exact fun numbered => (numbered.cons isNew).settle _

theorem leaves_buildClass (before : Registry) (reference name : String) (fields : List Field)
    (description : Option String) (ancestors : List ClassKey) :
    Leaves (buildClass reference name fields description ancestors) before
      (fun key after => before.AddsClass key after) fun _ after => after = before := by
  apply leaves_buildClass_of_held
  · exact fun _ => rfl
  · exact fun _ _ => leaves_addClass before reference name description ancestors _

/-- A struct is declared: its class is added, and it is entered as the struct of that class. -/
theorem leaves_defineStruct (before : Registry) (reference name : String) (fields : List Field)
    (description : Option String) :
    Leaves (defineStruct reference name fields description) before
      (fun id after => ∃ key between, before.AddsClass key between ∧
        id = between.structs.length ∧
        after = (between.withStruct key ⟨name, some key, fields, description⟩).enterName name id)
      fun _ after => after = before := by
  apply leaves_defineStruct_of_built
  · exact fun _ => rfl
  apply (leaves_buildClass before reference name fields description [.base]).imp
  · exact fun key between adds => ⟨key, between, adds, rfl, rfl⟩
  · exact fun _ _ same => same

/-- A record is declared: its class is added. -/
theorem leaves_defineRecord (before : Registry) (reference : String) (name : Option String)
    (fields : List Field) (description : Option String) :
    Leaves (defineRecord reference name fields description) before
      (fun _ after => ∃ key, before.AddsClass key after) fun _ after => after = before := by
  apply leaves_defineRecord_of_built
  · exact fun _ => rfl
  apply (leaves_buildClass before reference _ fields description _).imp
  · exact fun key _ adds => ⟨key, adds⟩
  · exact fun _ _ same => same

/-! ## Later uses -/

/-- The classes that had a struct still have it, and the classes that have one are known. -/
structure Remembers (start after : Registry) : Prop where
  numbered : after.catalog.IsNumbered
  known : ∀ key id, after.structOf? key = some id → after.Knows key
  keeps : ∀ key id, start.structOf? key = some id → after.structOf? key = some id

namespace Remembers

theorem of_addsClass (remembers : start.Remembers before) (adds : before.AddsClass key after) :
    start.Remembers after where
  numbered := adds.numbered remembers.numbered
  known other id entered := by
    rw [adds.structOf?] at entered
    exact adds.knows (remembers.known other id entered)
  keeps other id entered := by
    rw [adds.structOf?]
    exact remembers.keeps other id entered

theorem of_enlarges (remembers : start.Remembers before) (enlarges : before.Enlarges after) :
    start.Remembers after where
  numbered := enlarges.isExtended.catalog ▸ remembers.numbered
  known other id entered := by
    have same : after.Knows other ↔ before.Knows other := by
      unfold Knows
      rw [enlarges.isExtended.catalog]
    rw [same]
    rcases enlarges.found other id entered with early | ⟨cls, found⟩
    · exact remembers.known other id early
    · exact knows_of_get? remembers.numbered found
  keeps other id entered := enlarges.isExtended.keeps other id (remembers.keeps other id entered)

/-- The struct of a new class takes the place of no other. -/
theorem withStruct (remembers : start.Remembers before) (unknown : before.structOf? key = none)
    (known : before.Knows key) (struct : Struct) : start.Remembers (before.withStruct key struct) where
  numbered := remembers.numbered
  known other id entered := by
    rw [structOf?_withStruct] at entered
    split at entered
    next same => exact same ▸ known
    next => exact remembers.known other id entered
  keeps other id entered := by
    have early := remembers.keeps other id entered
    rw [structOf?_withStruct, if_neg (ne_of_entered unknown early)]
    exact early

end Remembers

theorem upholds_remembers_fromClass (start : Registry) (key : ClassKey) :
    Upholds start.Remembers (fromClass key) := by
  rw [fromClass]
  apply Upholds.get.bind
  intro _ before remembers
  apply (upholds_enlarges_derive before _ key before (.refl before)).imp
  · exact fun _ _ enlarges => remembers.of_enlarges enlarges
  · exact fun _ _ enlarges => remembers.of_enlarges enlarges

theorem Use.remembers (used : before.Use after) (remembers : start.Remembers before) :
    start.Remembers after := by
  cases used with
  | enum name mixin members =>
      exact ⟨remembers.numbered.settle _, fun other id entered number isNumber => by
        simpa [declareEnum, declare] using remembers.known other id entered number isNumber,
        remembers.keeps⟩
  | cls reference name doc base fields =>
      apply Leaves.run
      apply (leaves_addClass before reference name doc base fields).imp
      · exact fun _ _ adds => remembers.of_addsClass adds
      · exact fun _ _ same => same ▸ remembers
  | struct reference name fields description =>
      apply Leaves.run
      apply (leaves_defineStruct before reference name fields description).imp
      · rintro id after ⟨key, between, adds, rfl, rfl⟩
        have entered := (remembers.of_addsClass adds).withStruct (adds.unknown remembers.known)
          adds.knows_self ⟨name, some key, fields, description⟩
        exact ⟨entered.numbered, entered.known, entered.keeps⟩
      · exact fun _ _ same => same ▸ remembers
  | record reference name fields description =>
      apply Leaves.run
      apply (leaves_defineRecord before reference name fields description).imp
      · rintro _ _ ⟨_, adds⟩
        exact remembers.of_addsClass adds
      · exact fun _ _ same => same ▸ remembers
  | derive key => exact (upholds_remembers_fromClass start key).run remembers
  | describe expr =>
      exact (upholds_describe (upholds_remembers_fromClass start) expr).run remembers

/-- The struct of a class is found again, unchanged, however the registry is used. -/
theorem found_after_uses (remembers : before.Remembers before)
    (places : ∀ key id, before.structOf? key = some id → id < before.structs.length)
    (used : Relation.ReflTransGen Use before after) {id : StructId}
    (entered : before.structOf? key = some id) :
    Yields (fromClass key) after id after ∧ after.structs.at id = before.structs.at id := by
  have known : before.Remembers after ∧ before.Retains after := by
    induction used with
    | refl => exact ⟨remembers, .refl before⟩
    | tail _ used ih => exact ⟨used.remembers ih.1, ih.2.trans used.retains⟩
  have isEntered := known.1.keeps key id entered
  constructor
  · rw [fromClass, yields_bind]
    refine ⟨after, after, (yields_get _).mpr ⟨rfl, rfl⟩, ?_⟩
    rw [derive, yields_bind]
    refine ⟨after, after, (yields_get _).mpr ⟨rfl, rfl⟩, ?_⟩
    simp [isEntered]
  · exact known.2.structs id (places key id entered)

/-! ## Histories -/

/-- A registry that came about by uses that succeeded, beside the classes of the structs that were
declared. Structs without a class may be made by hand. The struct of a class is asked for once the
names that the class mentions are declared. -/
inductive Reached : Registry → List ClassKey → Prop where
  | fresh (library : ClassLibrary) : Reached (.fresh library) []
  | enum {registry : Registry} {declared : List ClassKey} (reached : Reached registry declared)
      (name : String) (mixin : Option Mixin) (members : List (String × Value)) :
      Reached (registry.declareEnum name mixin members) declared
  | cls {registry after : Registry} {declared : List ClassKey} {reference name : String}
      {doc : Option String} {ancestors : List ClassKey} {fields : List ClassField} {key : ClassKey}
      (reached : Reached registry declared)
      (yields : Yields (addClass reference name doc ancestors fields) registry key after) :
      Reached after declared
  | struct {registry after : Registry} {declared : List ClassKey} {reference name : String}
      {fields : List Field} {description : Option String} {id : StructId} {key : ClassKey}
      (reached : Reached registry declared)
      (yields : Yields (defineStruct reference name fields description) registry id after)
      (isClass : (after.structs.at id).cls = some key) : Reached after (key :: declared)
  | record {registry after : Registry} {declared : List ClassKey} {reference : String}
      {name : Option String} {fields : List Field} {description : Option String}
      {record : FixedRecord} (reached : Reached registry declared)
      (yields : Yields (defineRecord reference name fields description) registry record after) :
      Reached after declared
  | handmade {registry : Registry} {declared : List ClassKey} (reached : Reached registry declared)
      (structs : List Struct) (classless : ∀ struct ∈ structs, struct.cls = none) :
      Reached { registry with structs := registry.structs ++ structs } declared
  | derive {registry after : Registry} {declared : List ClassKey} {key : ClassKey} {id : StructId}
      (reached : Reached registry declared) (settled : registry.catalog.IsSettled key)
      (yields : Yields (fromClass key) registry id after) : Reached after declared
  | describe {registry after : Registry} {declared : List ClassKey} {expr : TypeExpr}
      {descriptor : Descriptor} (reached : Reached registry declared)
      (settled : ∀ key, expr.Needs key → registry.catalog.IsSettled key)
      (yields : Yields (descriptorFor expr) registry descriptor after) : Reached after declared

theorem MirrorsExcept.of_addsClass (mirrors : before.MirrorsExcept declared)
    (adds : before.AddsClass key after) : after.MirrorsExcept declared :=
  mirrors.of_retains adds.retains adds.structs adds.byClass (adds.numbered mirrors.numbered)

theorem MirrorsExcept.handmade (mirrors : registry.MirrorsExcept declared) {structs : List Struct}
    (classless : ∀ struct ∈ structs, struct.cls = none) :
    MirrorsExcept { registry with structs := registry.structs ++ structs } declared := by
  have old {id : StructId} (isOld : id < registry.structs.length) :
      Store.at (registry.structs ++ structs) id = registry.structs.at id := by
    simp [Store.at, List.getElem?_append_left isOld]
  have new {id : StructId} (isNew : registry.structs.length ≤ id) :
      (Store.at (registry.structs ++ structs) id).cls = none := by
    rw [Store.at, List.getD_eq_getElem?_getD, List.getElem?_append_right isNew]
    cases found : structs[id - registry.structs.length]? with
    | none => rfl
    | some struct => exact classless struct (List.mem_of_getElem? found)
  constructor
  · exact mirrors.numbered
  · exact mirrors.known
  · intro key id
    rcases Nat.lt_or_ge id registry.structs.length with isOld | isNew
    · show _ ↔ (Store.at (registry.structs ++ structs) id).cls = some key
      rw [old isOld]
      exact mirrors.own key id
    · constructor
      · intro entered
        exact (Nat.not_lt.mpr isNew (lt_of_cls ((mirrors.own key id).mp entered))).elim
      · intro isClass
        rw [new isNew] at isClass
        cases isClass
  · intro key id entered notExempt
    apply (mirrors.mirrors key id entered notExempt).mono
    · exact fun _ _ isEntered => isEntered
    · exact fun _ found _ => found
    · exact old (lt_of_cls ((mirrors.own key id).mp entered))
    · rfl

theorem Reached.mirrors (reached : Reached registry declared) : registry.MirrorsExcept declared := by
  induction reached with
  | fresh => exact mirrors_fresh _
  | enum _ name mixin members ih =>
      exact ih.of_retains (.declare _ _ _) rfl rfl (ih.numbered.settle _)
  | cls _ yields ih =>
      exact ih.of_addsClass ((leaves_addClass _ _ _ _ _ _).of_yields yields)
  | @struct before _ _ reference name fields description _ _ _ yields isClass ih =>
      obtain ⟨key, between, adds, rfl, rfl⟩ :=
        (leaves_defineStruct before reference name fields description).of_yields yields
      have isNew : (between.withStruct key ⟨name, some key, fields, description⟩).structs.at
          between.structs.length = ⟨name, some key, fields, description⟩ := between.at_add _
      obtain rfl : key = _ := Option.some.inj ((congrArg Struct.cls isNew).symm.trans isClass)
      have entered := (ih.of_addsClass adds).withStruct (adds.unknown ih.known) adds.knows_self
        ⟨name, some key, fields, description⟩ rfl
      exact entered.of_retains (.of_same rfl rfl rfl) rfl rfl entered.numbered
  | record _ yields ih =>
      obtain ⟨key, adds⟩ := (leaves_defineRecord _ _ _ _ _).of_yields yields
      exact ih.of_addsClass adds
  | handmade _ structs classless ih => exact ih.handmade classless
  | derive _ settled yields ih =>
      have leaves := proceeds_fromClass settled (fun _ => trivial) _ ⟨rfl, ih⟩
      exact (leaves.of_yields yields).1.2
  | describe _ settled yields ih =>
      have leaves := proceeds_mirrored
        (fun key needs => proceeds_fromClass (settled key needs) fun _ => trivial) _ ⟨rfl, ih⟩
      exact (leaves.of_yields yields).1.2

/-! ## Derived classes -/

/-- A class leads to another one: its struct was derived, and a description of one of its fields needs
the other; or its struct reaches that of the other. -/
inductive Mentions (registry : Registry) (declared : List ClassKey) :
    ClassKey → ClassKey → Prop where
  | annotated {key other : ClassKey} (derived : key ∉ declared)
      (needs : registry.catalog.Needs key other) : Mentions registry declared key other
  | referred {key other : ClassKey} {id place : StructId}
      (entered : registry.structOf? key = some id)
      (reaches : Descriptor.Reaches registry.structs (.struct id) (.struct place))
      (isClass : (registry.structs.at place).cls = some other) :
      Mentions registry declared key other

/-- What deriving the struct of a class makes of a registry in which some structs were declared. -/
structure Derives (before : Registry) (declared : List ClassKey) (key : ClassKey) (id : StructId)
    (after : Registry) : Prop where
  /-- The class has the struct. -/
  entered : after.structOf? key = some id
  /-- The classes that it leads to have structs as well. -/
  reached : ∀ other, Relation.ReflTransGen (after.Mentions declared) key other →
    ∃ place, after.structOf? other = some place
  /-- The structs that were derived, now or before, mirror their classes. -/
  mirrors : ∀ other place, after.structOf? other = some place → other ∉ declared →
    after.Mirrors other place
  /-- No class has a second struct. -/
  unique : ∀ other place, (after.structs.at place).cls = some other →
    after.structOf? other = some place
  /-- The classes that had a struct have the same, and it is unchanged. -/
  unchanged : ∀ other place, before.structOf? other = some place →
    after.structOf? other = some place ∧ after.structs.at place = before.structs.at place
  /-- Whatever is done later, the same struct is found for each class, and it is unchanged. -/
  lasting : ∀ later other place, Relation.ReflTransGen Use after later →
    after.structOf? other = some place →
      Yields (fromClass other) later place later ∧ later.structs.at place = after.structs.at place

theorem MirrorsExcept.remembers (mirrors : registry.MirrorsExcept declared) :
    registry.Remembers registry :=
  ⟨mirrors.numbered, mirrors.known, fun _ _ entered => entered⟩

theorem MirrorsExcept.derives (mirrors : after.MirrorsExcept declared) (extend : before.Extends after)
    (retains : before.Retains after)
    (places : ∀ key id, before.structOf? key = some id → id < before.structs.length)
    {id : StructId} (entered : after.structOf? key = some id) :
    before.Derives declared key id after where
  entered := entered
  reached other leads := by
    induction leads with
    | refl => exact ⟨id, entered⟩
    | tail _ mentions ih =>
        cases mentions with
        | annotated derived needs =>
            obtain ⟨place, isEntered⟩ := ih
            exact (mirrors.mirrors _ place isEntered derived).exists_struct needs
        | referred _ _ isClass => exact ⟨_, (mirrors.own _ _).mpr isClass⟩
  mirrors := mirrors.mirrors
  unique other place isClass := (mirrors.own other place).mpr isClass
  unchanged other place isEntered :=
    ⟨extend.keeps other place isEntered, retains.structs place (places other place isEntered)⟩
  lasting later other place used isEntered :=
    found_after_uses mirrors.remembers
      (fun key id entered => lt_of_cls ((mirrors.own key id).mp entered)) used isEntered

/-- From every registry that came about by uses that succeeded, the struct of a settled class whose
defaults can be made is derived, to a depth below which anything may happen. What was derived mirrors
the classes that lead to one another, with one struct for each, and lasts. -/
theorem fromClass_derives (reached : Reached registry declared)
    (settled : registry.catalog.IsSettled key) (sound : ¬registry.catalog.Fails key) :
    (∀ bottom, (unrolled bottom (registry.catalog.length + 3) key).run registry =
        (fromClass key).run registry) ∧
      ∃ id after, Yields (fromClass key) registry id after ∧
        registry.Derives declared key id after := by
  have mirrors := reached.mirrors
  have proceeds := proceeds_fromClass settled sound registry ⟨rfl, mirrors⟩
  obtain ⟨id, after, yields, ⟨-, mirrored⟩, extend, entered⟩ := proceeds.exists_yields
  refine ⟨fun bottom => registry.run_unrolled_eq_fromClass bottom key, id, after, yields, ?_⟩
  have retains := (upholds_fromClass registry key registry (.refl registry)).of_yields yields
  exact mirrored.derives extend retains
    (fun other place isEntered => lt_of_cls ((mirrors.own other place).mp isEntered)) entered

/-- A class of fruit. -/
def fruitClass : RecordClass :=
  ⟨.declared 0, "Fruit", none, [.base],
    [⟨"kind", some "variety", .scalar .string, .required, none, .none⟩]⟩

/-- A class of trees: a tree may bear fruit, and its branches are trees. -/
def treeClass : RecordClass :=
  ⟨.declared 1, "Tree", some "A tree.", [.base],
    [⟨"fruit", none, .union [.record (.declared 0), .none], .default .null, none, .none⟩,
     ⟨"branches", none, .collection .list (.record (.declared 1)), .made .list, none, .none⟩]⟩

def fruits : Registry := ⟨.reference, [fruitClass], [("Fruit", .record (.declared 0))], [], [], []⟩

/-- A registry in which fruit and trees are declared. -/
def orchard : Registry :=
  ⟨.reference, [treeClass, fruitClass], [("Tree", .record (.declared 1)),
    ("Fruit", .record (.declared 0))],
    [], [], []⟩

theorem reached_orchard : Reached orchard [] := by
  have declaresFruit : Yields (addClass "Fruit" "Fruit" none [.base] fruitClass.fields) empty
      (.declared 0) fruits := rfl
  -- The branches are declared by the name of the class itself, which only then stands for it.
  have declaresTree : Yields (addClass "Tree" "Tree" (some "A tree.") [.base]
      [⟨"fruit", none, .union [.record (.declared 0), .none], .default .null, none, .none⟩,
       ⟨"branches", none, .collection .list (.unresolved "Tree"), .made .list, none, .none⟩])
      fruits (.declared 1) orchard := rfl
  exact .cls (.cls (.fresh _) declaresFruit) declaresTree

theorem isFamily_orchard : orchard.catalog.IsFamily [.declared 0, .declared 1] := by
  constructor
  intro key isKey
  simp only [List.mem_cons, List.not_mem_nil, or_false] at isKey
  rcases isKey with rfl | rfl
  · refine ⟨fruitClass, rfl, rfl, by decide, ?_⟩
    simp [fruitClass]
  · refine ⟨treeClass, rfl, rfl, by decide, ?_⟩
    simp [treeClass]

/-- Trees are derived, and fruit with them. -/
theorem tree_derives :
    Reached orchard [] ∧ orchard.catalog.IsSettled (.declared 1) ∧
      ¬orchard.catalog.Fails (.declared 1) ∧
      ∃ id after, Yields (fromClass (.declared 1)) orchard id after ∧
        orchard.Derives [] (.declared 1) id after := by
  have isTree : ClassKey.declared 1 ∈ [ClassKey.declared 0, .declared 1] := by simp
  have settled := isFamily_orchard.isSettled isTree
  have sound := isFamily_orchard.not_fails isTree
  exact ⟨reached_orchard, settled, sound, (fromClass_derives reached_orchard settled sound).2⟩

/-! ## Classes that are left out -/

/-- After a class was declared and its struct derived, a class that the annotations of its fields
mention has no struct. -/
def Omits (declare : Action ClassKey) (omitted : ClassKey) : Prop :=
  ∃ key before id after cls, Yields declare empty key before ∧
    Yields (fromClass key) before id after ∧ after.catalog.get? key = some cls ∧
    omitted ∈ cls.classKeys ∧ after.structOf? omitted = none

/-- Of a fixed sequence of items only the first is described. -/
def declarePair : Action ClassKey := do
  let item ← addClass "Item" "Item" none [.base] []
  addClass "Pair" "Pair" none [.base]
    [⟨"pair", none, .tuple [.scalar .int, .record item], .required, none, .none⟩]

/-- A struct that is declared holds a fixed record as it stands, and not the struct of its class. -/
def declareHolder : Action ClassKey := do
  let record ← defineRecord "R" (some "R") [⟨"x", .scalar .int, true, none, none⟩] none
  let id ← defineStruct "S" "S" [⟨"r", .fixed record, true, none, none⟩] none
  return ((← getThe Registry).structs.at id).cls.getD .base

/-- A struct that was derived is not derived again when a name that its class mentions is declared. -/
def declareLate : Action ClassKey := do
  let key ← addClass "A" "A" none [.base] [⟨"b", none, .unresolved "B", .required, none, .none⟩]
  let _ ← fromClass key
  let _ ← addClass "B" "B" none [.base] []
  return key

theorem classes_omitted :
    Omits declarePair (.declared 0) ∧ Omits declareHolder (.declared 0) ∧
      Omits declareLate (.declared 1) :=
  ⟨⟨_, _, _, _, _, rfl, rfl, rfl, by decide, rfl⟩, ⟨_, _, _, _, _, rfl, rfl, rfl, by decide, rfl⟩,
    ⟨_, _, _, _, _, rfl, rfl, rfl, by decide, rfl⟩⟩

end Registry

end TypedReply
