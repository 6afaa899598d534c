import TypedReply.Proofs.Registry.Declared
import TypedReply.Proofs.Registry.Index
import TypedReply.Proofs.Value.Objects

/-!
# The names of declared fields

The struct that is derived of a class has a field for each of the class, under the name that the field
has in plain data; these names may repeat. The struct whose class was built for its fields has the
fields that it was declared with; the class has one field for each of their names. Either is so in
every registry, whatever was done with it: no declaration changes the names of a class's fields.
-/

namespace TypedReply

/-- The name of a declared field, and whether it must be given. -/
def FieldOf.label {δ : Type} (field : FieldOf δ) : String × Bool := (field.name, field.required)

/-- The name of a field in plain data, and whether it must be given. -/
def ClassField.label (field : ClassField) : String × Bool :=
  (field.wireName, field.presence.isRequired)

namespace RecordClass

/-- What a class shows of its fields in plain data. -/
def labels (cls : RecordClass) : List (String × Bool) := cls.fields.map (·.label)

/-- The declared fields are those of a class, one for each; or the class was built for them and has one
for each name. -/
def IsShownBy (cls : RecordClass) (declared : List Field) : Prop :=
  declared.map (·.label) = cls.labels ∨
    cls.labels.map Prod.fst = (declared.map (·.name)).eraseDups

/-! ## Names of class fields -/

@[simp]
theorem labels_settle (scope : Scope) (cls : RecordClass) : (cls.settle scope).labels = cls.labels := by
  unfold settle
  split
  · rw [labels, labels, List.map_map]
    rfl
  · rfl

theorem map_name_latest (fields : List ClassField) :
    (latest fields).map (·.name) = (fields.map (·.name)).eraseDups := by
  have each (kept : List ClassField) (field : ClassField) :
      (if kept.any (·.name == field.name) then
          kept.map fun old => if old.name == field.name then field else old
        else kept ++ [field]).map (·.name) =
      if field.name ∈ kept.map (·.name) then kept.map (·.name)
        else kept.map (·.name) ++ [field.name] := by
    have known : kept.any (·.name == field.name) = true ↔ field.name ∈ kept.map (·.name) := by simp
    by_cases isKept : field.name ∈ kept.map (·.name)
    · rw [if_pos (known.mpr isKept), if_pos isKept, List.map_map]
      apply List.map_congr_left
      intro old _
      by_cases same : old.name = field.name <;> simp [same]
    · rw [if_neg (isKept ∘ known.mp), if_neg isKept, List.map_append]
      rfl
  simpa [latest] using names_foldl each [] fields

theorem forall_mem_latest {fields : List ClassField} {condition : ClassField → Prop}
    (each : ∀ field ∈ fields, condition field) : ∀ field ∈ latest fields, condition field := by
  unfold latest
  apply List.foldlRecOn (motive := fun kept => ∀ field ∈ kept, condition field) fields _
    (List.forall_mem_nil _)
  intro kept holds field isField old isOld
  split at isOld
  · obtain ⟨replaced, isReplaced, rfl⟩ := List.mem_map.mp isOld
    split
    · exact each field isField
    · exact holds replaced isReplaced
  · rcases List.mem_append.mp isOld with isOld | isNew
    · exact holds old isOld
    · rw [List.mem_singleton.mp isNew]
      exact each field isField

theorem map_wireName_latest {fields : List ClassField}
    (unaliased : ∀ field ∈ fields, field.wireName = field.name) :
    (latest fields).map (·.wireName) = (fields.map (·.name)).eraseDups := by
  calc _ = _ := List.map_congr_left (forall_mem_latest unaliased)
    _ = _ := map_name_latest _

end RecordClass

namespace Catalog

variable {catalog : Catalog} {key : ClassKey} {cls : RecordClass}

theorem exists_get?_settle (found : catalog.get? key = some cls) (scope : Scope) :
    ∃ later, Catalog.get? (catalog.map (·.settle scope)) key = some later ∧
      later.labels = cls.labels := by
  cases key with
  | base => exact ⟨cls, found, rfl⟩
  | anonymous => exact ⟨cls, found, rfl⟩
  | declared number =>
      refine ⟨cls.settle scope, ?_, RecordClass.labels_settle scope cls⟩
      have same : (fun cls : RecordClass => cls.key == ClassKey.declared number) ∘
          RecordClass.settle scope = fun cls => cls.key == ClassKey.declared number := by
        funext cls
        simp
      change (catalog.map (·.settle scope)).find? (·.key == .declared number) = _
      rw [List.find?_map, same]
      exact congrArg (Option.map _) found

theorem get?_cons_of_ne {added : RecordClass} (different : added.key ≠ key) :
    Catalog.get? (added :: catalog) key = catalog.get? key := by
  cases key with
  | base => rfl
  | anonymous => rfl
  | declared number =>
      change (added :: catalog).find? (·.key == .declared number) = _
      rw [List.find?_cons_of_neg (by simpa using different)]
      rfl

end Catalog

namespace Registry

variable {registry before after : Registry} {key : ClassKey} {id : StructId}

/-! ## Derived fields -/

theorem labels_of_mapM {structFor : ClassKey → Action StructId} {fields : List ClassField}
    {declared : List Field} (yields : Yields (fields.mapM (fieldFrom structFor)) before declared after) :
    declared.map (·.label) = fields.map (·.label) := by
  induction fields generalizing declared before after with
  | nil =>
      rw [List.mapM_nil, yields_pure] at yields
      rw [yields.1]
      rfl
  | cons field rest ih =>
      simp only [List.mapM_cons, fieldFrom, yields_bind, yields_pure] at yields
      obtain ⟨first, _, ⟨_, _, -, _, _, -, rfl, -⟩, others, _, isRest, rfl, -⟩ := yields
      rw [List.map_cons, ih isRest]
      rfl

/-! ## Structs of classes -/

/-- The structs of classes show their fields, but for the classes in progress. -/
structure ShowsClasses (catalog : Catalog) (pending : List (ClassKey × StructId))
    (registry : Registry) : Prop where
  unchanged : registry.catalog = catalog
  indexed : registry.IsIndexedExcept pending
  shows : ∀ key id, registry.structOf? key = some id → key ∉ pending.map Prod.fst →
    ∃ cls, catalog.get? key = some cls ∧ cls.IsShownBy (registry.structs.at id).fields

namespace ShowsClasses

variable {catalog : Catalog} {pending : List (ClassKey × StructId)}

/-- A class without a struct gets one, which need not show it yet. -/
theorem withStruct (shows : ShowsClasses catalog pending registry)
    (unknown : registry.structOf? key = none) {struct : Struct} (isClass : struct.cls = some key) :
    ShowsClasses catalog ((key, registry.structs.length) :: pending)
      (registry.withStruct key struct) where
  unchanged := shows.unchanged
  indexed := shows.indexed.withStruct unknown isClass
  shows other place entered notPending := by
    rw [List.map_cons, List.mem_cons, not_or] at notPending
    rw [structOf?_withStruct, if_neg notPending.1] at entered
    have isOld := lt_of_cls (shows.indexed.classes other place entered)
    obtain ⟨cls, found, isShown⟩ := shows.shows other place entered notPending.2
    exact ⟨cls, found, (registry.at_add_of_lt struct isOld).symm ▸ isShown⟩

/-- The fields of a class in progress show no other class. -/
theorem setFields (shows : ShowsClasses catalog ((key, id) :: pending) registry) (fields : List Field) :
    ShowsClasses catalog ((key, id) :: pending) (registry.setFields id fields) where
  unchanged := shows.unchanged
  indexed := shows.indexed.setFields id fields
  shows other place entered notPending := by
    have different : place ≠ id := by
      rintro rfl
      have isOther := shows.indexed.classes other place entered
      have isKey := shows.indexed.classes key place (shows.indexed.entered _ List.mem_cons_self)
      exact notPending (List.mem_map.mpr
        ⟨(key, place), List.mem_cons_self, Option.some.inj (isKey.symm.trans isOther)⟩)
    obtain ⟨cls, found, isShown⟩ := shows.shows other place entered notPending
    exact ⟨cls, found, (at_withFields_of_ne fields "" different).symm ▸ isShown⟩

/-- A class whose struct shows it is no longer in progress. -/
theorem enterName (shows : ShowsClasses catalog ((key, id) :: pending) registry)
    (notPending : key ∉ pending.map Prod.fst) {cls : RecordClass} (found : catalog.get? key = some cls)
    (isShown : cls.IsShownBy (registry.structs.at id).fields) (name : String) :
    ShowsClasses catalog pending (registry.enterName name id) where
  unchanged := shows.unchanged
  indexed := shows.indexed.enterName notPending name
  shows other place entered isOther := by
    by_cases same : other = key
    · subst same
      obtain rfl := Option.some.inj
        ((shows.indexed.entered _ List.mem_cons_self).symm.trans entered)
      exact ⟨cls, found, isShown⟩
    · exact shows.shows other place entered (by simpa [same] using isOther)

/-- A class in progress can be taken out. -/
theorem leaveClass (shows : ShowsClasses catalog ((key, id) :: pending) registry)
    (notPending : key ∉ pending.map Prod.fst) :
    ShowsClasses catalog pending (registry.leaveClass key) where
  unchanged := shows.unchanged
  indexed := shows.indexed.leaveClass notPending
  shows other place entered isOther := by
    have different : other ≠ key := by
      rintro rfl
      rw [structOf?_leaveClass_self] at entered
      cases entered
    rw [structOf?_leaveClass_of_ne registry different] at entered
    exact shows.shows other place entered (by simpa [different] using isOther)

end ShowsClasses

/-- Deriving the struct of a class leaves structs that show their classes, whether it succeeds or fails.
The induction is on the fuel, as for the indices. -/
theorem upholds_showsClasses_derive {catalog : Catalog} (fuel : Nat)
    (pending : List (ClassKey × StructId)) (key : ClassKey) :
    Upholds (ShowsClasses catalog pending) (derive fuel key) := by
  induction fuel generalizing pending key with
  | zero =>
      rw [derive]
      exact Upholds.get.bind fun _ => .pure _
  | succ fuel ih =>
      intro registry shows
      cases entered : registry.structOf? key with
      | some id => exact (leaves_derive_of_entered entered _).mpr shows
      | none =>
          cases found : registry.catalog.get? key with
          | none =>
              simpa only [derive, leaves_bind, leaves_get, leaves_pure, entered, found] using shows
          | some cls =>
              have notPending : key ∉ pending.map Prod.fst := by
                intro isPending
                obtain ⟨entry, isEntry, rfl⟩ := List.mem_map.mp isPending
                rw [shows.indexed.entered entry isEntry] at entered
                cases entered
              have isFound : catalog.get? key = some cls := shows.unchanged ▸ found
              have inside := shows.withStruct entered
                (show (unsealed registry.library key cls).cls = some key from rfl)
              have each (field) (_ : field ∈ cls.fields) :=
                upholds_fieldFrom (ih ((key, registry.structs.length) :: pending)) field
              rw [leaves_derive_of_unknown entered found]
              apply (Upholds.mapM each _ inside).and_yields.imp
              · rintro fields between ⟨isShowing, yields⟩
                have isEntered := isShowing.indexed.entered _ List.mem_cons_self
                have isPlaced := lt_of_cls (isShowing.indexed.classes _ _ isEntered)
                apply (isShowing.setFields fields).enterName notPending isFound
                have own := at_withFields_self fields cls.name isPlaced
                exact .inl ((congrArg (fun struct : Struct => struct.fields.map (·.label)) own).trans
                  (labels_of_mapM yields))
              · intro failure between isShowing
                exact isShowing.leaveClass notPending

/-! ## Declarations -/

def Shows (registry : Registry) : Prop := ShowsClasses registry.catalog [] registry

theorem ShowsClasses.shows_all {catalog : Catalog} (shows : ShowsClasses catalog [] registry) :
    registry.Shows := by
  cases shows.unchanged
  exact shows

theorem shows_fresh (library : ClassLibrary) : Shows (fresh library) where
  unchanged := rfl
  indexed := isIndexed_fresh library
  shows _ _ entered := nomatch entered

theorem upholds_shows_fromClass (key : ClassKey) : Upholds Shows (fromClass key) := by
  intro registry shows
  rw [fromClass, leaves_bind, leaves_get]
  apply (upholds_showsClasses_derive _ [] key registry shows).imp
  · exact fun _ _ isShowing => isShowing.shows_all
  · exact fun _ _ isShowing => isShowing.shows_all

/-- The classes of a registry are found in another one with the same fields. -/
def KeepsLabels (before after : Registry) : Prop :=
  ∀ key cls, before.Knows key → before.catalog.get? key = some cls →
    ∃ later, after.catalog.get? key = some later ∧ later.labels = cls.labels

theorem keepsLabels_declare (registry : Registry) (name : String) (target : TypeExpr) :
    registry.KeepsLabels (registry.declare name target) :=
  fun _ _ _ found => Catalog.exists_get?_settle found _

/-- Structs show classes whose fields keep their names. -/
theorem Shows.of_keepsLabels (shows : before.Shows) (keeps : before.KeepsLabels after)
    (known : ∀ key id, before.structOf? key = some id → before.Knows key)
    (structs : after.structs = before.structs) (byClass : after.byClass = before.byClass)
    (byName : after.byName = before.byName) : after.Shows where
  unchanged := rfl
  indexed := shows.indexed.of_same structs byClass byName
  shows key id entered notPending := by
    rw [structOf?, byClass] at entered
    obtain ⟨cls, found, isShown⟩ := shows.shows key id entered notPending
    obtain ⟨later, isFound, same⟩ := keeps key cls (known key id entered) found
    refine ⟨later, isFound, ?_⟩
    rwa [RecordClass.IsShownBy, same, structs]

/-- A class is added with its fields, and the others keep theirs. -/
theorem leaves_addClass_labels (before : Registry) (reference name : String) (doc : Option String)
    (ancestors : List ClassKey) (fields : List ClassField) :
    Leaves (addClass reference name doc ancestors fields) before
      (fun key after => before.KeepsLabels after ∧ ∃ cls, after.catalog.get? key = some cls ∧
        cls.labels = fields.map (·.label))
      fun _ after => after = before := by
  refine leaves_addClass_of_added ?_ fun added isAdded => ?_
  · exact fun _ => rfl
  subst isAdded
  constructor
  · intro key other known found
    have different : before.catalog.nextKey ≠ key := by
      rintro rfl
      exact Nat.lt_irrefl _ (known _ rfl)
    exact Catalog.exists_get?_settle ((Catalog.get?_cons_of_ne different).trans found) _
  · exact Catalog.exists_get?_settle (Catalog.get?_cons_self rfl) _

/-- The class that is built for a declaration has one field for each of their names. -/
theorem leaves_buildClass_labels (before : Registry) (reference name : String) (fields : List Field)
    (description : Option String) (ancestors : List ClassKey) :
    Leaves (buildClass reference name fields description ancestors) before
      (fun key after => before.KeepsLabels after ∧
        ∃ cls, after.catalog.get? key = some cls ∧ cls.IsShownBy fields)
      fun _ after => after = before := by
  refine leaves_buildClass_of_held ?_ fun held areHeld => ?_
  · exact fun _ => rfl
  apply (leaves_addClass_labels before reference name description ancestors _).imp
  · rintro key after ⟨keeps, cls, isFound, same⟩
    refine ⟨keeps, cls, isFound, .inr ?_⟩
    have aligned := mapM_eq_ok_iff.mp areHeld
    have unaliased (field) (isField : field ∈ held) : field.wireName = field.name := by
      obtain ⟨declared, -, isHeld⟩ := exists_left_of_mem aligned isField
      rw [(names_of_fieldOf isHeld).1, (names_of_fieldOf isHeld).2]
    have names : fields.map (·.name) = held.map (·.name) :=
      map_eq_of_aligned aligned fun _ _ _ isHeld => (names_of_fieldOf isHeld).1.symm
    rw [same, List.map_map, names, ← RecordClass.map_wireName_latest unaliased]
    rfl
  · exact fun _ _ same => same

/-! ## Uses -/

section Uses

variable (showing : before.Shows) (remembers : before.Remembers before)
include showing remembers

theorem leaves_addClass_shows (reference name : String) (doc : Option String)
    (ancestors : List ClassKey) (fields : List ClassField) :
    Leaves (addClass reference name doc ancestors fields) before (fun _ after => after.Shows)
      fun _ after => after.Shows := by
  apply (leaves_addClass before reference name doc ancestors fields).and_yields.imp
  · rintro key after ⟨adds, yields⟩
    obtain ⟨keeps, -⟩ := (leaves_addClass_labels _ _ _ _ _ _).of_yields yields
    exact showing.of_keepsLabels keeps remembers.known adds.structs adds.byClass adds.byName
  · exact fun _ _ same => same ▸ showing

/-- The class that is built for declared fields is shown by them. -/
theorem leaves_buildClass_shows (reference name : String) (fields : List Field)
    (description : Option String) (ancestors : List ClassKey) :
    Leaves (buildClass reference name fields description ancestors) before
      (fun key after => after.Shows ∧ before.AddsClass key after ∧
        ∃ cls, after.catalog.get? key = some cls ∧ cls.IsShownBy fields)
      fun _ after => after.Shows := by
  apply (leaves_buildClass before reference name fields description ancestors).and_yields.imp
  · rintro key after ⟨adds, yields⟩
    obtain ⟨keeps, built⟩ := (leaves_buildClass_labels _ _ _ _ _ _).of_yields yields
    have isShowing := showing.of_keepsLabels keeps remembers.known adds.structs adds.byClass adds.byName
    exact ⟨isShowing, adds, built⟩
  · exact fun _ _ same => same ▸ showing

theorem leaves_defineStruct_shows (reference name : String) (fields : List Field)
    (description : Option String) :
    Leaves (defineStruct reference name fields description) before (fun _ after => after.Shows)
      fun _ after => after.Shows := by
  apply leaves_defineStruct_of_built fun _ => showing
  apply (leaves_buildClass_shows showing remembers reference name fields description [.base]).imp
  · rintro key between ⟨isShowing, adds, cls, found, isShown⟩
    have entered := isShowing.withStruct (adds.unknown remembers.known)
      (show (⟨name, some key, fields, description⟩ : Struct).cls = some key from rfl)
    have isStruct := between.at_add ⟨name, some key, fields, description⟩
    exact (entered.enterName List.not_mem_nil found (isStruct.symm ▸ isShown) name).shows_all
  · exact fun _ _ isShowing => isShowing

theorem leaves_defineRecord_shows (reference : String) (name : Option String) (fields : List Field)
    (description : Option String) :
    Leaves (defineRecord reference name fields description) before (fun _ after => after.Shows)
      fun _ after => after.Shows := by
  apply leaves_defineRecord_of_built fun _ => showing
  apply (leaves_buildClass_shows showing remembers reference _ fields description _).imp
  · exact fun _ _ leaves => leaves.1
  · exact fun _ _ isShowing => isShowing

theorem Use.shows (used : before.Use after) : after.Shows := by
  cases used with
  | enum name mixin members =>
      exact showing.of_keepsLabels (keepsLabels_declare _ _ _) remembers.known rfl rfl rfl
  | cls reference name doc ancestors fields =>
      exact (leaves_addClass_shows showing remembers reference name doc ancestors fields).run
  | struct reference name fields description =>
      exact (leaves_defineStruct_shows showing remembers reference name fields description).run
  | record reference name fields description =>
      exact (leaves_defineRecord_shows showing remembers reference name fields description).run
  | derive key => exact (upholds_shows_fromClass key).run showing
  | describe expr => exact (upholds_describe upholds_shows_fromClass expr).run showing

end Uses

theorem Arises.shows (arises : Arises registry) : registry.Shows := by
  induction arises with
  | fresh library => exact shows_fresh library
  | use earlier used ih => exact used.shows ih earlier.remembers
  | handmade _ structs ih =>
      refine ⟨rfl, ih.indexed.append structs, fun key id entered notPending => ?_⟩
      obtain ⟨cls, found, isShown⟩ := ih.shows key id entered notPending
      have isOld := lt_of_cls (ih.indexed.classes key id entered)
      exact ⟨cls, found, by simpa [Store.at, List.getElem?_append_left isOld] using isShown⟩

theorem leaves_derive_entered {cls : RecordClass} (found : registry.catalog.get? key = some cls)
    (fuel : Nat) : Leaves (derive (fuel + 1) key) registry
      (fun id after => after.structOf? key = some id) fun _ _ => True := by
  cases entered : registry.structOf? key with
  | some id => exact (leaves_derive_of_entered entered _).mpr entered
  | none =>
      rw [leaves_derive_of_unknown entered found]
      have each (field) (_ : field ∈ cls.fields) :=
        upholds_fieldFrom (upholds_enlarges_derive (registry.withClass key cls) fuel) field
      apply (Upholds.mapM each _ (.refl _)).imp
      · intro fields between enlarges
        exact enlarges.isExtended.keeps key _ (structOf?_withClass_self cls)
      · exact fun _ _ _ => trivial

/-- The struct that is derived of a class shows the class. -/
theorem exists_shown_class (arises : Arises registry) {cls : RecordClass}
    (found : registry.catalog.get? key = some cls) (yields : Yields (fromClass key) registry id after) :
    id < after.structs.length ∧ ∃ later, after.catalog.get? key = some later ∧
      later.IsShownBy (after.structs.at id).fields := by
  have showing := (upholds_shows_fromClass key registry arises.shows).of_yields yields
  rw [fromClass, yields_bind] at yields
  obtain ⟨_, _, isGet, yields⟩ := yields
  obtain ⟨rfl, rfl⟩ := (yields_get _).mp isGet
  have entered := (leaves_derive_entered found _).of_yields yields
  exact ⟨lt_of_cls (showing.indexed.classes key id entered),
    showing.shows key id entered List.not_mem_nil⟩

end Registry

end TypedReply
