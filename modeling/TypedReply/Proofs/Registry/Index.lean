import TypedReply.Proofs.Registry.History

/-!
# The indices of a registry

A registry finds structs by class and by name. Whatever was done with it, successfully or not, what it
finds by a class is a struct of that class, and what it finds by a name it finds by a class as well.
While the struct of a class is being derived, no name leads to it, so that the class may be taken out
again.
-/

namespace TypedReply

namespace Registry

variable {registry before after : Registry} {key : ClassKey} {id : StructId}

/-- What is found by a class is a struct of the class, and what is found by a name is found by a class.
The structs of classes in progress are at known places and are not found by names. -/
structure IsIndexedExcept (registry : Registry) (pending : List (ClassKey × StructId)) : Prop where
  classes : ∀ key id, registry.structOf? key = some id → (registry.structs.at id).cls = some key
  names : ∀ name id, registry.get? name = some id →
    ∃ key, key ∉ pending.map Prod.fst ∧ registry.structOf? key = some id
  entered : ∀ entry ∈ pending, registry.structOf? entry.1 = some entry.2

/-- What is found by a class is a struct of the class, and what is found by a name is found by a
class. -/
def IsIndexed (registry : Registry) : Prop := registry.IsIndexedExcept []

theorem isIndexed_fresh (library : ClassLibrary) : IsIndexed (fresh library) :=
  ⟨fun _ _ entered => (nomatch entered), fun _ _ named => (nomatch named), List.forall_mem_nil _⟩

/-! ## Single changes -/

namespace IsIndexedExcept

variable {pending : List (ClassKey × StructId)}

/-- The indices do not depend on what classes there are and what names stand for. -/
theorem of_same (indexed : before.IsIndexedExcept pending) (structs : after.structs = before.structs)
    (byClass : after.byClass = before.byClass) (byName : after.byName = before.byName) :
    after.IsIndexedExcept pending := by
  have sameStruct (key : ClassKey) : after.structOf? key = before.structOf? key := by
    rw [structOf?, byClass, structOf?]
  have sameName (name : String) : after.get? name = before.get? name := by
    rw [get?, byName, get?]
  constructor
  · intro key id entered
    rw [structs]
    exact indexed.classes key id ((sameStruct key).symm.trans entered)
  · intro name id named
    obtain ⟨key, isOld, entered⟩ := indexed.names name id ((sameName name).symm.trans named)
    exact ⟨key, isOld, (sameStruct key).trans entered⟩
  · intro entry isPending
    exact (sameStruct entry.1).trans (indexed.entered entry isPending)

theorem append (indexed : registry.IsIndexedExcept pending) (structs : List Struct) :
    IsIndexedExcept { registry with structs := registry.structs ++ structs } pending := by
  constructor
  · intro key id entered
    have isClass := indexed.classes key id entered
    have isOld : id < registry.structs.length := lt_of_cls isClass
    simpa [Store.at, List.getElem?_append_left isOld] using isClass
  · exact indexed.names
  · exact indexed.entered

/-- A class without a struct gets one, which no name leads to. -/
theorem withStruct (indexed : registry.IsIndexedExcept pending)
    (unknown : registry.structOf? key = none) {struct : Struct} (isClass : struct.cls = some key) :
    (registry.withStruct key struct).IsIndexedExcept ((key, registry.structs.length) :: pending) := by
  have self : (registry.withStruct key struct).structOf? key = some registry.structs.length := by
    rw [structOf?_withStruct, if_pos rfl]
  have others {other : ClassKey} (different : other ≠ key) :
      (registry.withStruct key struct).structOf? other = registry.structOf? other := by
    rw [structOf?_withStruct, if_neg different]
  constructor
  · intro other id entered
    by_cases same : other = key
    · subst same
      obtain rfl := Option.some.inj (self.symm.trans entered)
      exact (congrArg Struct.cls (registry.at_add struct)).trans isClass
    · exact (indexed.append [struct]).classes other id ((others same).symm.trans entered)
  · intro name id named
    obtain ⟨other, isOld, entered⟩ := indexed.names name id named
    have different := ne_of_entered unknown entered
    refine ⟨other, ?_, (others different).trans entered⟩
    rw [List.map_cons, List.mem_cons, not_or]
    exact ⟨different, isOld⟩
  · intro entry isPending
    cases isPending with
    | head => exact self
    | tail _ isPending =>
        have entered := indexed.entered entry isPending
        exact (others (ne_of_entered unknown entered)).trans entered

theorem setFields (indexed : registry.IsIndexedExcept pending) (id : StructId)
    (fields : List Field) : (registry.setFields id fields).IsIndexedExcept pending := by
  constructor
  · intro key place entered
    rw [← indexed.classes key place entered]
    have same : ((registry.setFields id fields).structs.at place).cls =
        (registry.structs.at place).cls := by
      simp only [Registry.setFields, Store.at, List.getD_eq_getElem?_getD, List.getElem?_modify]
      cases registry.structs[place]? with
      | none => rfl
      | some struct => simp only [Option.getD_some]; split <;> rfl
    exact same
  · exact indexed.names
  · exact indexed.entered

/-- The struct of a class is found by a name, once the class is no longer in progress. -/
theorem enterName (indexed : registry.IsIndexedExcept ((key, id) :: pending))
    (notPending : key ∉ pending.map Prod.fst) (name : String) :
    (registry.enterName name id).IsIndexedExcept pending := by
  constructor
  · exact indexed.classes
  · intro other place named
    by_cases same : other = name
    · subst same
      obtain rfl := Option.some.inj ((get?_enterName_self registry other id).symm.trans named)
      exact ⟨key, notPending, indexed.entered (key, id) List.mem_cons_self⟩
    · have isNamed := (get?_enterName_of_ne registry id same).symm.trans named
      obtain ⟨holder, isOld, entered⟩ := indexed.names other place isNamed
      exact ⟨holder, fun isPending => isOld (List.mem_cons_of_mem _ isPending), entered⟩
  · exact fun entry isPending => indexed.entered entry (List.mem_cons_of_mem _ isPending)

theorem leaveClass (indexed : registry.IsIndexedExcept ((key, id) :: pending))
    (notPending : key ∉ pending.map Prod.fst) : (registry.leaveClass key).IsIndexedExcept pending := by
  constructor
  · intro other place entered
    have different : other ≠ key := by
      rintro rfl
      rw [structOf?_leaveClass_self] at entered
      cases entered
    exact indexed.classes other place
      ((structOf?_leaveClass_of_ne registry different).symm.trans entered)
  · intro name place named
    obtain ⟨holder, isOld, entered⟩ := indexed.names name place named
    rw [List.map_cons, List.mem_cons, not_or] at isOld
    exact ⟨holder, isOld.2, (structOf?_leaveClass_of_ne registry isOld.1).trans entered⟩
  · intro entry isPending
    have different : entry.1 ≠ key := by
      rintro rfl
      exact notPending (List.mem_map_of_mem isPending)
    rw [structOf?_leaveClass_of_ne registry different]
    exact indexed.entered entry (List.mem_cons_of_mem _ isPending)

end IsIndexedExcept

/-! ## Deriving -/

/-- Deriving the struct of a class leaves the indices in order, whether it succeeds or fails. The
induction is on the fuel; the classes in progress are those that deriving is inside of. -/
theorem upholds_isIndexed_derive (fuel : Nat) (pending : List (ClassKey × StructId))
    (key : ClassKey) : Upholds (·.IsIndexedExcept pending) (derive fuel key) := by
  induction fuel generalizing pending key with
  | zero =>
      rw [derive]
      exact Upholds.get.bind fun _ => .pure _
  | succ fuel ih =>
      intro registry indexed
      cases entered : registry.structOf? key with
      | some id => exact (leaves_derive_of_entered entered _).mpr indexed
      | none =>
          cases found : registry.catalog.get? key with
          | none =>
              simpa only [derive, leaves_bind, leaves_get, leaves_pure, entered, found] using indexed
          | some cls =>
              have notPending : key ∉ pending.map Prod.fst := by
                intro isPending
                obtain ⟨entry, isEntry, rfl⟩ := List.mem_map.mp isPending
                rw [indexed.entered entry isEntry] at entered
                cases entered
              have inside := indexed.withStruct entered
                (show (unsealed registry.library key cls).cls = some key from rfl)
              have each (field) (_ : field ∈ cls.fields) :=
                upholds_fieldFrom (ih ((key, registry.structs.length) :: pending)) field
              rw [leaves_derive_of_unknown entered found]
              apply (Upholds.mapM each _ inside).imp
              · intro fields between isIndexed
                exact (isIndexed.setFields _ fields).enterName notPending cls.name
              · intro failure between isIndexed
                exact isIndexed.leaveClass notPending

theorem upholds_isIndexed_fromClass (key : ClassKey) : Upholds IsIndexed (fromClass key) := by
  rw [fromClass]
  exact Upholds.get.bind fun _ => upholds_isIndexed_derive _ [] key

/-! ## Uses -/

theorem IsIndexed.of_addsClass (indexed : before.IsIndexed) (adds : before.AddsClass key after) :
    after.IsIndexed :=
  IsIndexedExcept.of_same indexed adds.structs adds.byClass adds.byName

theorem Use.isIndexed (used : before.Use after) (indexed : before.IsIndexed)
    (remembers : before.Remembers before) : after.IsIndexed := by
  cases used with
  | enum name mixin members => exact indexed.of_same rfl rfl rfl
  | cls reference name doc ancestors fields =>
      apply Leaves.run
      apply (leaves_addClass before reference name doc ancestors fields).imp
      · exact fun _ _ adds => indexed.of_addsClass adds
      · exact fun _ _ same => same ▸ indexed
  | struct reference name fields description =>
      apply Leaves.run
      apply (leaves_defineStruct before reference name fields description).imp
      · rintro id after ⟨key, between, adds, rfl, rfl⟩
        have unknown := adds.unknown remembers.known
        have entered := IsIndexedExcept.withStruct (indexed.of_addsClass adds) unknown
          (show (⟨name, some key, fields, description⟩ : Struct).cls = some key from rfl)
        exact entered.enterName List.not_mem_nil name
      · exact fun _ _ same => same ▸ indexed
  | record reference name fields description =>
      apply Leaves.run
      apply (leaves_defineRecord before reference name fields description).imp
      · rintro _ _ ⟨_, adds⟩
        exact indexed.of_addsClass adds
      · exact fun _ _ same => same ▸ indexed
  | derive key => exact (upholds_isIndexed_fromClass key).run indexed
  | describe expr => exact (upholds_describe upholds_isIndexed_fromClass expr).run indexed

/-! ## All registries -/

/-- A registry that came about by uses, successful or not, and by structs that were made by hand beside
it. -/
inductive Arises : Registry → Prop where
  | fresh (library : ClassLibrary) : Arises (.fresh library)
  | use {before after : Registry} (arises : Arises before) (used : before.Use after) : Arises after
  | handmade {registry : Registry} (arises : Arises registry) (structs : List Struct) :
      Arises { registry with structs := registry.structs ++ structs }

theorem Arises.remembers (arises : Arises registry) : registry.Remembers registry := by
  induction arises with
  | fresh library => exact (mirrors_fresh library).remembers
  | use _ used ih =>
      have remembers := used.remembers ih
      exact ⟨remembers.numbered, remembers.known, fun _ _ entered => entered⟩
  | handmade _ structs ih => exact ⟨ih.numbered, ih.known, fun _ _ entered => entered⟩

theorem Arises.isIndexed (arises : Arises registry) : registry.IsIndexed := by
  induction arises with
  | fresh library => exact isIndexed_fresh library
  | use earlier used ih => exact used.isIndexed ih earlier.remembers
  | handmade _ structs ih => exact ih.append structs

theorem Arises.exists_class (arises : Arises registry) (caches : registry.Caches id) :
    ∃ key, (registry.structs.at id).cls = some key ∧ registry.structOf? key = some id := by
  have indexed := arises.isIndexed
  rcases caches with ⟨key, entered⟩ | ⟨name, named⟩
  · exact ⟨key, indexed.classes key id entered, entered⟩
  · obtain ⟨key, -, entered⟩ := indexed.names name id named
    exact ⟨key, indexed.classes key id entered, entered⟩

end Registry

end TypedReply
