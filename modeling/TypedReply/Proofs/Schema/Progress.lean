import TypedReply.Proofs.Schema.Definitions
import TypedReply.Proofs.Schema.Parallel
import TypedReply.Proofs.Schema.Session
import Mathlib.Data.Finset.Basic

/-!
# Structs in progress

While a pass compiles the fields of a struct, the struct's name is marked, and a struct of a marked
name is referred to. The marks may be kept in the state of the pass, where they are set and taken
off: off also when a field fails, so that a pass leaves the marks as it finds them. Whatever marks
and definitions a call begins with, it keeps the definitions in place and puts tagged objects
behind them.
-/

namespace TypedReply

/-- A pass and the names of the structs that it is inside of. -/
structure Marked where
  visited : Finset String
  pass : Pass

namespace Compile

variable {options : Options} {store : Store}

/-! ## Marks in the state -/

/-- An operation of a pass that keeps its marks in its state. -/
abbrev MarkedAction (α : Type) := ExceptT Failure (StateM Marked) α

/-- An operation while a name is marked. The mark is taken off also when the operation fails. -/
def marking {α : Type} (name : String) (action : MarkedAction α) : MarkedAction α := do
  modifyThe Marked fun state => { state with visited := insert name state.visited }
  try action
  finally modifyThe Marked fun state => { state with visited := state.visited.erase name }

/-- The rest of a struct that is entered, with marks in the state. -/
def markedBody (options : Options) (store : Store) (inside : StructId → MarkedAction Value)
    (id : StructId) : MarkedAction Value := do
  let found := store.at id
  let fields ← marking found.name (fieldNodes inside found.name found.fields)
  let compiled := structNode options found fields
  modifyThe Marked fun state => { state with pass :=
    { state.pass with definitions := state.pass.definitions.put found.name compiled } }
  return compiled

/-- The node of a struct, as a pass that marks the names in its state makes it, down to some depth
below which anything may happen. -/
def markedStruct (options : Options) (store : Store) (bottom : StructId → MarkedAction Value) :
    Nat → StructId → MarkedAction Value
  | 0, id => bottom id
  | depth + 1, id => do
    let found := store.at id
    let name := found.name
    let state ← getThe Marked
    if (state.pass.structs.lookup name).any (· != id) then throw (.schema ⟨name, .sharedName⟩)
    else if name ∈ state.visited ∨ (state.pass.definitions.get? name).isSome then
      return refNode options name
    else
      set { state with pass :=
        { state.pass with structs := (name, id) :: state.pass.structs } }
      markedBody options store (markedStruct options store bottom depth) id

/-- An operation with marks in its state does what one without does, and leaves the marks that it
finds. -/
def Mirrors {α : Type} (visited : Finset String) (marked : MarkedAction α) (action : Action α) :
    Prop :=
  ∀ pass, marked.run ⟨visited, pass⟩ = ((action.run pass).1, ⟨visited, (action.run pass).2⟩)

theorem goesAlong_mirrors (visited : Finset String) :
    GoesAlong fun α (marked : MarkedAction α) action => Mirrors visited marked action where
  pure _ _ := rfl
  throw _ _ := rfl
  bind := by
    intro α β action other next otherNext first rest pass
    rw [run_bind, run_bind, first pass]
    rcases other.run pass with ⟨failure | result, between⟩
    · rfl
    · exact rest result between

theorem Mirrors.marking {α : Type} {visited : Finset String} {name : String}
    {marked : MarkedAction α} {action : Action α} (unmarked : name ∉ visited)
    (mirrors : Mirrors (insert name visited) marked action) :
    Mirrors visited (Compile.marking name marked) action := by
  intro pass
  rw [Compile.marking, run_bind]
  change (tryFinally marked _).run ⟨insert name visited, pass⟩ = _
  rw [run_tryFinally, mirrors pass, Finset.erase_insert unmarked]

theorem Mirrors.body {visited : Finset String} {inside : StructId → MarkedAction Value}
    {insideBare : StructId → Action Value} {id : StructId}
    (unmarked : (store.at id).name ∉ visited)
    (mirrors : ∀ other, Mirrors (insert (store.at id).name visited) (inside other)
      (insideBare other)) :
    Mirrors visited (markedBody options store inside id)
      (structBody options store insideBare id) := by
  have fields := related_fieldNodes_of_expands (goesAlong_mirrors _) mirrors (store.at id).name
    (store.at id).fields
  exact (goesAlong_mirrors visited).bind (fields.marking unmarked) fun _ _ => rfl

/-- The expansion of a struct with marks in the state, run from a pass. -/
theorem run_markedStruct (bottom : StructId → MarkedAction Value) (depth : Nat) (id : StructId)
    (visited : Finset String) (pass : Pass) :
    (markedStruct options store bottom (depth + 1) id).run ⟨visited, pass⟩ =
      if (pass.structs.lookup (store.at id).name).any (· != id) then
        (.error (.schema ⟨(store.at id).name, .sharedName⟩), ⟨visited, pass⟩)
      else if (store.at id).name ∈ visited ∨
          (pass.definitions.get? (store.at id).name).isSome then
        (.ok (refNode options (store.at id).name), ⟨visited, pass⟩)
      else (markedBody options store (markedStruct options store bottom depth) id).run
          ⟨visited, { pass with structs := ((store.at id).name, id) :: pass.structs }⟩ := by
  simp only [markedStruct]
  change (ite _ _ _ : MarkedAction Value).run ⟨visited, pass⟩ = _
  split
  · rfl
  · split
    · rfl
    · rfl

/-- While depth is left for every name that was not entered, the expansion of a struct with marks in
the state does what the one without does. The names that were entered lie before those that were
marked from the beginning. -/
theorem mirrors_markedStruct (options : Options) (store : Store)
    (bottom : StructId → MarkedAction Value) (initial : List String) (depth : Nat)
    (entered : List String) (distinct : entered.Nodup)
    (named : entered ⊆ "" :: store.map (·.name))
    (enough : entered.length + depth = store.length + 2) (id : StructId) :
    Mirrors (entered ++ initial).toFinset (markedStruct options store bottom depth id)
      (struct options store depth (entered ++ initial) id) := by
  induction depth generalizing entered id with
  | zero => exact (not_exhausted distinct named enough).elim
  | succ depth ih =>
      intro pass
      rw [run_markedStruct, run_struct]
      have sameMark : ((store.at id).name ∈ (entered ++ initial).toFinset ∨
            (pass.definitions.get? (store.at id).name).isSome = true) ↔
          ((entered ++ initial).contains (store.at id).name ||
            (pass.definitions.get? (store.at id).name).isSome) = true := by
        rw [List.mem_toFinset, Bool.or_eq_true, List.contains_iff_mem]
      simp only [sameMark]
      split
      · rfl
      · split
        · rfl
        next unknown =>
          simp only [Bool.or_eq_true, not_or, List.contains_iff_mem] at unknown
          have unmarked : (store.at id).name ∉ (entered ++ initial).toFinset :=
            fun isMarked => unknown.1 (List.mem_toFinset.mp isMarked)
          have unentered : (store.at id).name ∉ entered :=
            fun isEntered => unknown.1 (List.mem_append_left _ isEntered)
          have inside := ih ((store.at id).name :: entered)
            (List.nodup_cons.mpr ⟨unentered, distinct⟩)
            (List.cons_subset.mpr ⟨store.name_at_mem id, named⟩)
            (by rw [List.length_cons]; omega)
          rw [List.cons_append, List.toFinset_cons] at inside
          exact Mirrors.body unmarked inside _

/-! ## What a call leaves -/

/-- A node is the definition of a struct of a name: an object whose tag is that name. -/
structure Defines (name : String) (node : Value) : Prop where
  isObject : node.get? "type" = some (.str "object")
  tagged : ∃ tag, (node.get? "properties").bind (·.get? typeKey) = some tag ∧
    tag.get? "const" = some (.str name)

/-- A pass goes on: the definitions stay where they are, and behind them come definitions of structs
that were not being compiled. -/
def Appends (visited : List String) (before after : Pass) : Prop :=
  ∃ added, after.definitions = before.definitions ++ added ∧
    ∀ entry ∈ added, Defines entry.1 entry.2 ∧ entry.1 ∉ visited

variable {visited : List String} {first second third : Pass}

theorem Appends.refl (pass : Pass) : Appends visited pass pass :=
  ⟨[], (List.append_nil _).symm, List.forall_mem_nil _⟩

theorem Appends.trans (appends : Appends visited first second)
    (appendsMore : Appends visited second third) : Appends visited first third := by
  obtain ⟨added, isAfter, each⟩ := appends
  obtain ⟨more, isLast, eachMore⟩ := appendsMore
  refine ⟨added ++ more, ?_, List.forall_mem_append.mpr ⟨each, eachMore⟩⟩
  rw [isLast, isAfter, List.append_assoc]

theorem Appends.mono {fewer : List String} (appends : Appends visited first second)
    (subset : fewer ⊆ visited) : Appends fewer first second := by
  obtain ⟨added, isAfter, each⟩ := appends
  exact ⟨added, isAfter, fun entry isAdded =>
    ⟨(each entry isAdded).1, fun isName => (each entry isAdded).2 (subset isName)⟩⟩

/-- A name that is being compiled stays undefined. -/
theorem Appends.not_mem {name : String} (appends : Appends visited first second)
    (isVisited : name ∈ visited) (undefined : name ∉ first.definitions.map Prod.fst) :
    name ∉ second.definitions.map Prod.fst := by
  obtain ⟨added, isAfter, each⟩ := appends
  rw [isAfter, List.map_append, List.mem_append, not_or]
  refine ⟨undefined, fun isAdded => ?_⟩
  obtain ⟨entry, isEntry, rfl⟩ := List.mem_map.mp isAdded
  exact (each entry isEntry).2 isVisited

theorem defines_structNode (options : Options) (struct : Struct) {fields : Fields}
    (free : typeKey ∉ fields.map Prod.fst) :
    Defines struct.name (structNode options struct fields) := by
  have tagged : (Fields.putAll [(typeKey, tagNode struct.name)] fields).get? typeKey =
      some (tagNode struct.name) := by
    rw [Fields.get?_putAll_of_not_mem free, Fields.get?_cons, if_pos rfl]
  unfold structNode
  constructor
  · cases options.structDescriptions <;> simp [Fields.get?_cons]
  · refine ⟨tagNode struct.name, ?_, get?_const_tagNode struct.name⟩
    cases options.structDescriptions <;> simp [Fields.get?_cons, tagged]

/-- An operation only puts definitions behind those that it finds, be it that it fails. -/
def Extends {α : Type} (visited : List String) (action : Action α) : Prop :=
  ∀ before, Appends visited before (action.run before).2

theorem holdsAlong_extends (visited : List String) :
    HoldsAlong fun α (action : Action α) => Extends visited action where
  pure _ := Appends.refl
  throw _ := Appends.refl
  bind := by
    intro α β action other next otherNext first rest before
    have begins := first before
    rw [run_bind]
    rcases ran : action.run before with ⟨failure | result, between⟩
    · rwa [ran] at begins
    · rw [ran] at begins
      exact begins.trans (rest result between)

theorem typeKey_not_mem_of_yields {expand : StructId → Action Value} {owner : String}
    {fields : List Field} {compiled : Fields} {before after : Pass}
    (yields : Yields (fieldNodes expand owner fields) before compiled after) :
    typeKey ∉ compiled.map Prod.fst := by
  have known : Expands expand (fun _ => True) (fun _ _ => True) fun _ _ _ => True :=
    ⟨fun _ => trivial, fun _ _ => trivial, fun _ _ _ _ => trivial, fun _ _ => by simp⟩
  have renders := (known.fieldNodes owner fields _ _ _ trivial yields).2.2
  exact typeKey_not_mem_of_renders ((rendersFields_iff _ _).mp renders)

/-- A struct that is not being compiled goes behind the definitions. -/
theorem Appends.closing {name : String} {node : Value} {before after : Pass}
    (appends : Appends (name :: visited) before after) (undefined : before.definitions.get? name = none)
    (unvisited : name ∉ visited) (defines : Defines name node) :
    Appends visited before { after with definitions := after.definitions.put name node } := by
  have absent : name ∉ after.definitions.map Prod.fst := by
    apply appends.not_mem List.mem_cons_self
    rw [← Fields.get?_eq_none_iff]
    exact undefined
  apply (appends.mono (List.subset_cons_self _ _)).trans
  refine ⟨[(name, node)], Fields.put_of_not_mem absent node, ?_⟩
  exact List.forall_mem_singleton.mpr ⟨defines, unvisited⟩

/-- The body of a struct that is entered goes behind the definitions of the structs inside of it. -/
theorem appends_structBody {inside : StructId → Action Value} {id : StructId} (before : Pass)
    (extending : ∀ other, Extends ((store.at id).name :: visited) (inside other))
    (unvisited : (store.at id).name ∉ visited)
    (undefined : before.definitions.get? (store.at id).name = none) :
    Appends visited before ((structBody options store inside id).run before).2 := by
  have inner := holds_fieldNodes (holdsAlong_extends _) extending (store.at id).name
    (store.at id).fields before
  rw [structBody, run_bind]
  rcases ran : (fieldNodes inside (store.at id).name (store.at id).fields).run before
    with ⟨failure | compiled, between⟩
  · rw [ran] at inner
    exact inner.mono (List.subset_cons_self _ _)
  · rw [ran] at inner
    have free := typeKey_not_mem_of_yields ran
    exact inner.closing undefined unvisited (defines_structNode options (store.at id) free)

theorem extends_struct (options : Options) (store : Store) (fuel : Nat) (visited : List String)
    (id : StructId) : Extends visited (struct options store fuel visited id) := by
  induction fuel generalizing visited id with
  | zero => exact Appends.refl
  | succ fuel ih =>
      intro before
      rw [run_struct]
      split
      · exact .refl before
      · split
        · exact .refl before
        next unknown =>
          simp only [Bool.or_eq_true, not_or, List.contains_iff_mem, Option.not_isSome_iff_eq_none]
            at unknown
          exact appends_structBody
            { before with structs := ((store.at id).name, id) :: before.structs }
            (ih ((store.at id).name :: visited)) unknown.1 unknown.2

end Compile

open Compile

/-- Compiling a descriptor with given marks and definitions leaves the marks as they are and the
definitions in place, be it that it fails. What it adds goes behind them, and each definition that it
adds is an object tagged with the name that it defines. -/
theorem marks_restored_and_definitions_appended (options : Options) (store : Store)
    (bottom : StructId → MarkedAction Value) (visited : List String) (definitions : Fields)
    (target : Descriptor) :
    let (result, after) := (node (markedStruct options store bottom (store.length + 2)) target).run
      ⟨visited.toFinset, ⟨definitions, []⟩⟩
    (result, after.pass.definitions) = compileNode options store visited definitions target ∧
      after.visited = visited.toFinset ∧
      ∃ added, after.pass.definitions = definitions ++ added ∧
        ∀ entry ∈ added, Defines entry.1 entry.2 := by
  have mirrors := related_node (goesAlong_mirrors visited.toFinset)
    (mirrors_markedStruct options store bottom visited (store.length + 2) [] List.nodup_nil
      (List.nil_subset _) (by rw [List.length_nil, Nat.zero_add]))
    target ⟨definitions, []⟩
  have appends : Appends visited ⟨definitions, []⟩ _ :=
    holds_node (holdsAlong_extends visited)
      (extends_struct options store (store.length + 2) visited) target ⟨definitions, []⟩
  obtain ⟨added, isAfter, each⟩ := appends
  rw [mirrors]
  exact ⟨rfl, rfl, added, isAfter, fun entry isAdded => (each entry isAdded).1⟩

end TypedReply
