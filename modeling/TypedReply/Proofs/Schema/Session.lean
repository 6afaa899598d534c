import TypedReply.Proofs.Schema.Failure
import TypedReply.Proofs.Schema.Parallel

/-!
# Sessions

Descriptors can be compiled in one call after another beside one table of definitions. A pass knows
which struct it met under a name, while a call begins without knowing any: the table holds nodes
and not structs. A session of calls therefore does what one pass over all the descriptors does, except
where the pass refuses a struct because it met another one of its name before. If an earlier call
defined that name, the session does not see the difference and refers to the other struct.
-/

namespace TypedReply

/-- The nodes of descriptors that are compiled one after another, each in a call of its own beside the
definitions of those before, up to the first call that fails. -/
def compileNodes (options : Options) (store : Store) (definitions : Fields) :
    List Descriptor → Outcome (List Value) × Fields
  | [] => (.ok [], definitions)
  | target :: targets =>
    match compileNode options store [] definitions target with
    | (.error failure, after) => (.error failure, after)
    | (.ok node, after) =>
      let (nodes, left) := compileNodes options store after targets
      (nodes.map (node :: ·), left)

/-- A session ends as a pass over a record does: with the same definitions, and either with the same
failure or with the nodes that the record has under the names of its fields. -/
structure EndsLike (names : List String) (session : Outcome (List Value) × Fields)
    (pass : Outcome Value × Fields) : Prop where
  definitions : session.2 = pass.2
  failure : ∀ failure, session.1 = .error failure ↔ pass.1 = .error failure
  nodes : ∀ nodes record, session.1 = .ok nodes → pass.1 = .ok record →
    ∃ properties, record.get? "properties" = some properties ∧
      List.Forall₂ (fun name node => properties.get? name = some node) names nodes

/-- Whether a field leaves the node of its type as it is. -/
def IsBare (field : Field) : Prop := field.required = true ∧ field.description = none

namespace Compile

variable {options : Options} {store : Store}

/-! ## A call beside a pass -/

/-- What a call does not know of the pass that it is a part of: the structs that the pass met under
some names, all of which are defined. -/
structure Forgets (hidden : String → Prop) (pass call : Pass) : Prop where
  definitions : call.definitions = pass.definitions
  defined : ∀ name, hidden name → (pass.definitions.get? name).isSome = true
  unknown : ∀ name, hidden name → call.structs.lookup name = none
  structs : ∀ name, ¬hidden name → call.structs.lookup name = pass.structs.lookup name

/-- How a pass and a call end that began apart only in what the call does not know: both alike, or
the pass refuses a struct of a hidden name. -/
inductive Tracks {α : Type} (hidden : String → Prop) :
    Except Failure α × Pass → Except Failure α × Pass → Prop where
  | returned (result : α) {pass call : Pass} (forgets : Forgets hidden pass call) :
      Tracks hidden (.ok result, pass) (.ok result, call)
  | failed (failure : Failure) {pass call : Pass} (same : call.definitions = pass.definitions) :
      Tracks hidden (.error failure, pass) (.error failure, call)
  | refused {name : String} (isHidden : hidden name) (pass : Pass)
      (call : Except Failure α × Pass) :
      Tracks hidden (.error (.schema ⟨name, .sharedName⟩), pass) call

/-- An operation ends in a call as in a pass, except for hidden names. -/
def IsTracked {α : Type} (hidden : String → Prop) (action : Action α) : Prop :=
  ∀ pass call, Forgets hidden pass call → Tracks hidden (action.run pass) (action.run call)

namespace IsTracked

variable {α β : Type} {hidden : String → Prop}

theorem pure (value : α) : IsTracked hidden (Pure.pure value) :=
  fun _ _ forgets => .returned value forgets

theorem throw (failure : Failure) :
    IsTracked hidden (MonadExcept.throw failure : Action α) :=
  fun _ _ forgets => .failed failure forgets.definitions

theorem bind {action : Action α} {next : α → Action β} (first : IsTracked hidden action)
    (rest : ∀ value, IsTracked hidden (next value)) : IsTracked hidden (action >>= next) := by
  intro pass call forgets
  have begins := first pass call forgets
  rw [run_bind, run_bind]
  generalize action.run pass = passed at begins ⊢
  generalize action.run call = called at begins ⊢
  cases begins with
  | returned result forgets => exact rest result _ _ forgets
  | failed failure same => exact .failed failure same
  | refused isHidden pass call => exact .refused isHidden _ _

end IsTracked

theorem holdsAlong_isTracked (hidden : String → Prop) :
    HoldsAlong fun α (action : Action α) => IsTracked hidden action where
  pure := .pure
  throw := .throw
  bind first rest := first.bind rest

/-- Entering a struct whose name is not hidden makes it known to both. -/
theorem Forgets.opening {hidden : String → Prop} {pass call : Pass}
    (forgets : Forgets hidden pass call) {name : String} (isOpen : ¬hidden name) (id : StructId) :
    Forgets hidden { pass with structs := (name, id) :: pass.structs }
      { call with structs := (name, id) :: call.structs } where
  definitions := forgets.definitions
  defined := forgets.defined
  unknown other isHidden := by
    have different : (other == name) = false := by
      rw [beq_eq_false_iff_ne]
      rintro rfl
      exact isOpen isHidden
    rw [List.lookup_cons, different]
    exact forgets.unknown other isHidden
  structs other otherOpen := by
    rw [List.lookup_cons, List.lookup_cons, forgets.structs other otherOpen]

theorem Forgets.closing {hidden : String → Prop} {pass call : Pass}
    (forgets : Forgets hidden pass call) (name : String) (node : Value) :
    Forgets hidden { pass with definitions := pass.definitions.put name node }
      { call with definitions := call.definitions.put name node } where
  definitions := by rw [forgets.definitions]
  defined other isHidden := by
    rw [Fields.get?_put]
    split
    · rfl
    · exact forgets.defined other isHidden
  unknown := forgets.unknown
  structs := forgets.structs

/-- The rest of a struct that is entered: the nodes of its fields, and its definition. -/
def structBody (options : Options) (store : Store) (inside : StructId → Action Value)
    (id : StructId) : Action Value := do
  let found := store.at id
  let fields ← fieldNodes inside found.name found.fields
  let compiled := structNode options found fields
  modifyThe Pass fun pass => { pass with definitions := pass.definitions.put found.name compiled }
  return compiled

/-- The expansion of a struct, run from a pass. -/
theorem run_struct (fuel : Nat) (visited : List String) (id : StructId) (pass : Pass) :
    (struct options store (fuel + 1) visited id).run pass =
      if (pass.structs.lookup (store.at id).name).any (· != id) then
        (.error (.schema ⟨(store.at id).name, .sharedName⟩), pass)
      else if visited.contains (store.at id).name ||
          (pass.definitions.get? (store.at id).name).isSome then
        (.ok (refNode options (store.at id).name), pass)
      else (structBody options store (struct options store fuel ((store.at id).name :: visited))
        id).run { pass with structs := ((store.at id).name, id) :: pass.structs } := by
  simp only [struct]
  change (ite _ _ _ : Action Value).run pass = _
  split
  · rfl
  · split
    · rfl
    · rfl

/-- The expansion of a struct is tracked: a call refers to a struct whose name is hidden, and so does
the pass unless it met another struct of that name. -/
theorem isTracked_struct (options : Options) (store : Store) (hidden : String → Prop) (fuel : Nat)
    (visited : List String) (id : StructId) :
    IsTracked hidden (struct options store fuel visited id) := by
  induction fuel generalizing visited id with
  | zero => exact .pure _
  | succ fuel ih =>
      intro pass call forgets
      rw [run_struct, run_struct]
      by_cases isHidden : hidden (store.at id).name
      · have known : (call.definitions.get? (store.at id).name).isSome = true := by
          rw [forgets.definitions]
          exact forgets.defined _ isHidden
        have alsoKnown := forgets.defined _ isHidden
        rw [forgets.unknown _ isHidden, known, alsoKnown]
        simp only [Option.any_none, Bool.or_true, if_true]
        split
        · exact .refused isHidden _ _
        · exact .returned _ forgets
      · rw [forgets.structs _ isHidden]
        split
        · exact .failed _ forgets.definitions
        · simp only [forgets.definitions]
          split
          · exact .returned _ forgets
          · have inside := holds_fieldNodes (holdsAlong_isTracked hidden)
              (ih ((store.at id).name :: visited)) (store.at id).name (store.at id).fields
            have body : IsTracked hidden (structBody options store
                (struct options store fuel ((store.at id).name :: visited)) id) := by
              apply inside.bind
              intro fields pass call forgets
              exact .returned _ (forgets.closing _ _)
            have opened := forgets.opening isHidden id
            rw [forgets.definitions] at opened
            exact body _ _ opened

/-! ## Names that are defined already -/

/-- A name is defined, though the pass met no struct of that name. -/
def Inherits (name : String) (pass : Pass) : Prop :=
  (pass.definitions.get? name).isSome = true ∧ pass.structs.lookup name = none

theorem not_refused_of_reserved (owner name : String) :
    Failure.schema ⟨owner, .reservedField⟩ ≠ .schema ⟨name, .sharedName⟩ := by
  intro isRefused
  cases isRefused

/-- A descriptor is not refused for a name that is defined where structs are not. -/
theorem ends_node_of_inherits {expand : StructId → Action Value} {name : String}
    (expands : ∀ id before, Inherits name before →
      Ends (expand id) before (fun _ => Inherits name) (· ≠ .schema ⟨name, .sharedName⟩))
    (descriptor : Descriptor) (before : Pass) (inherits : Inherits name before) :
    Ends (node expand descriptor) before (fun _ => Inherits name)
      (· ≠ .schema ⟨name, .sharedName⟩) := by
  apply @ends_node_of_reached [] descriptor expand (Inherits name)
  · intro id _
    exact expands id
  · intro _ record _ _ _
    exact not_refused_of_reserved record.kind name
  · intro value _ isRefused
    cases isRefused
  · exact .refl
  · exact inherits

theorem ends_struct_of_inherits (options : Options) (store : Store) {name : String} (fuel : Nat)
    (visited : List String) (id : StructId) (before : Pass) (inherits : Inherits name before) :
    Ends (struct options store fuel visited id) before (fun _ => Inherits name)
      (· ≠ .schema ⟨name, .sharedName⟩) := by
  induction fuel generalizing visited id before with
  | zero =>
      rw [struct, ends_pure]
      exact inherits
  | succ fuel ih =>
      simp only [struct, ends_bind, ends_get, ends_ite, ends_throw, ends_pure, ends_set,
        ends_modify]
      by_cases same : (store.at id).name = name
      · simp only [same, inherits.1, inherits.2, Option.any_none, Bool.or_true, if_true]
        exact inherits
      · have different : name ≠ (store.at id).name := Ne.symm same
        have unequal : (name == (store.at id).name) = false := by simpa using different
        split
        · simpa using same
        · split
          · exact inherits
          · have opened : Inherits name
                { before with structs := ((store.at id).name, id) :: before.structs } := by
              constructor
              · exact inherits.1
              · rw [List.lookup_cons, unequal]
                exact inherits.2
            have fields := ends_fieldNodes (store.at id).name (store.at id).fields
              (fun _ => not_refused_of_reserved (store.at id).name name)
              (fun field _ => ends_node_of_inherits (ih ((store.at id).name :: visited))
                field.type) _ opened
            apply fields.mono
            intro compiled after known
            constructor
            · rw [Fields.get?_put, if_neg different]
              exact known.1
            · exact known.2

/-! ## Calls in a row -/

/-- How a pass ends that goes on over the fields of a record. -/
def endOfFields (options : Options) (store : Store) (owner : String) (fields : List Field)
    (pass : Pass) : Outcome Fields × Pass :=
  (fieldNodes (struct options store (store.length + 2) []) owner fields).run pass

/-- Of a record's fields, the first of which is bare, the type of the first is compiled and then the
others are. -/
theorem endOfFields_cons (owner : String) {field : Field} (fields : List Field)
    (bare : IsBare field) (free : field.name ≠ typeKey) (pass : Pass) :
    endOfFields options store owner (field :: fields) pass =
      match (descriptor options store [] field.type).run pass with
      | (.error failure, between) => (.error failure, between)
      | (.ok first, between) =>
        ((endOfFields options store owner fields between).1.map ((field.name, first) :: ·),
          (endOfFields options store owner fields between).2) := by
  cases field with
  | mk name type required description default =>
      cases bare.1
      cases bare.2
      unfold endOfFields descriptor
      simp only [fieldNodes, if_neg free, run_bind]
      rcases (node (struct options store (store.length + 2) []) type).run pass
        with ⟨failure | first, between⟩
      · rfl
      · simp only
        rcases (fieldNodes (struct options store (store.length + 2) []) owner fields).run between
          with ⟨failure | rest, after⟩ <;> rfl

section Calls

variable {definitions between left : Fields} {target : Descriptor} {targets : List Descriptor}

theorem compileNodes_of_failed {failure : Failure}
    (call : compileNode options store [] definitions target = (.error failure, between)) :
    compileNodes options store definitions (target :: targets) = (.error failure, between) := by
  rw [compileNodes, call]

theorem compileNodes_of_returned {node : Value}
    (call : compileNode options store [] definitions target = (.ok node, between)) :
    compileNodes options store definitions (target :: targets) =
      ((compileNodes options store between targets).1.map (node :: ·),
        (compileNodes options store between targets).2) := by
  rw [compileNodes, call]

theorem exists_call_of_compileNodes {nodes : List Value}
    (session : compileNodes options store definitions (target :: targets) = (.ok nodes, left)) :
    ∃ node between rest, compileNode options store [] definitions target = (.ok node, between) ∧
      compileNodes options store between targets = (.ok rest, left) ∧ nodes = node :: rest := by
  rcases call : compileNode options store [] definitions target with ⟨failure | node, between⟩
  · rw [compileNodes_of_failed call] at session
    cases session
  · rw [compileNodes_of_returned call] at session
    rcases rest : compileNodes options store between targets with ⟨failure | others, last⟩
    · rw [rest] at session
      cases session
    · rw [rest] at session
      cases session
      exact ⟨node, between, others, rfl, rest, rfl⟩

theorem length_of_compileNodes {nodes : List Value}
    (session : compileNodes options store definitions targets = (.ok nodes, left)) :
    nodes.length = targets.length := by
  induction targets generalizing definitions nodes with
  | nil =>
      cases session
      rfl
  | cons target targets ih =>
      obtain ⟨node, between, rest, -, goesOn, rfl⟩ := exists_call_of_compileNodes session
      rw [List.length_cons, List.length_cons, ih goesOn]

/-- A session that succeeds is gone on with beside the definitions that it leaves. -/
theorem compileNodes_append {nodes : List Value}
    (session : compileNodes options store definitions targets = (.ok nodes, left))
    (later : List Descriptor) :
    compileNodes options store definitions (targets ++ later) =
      ((compileNodes options store left later).1.map (nodes ++ ·),
        (compileNodes options store left later).2) := by
  induction targets generalizing definitions nodes with
  | nil =>
      cases session
      rw [List.nil_append]
      rcases compileNodes options store left later with ⟨failure | rest, after⟩ <;> rfl
  | cons target targets ih =>
      obtain ⟨node, between, rest, call, goesOn, rfl⟩ := exists_call_of_compileNodes session
      rw [List.cons_append, compileNodes_of_returned call, ih goesOn]
      rcases compileNodes options store left later with ⟨failure | more, last⟩ <;> rfl

theorem not_refused_of_defined {name : String}
    (defined : (definitions.get? name).isSome = true) (targets : List Descriptor) :
    (compileNodes options store definitions targets).1 ≠ .error (.schema ⟨name, .sharedName⟩) := by
  induction targets generalizing definitions with
  | nil =>
      intro refused
      cases refused
  | cons target targets ih =>
      have ends := ends_node_of_inherits (ends_struct_of_inherits options store
        (store.length + 2) []) target ⟨definitions, []⟩ ⟨defined, rfl⟩
      unfold Ends at ends
      rcases run : (descriptor options store [] target).run ⟨definitions, []⟩
        with ⟨failure | node, after⟩
      · have call : compileNode options store [] definitions target =
            (.error failure, after.definitions) := by rw [compileNode, run]
        rw [show (node _ target : Action Value).run _ = _ from run] at ends
        rw [compileNodes_of_failed call]
        intro refused
        exact ends (Except.error.inj refused)
      · have call : compileNode options store [] definitions target =
            (.ok node, after.definitions) := by rw [compileNode, run]
        rw [show (Compile.node _ target : Action Value).run _ = _ from run] at ends
        have rest := ih ends.1
        rw [compileNodes_of_returned call]
        rcases session : compileNodes options store after.definitions targets
          with ⟨other | nodes, last⟩
        · rw [session] at rest
          intro refused
          exact rest refused
        · intro refused
          cases refused

end Calls

/-- The structs that a pass met outside of all structs are defined, so they are hidden from a call that
begins there. -/
theorem Consistent.forgets {pass : Pass} (consistent : Consistent options store [] pass) :
    Forgets (fun name => (pass.structs.lookup name).isSome = true) pass ⟨pass.definitions, []⟩ where
  definitions := rfl
  defined name isHidden := by
    obtain ⟨id, known⟩ := Option.isSome_iff_exists.mp isHidden
    exact (consistent.settled name id known).resolve_left List.not_mem_nil
  unknown name isHidden := rfl
  structs name isOpen := by
    rw [Option.not_isSome_iff_eq_none.mp isOpen]
    rfl

/-- A pass over the rest of a record refuses a struct whose name a session over the types of the rest
defines before. -/
def Overlooks (options : Options) (store : Store) (owner : String) (fields : List Field)
    (pass : Pass) : Prop :=
  ∃ earlier later name nodes left, fields.map (·.type) = earlier ++ later ∧
    compileNodes options store pass.definitions earlier = (.ok nodes, left) ∧
      (left.get? name).isSome = true ∧
        (endOfFields options store owner fields pass).1 = .error (.schema ⟨name, .sharedName⟩)

/-- A session over the types of bare fields does what a pass does that compiles the fields, unless it
overlooks a struct that the pass refuses. -/
theorem endOfFields_eq_or_overlooks (owner : String) {fields : List Field}
    (bare : ∀ field ∈ fields, IsBare field) (free : typeKey ∉ fields.map (·.name)) {pass : Pass}
    (consistent : Consistent options store [] pass) :
    ((endOfFields options store owner fields pass).1 =
          (compileNodes options store pass.definitions (fields.map (·.type))).1.map
            (fields.map (·.name)).zip ∧
        (endOfFields options store owner fields pass).2.definitions =
          (compileNodes options store pass.definitions (fields.map (·.type))).2) ∨
      Overlooks options store owner fields pass := by
  induction fields generalizing pass with
  | nil =>
      left
      exact ⟨rfl, rfl⟩
  | cons field fields ih =>
      simp only [List.map_cons, List.mem_cons, not_or] at free
      have tracks : Tracks _ ((descriptor options store [] field.type).run pass)
          ((descriptor options store [] field.type).run ⟨pass.definitions, []⟩) :=
        holds_node (holdsAlong_isTracked _)
          (isTracked_struct options store _ (store.length + 2) []) field.type pass _
          consistent.forgets
      have run : endOfFields options store owner (field :: fields) pass = _ :=
        endOfFields_cons owner fields (bare field List.mem_cons_self) (Ne.symm free.1) pass
      rcases called : (descriptor options store [] field.type).run ⟨pass.definitions, []⟩
        with ⟨result, after⟩
      have call : compileNode options store [] pass.definitions field.type =
          (result, after.definitions) := by rw [compileNode, called]
      rcases ran : (descriptor options store [] field.type).run pass with ⟨passed, between⟩
      rw [ran, called] at tracks
      rw [ran] at run
      rw [List.map_cons, List.map_cons, run]
      cases tracks with
      | failed failure same =>
          left
          rw [compileNodes_of_failed call]
          exact ⟨rfl, same.symm⟩
      | refused isHidden pass call =>
          right
          exact ⟨[], _, _, [], _, rfl, rfl, consistent.forgets.defined _ isHidden, by rw [run]⟩
      | returned first forgets =>
          have known := expands_shared options store (store.length + 2) [] List.nodup_nil
            (List.nil_subset _) (by simp)
          have kept := (known.node field.type pass first between consistent ran).1
          rw [forgets.definitions] at call
          rw [compileNodes_of_returned call]
          rcases ih (fun other isOther => bare other (List.mem_cons_of_mem _ isOther)) free.2 kept
            with ⟨nodes, definitions⟩ | ⟨earlier, later, name, nodes, left, types, session, defined,
              refused⟩
          · left
            refine ⟨?_, definitions⟩
            simp only [nodes]
            generalize (compileNodes options store between.definitions (fields.map (·.type))).1 = rest
            cases rest <;> rfl
          · right
            refine ⟨field.type :: earlier, later, name, first :: nodes, left, ?_, ?_, defined, ?_⟩
            · rw [List.map_cons, types, List.cons_append]
            · rw [compileNodes_of_returned call, session]
              rfl
            · rw [run]
              simp only [refused]
              rfl

/-- A pass over a record is one over its fields. -/
theorem compileNode_fixed (options : Options) (store : Store) (record : FixedRecord) :
    compileNode options store [] [] (.fixed record) =
      ((endOfFields options store record.kind record.fields ⟨[], []⟩).1.map
          (recordNode record.name record.description (record.fields.map (·.name))),
        (endOfFields options store record.kind record.fields ⟨[], []⟩).2.definitions) := by
  cases record with
  | mk fields name cls description =>
      unfold compileNode descriptor endOfFields
      simp only [node, run_bind]
      rcases (fieldNodes (struct options store (store.length + 2) []) _ fields).run ⟨[], []⟩
        with ⟨failure | compiled, after⟩ <;> rfl

/-- The nodes of a record's fields are found under their names. -/
theorem exists_properties_of_recordNode (name description : Option String) {names : List String}
    {nodes : List Value} (distinct : names.Nodup) (sameLength : names.length = nodes.length) :
    ∃ properties, (recordNode name description names (names.zip nodes)).get? "properties" =
        some properties ∧
      List.Forall₂ (fun name node => properties.get? name = some node) names nodes := by
  have keys : (names.zip nodes).map Prod.fst = names := by
    rw [List.map_fst_zip (Nat.le_of_eq sameLength)]
  have each : ∀ name node, (name, node) ∈ names.zip nodes →
      ∀ tagged : Fields, (Fields.node (tagged.putAll (names.zip nodes))).get? name = some node := by
    intro name node isPair tagged
    have found := Fields.get?_of_mem (keys.symm ▸ distinct) isPair
    rw [Fields.get?_node, Fields.get?_putAll (keys.symm ▸ distinct), found, Option.some_or]
  refine ⟨_, by simp [recordNode, Fields.get?_cons]; rfl, ?_⟩
  apply (aligned_zip sameLength).imp
  intro name node isPair
  exact each name node isPair _

/-- A pass that makes the node of a record of a session's nodes ends like the session. -/
theorem endsLike_of_zip {names : List String} (distinct : names.Nodup)
    (name description : Option String) {session : Outcome (List Value) × Fields}
    {pass : Outcome Value × Fields}
    (sameLength : ∀ nodes, session.1 = .ok nodes → names.length = nodes.length)
    (ends : pass.1 = (session.1.map names.zip).map (recordNode name description names))
    (definitions : pass.2 = session.2) : EndsLike names session pass := by
  constructor
  · exact definitions.symm
  · intro failure
    rw [ends]
    cases session.1 with
    | error other => simp [Except.map]
    | ok nodes => simp [Except.map]
  · intro nodes record succeeds passes
    rw [ends, succeeds] at passes
    cases passes
    exact exists_properties_of_recordNode name description distinct (sameLength nodes succeeds)

end Compile

open Compile

/-- A session of calls over the types of a record's bare fields ends as the pass over the record does,
or an earlier call defined the name for which the pass refuses a struct. -/
theorem session_endsLike_or_overlooks (options : Options) (store : Store) {record : FixedRecord}
    (bare : ∀ field ∈ record.fields, IsBare field)
    (distinct : (typeKey :: record.fields.map (·.name)).Nodup) :
    EndsLike (record.fields.map (·.name))
        (compileNodes options store [] (record.fields.map (·.type)))
        (compileNode options store [] [] (.fixed record)) ∨
      Overlooks options store record.kind record.fields ⟨[], []⟩ := by
  simp only [List.nodup_cons] at distinct
  apply (endOfFields_eq_or_overlooks record.kind bare distinct.1 (.fresh options store)).imp_left
  intro alike
  apply endsLike_of_zip distinct.2 record.name record.description
  · intro nodes succeeds
    have length := length_of_compileNodes (Prod.ext succeeds rfl)
    rw [length, List.length_map, List.length_map]
  · rw [compileNode_fixed, alike.1]
  · rw [compileNode_fixed, alike.2]

/-- A session of calls over the types of a record's bare fields ends as the pass over the record does,
exactly unless an earlier call defined the name of a struct that the pass refuses because it met
another struct of that name. -/
theorem session_endsLike_pass_iff (options : Options) (store : Store) {record : FixedRecord}
    (bare : ∀ field ∈ record.fields, IsBare field)
    (distinct : (typeKey :: record.fields.map (·.name)).Nodup) :
    let types := record.fields.map (·.type)
    let pass := compileNode options store [] [] (.fixed record)
    EndsLike (record.fields.map (·.name)) (compileNodes options store [] types) pass ↔
      ¬∃ earlier later nodes definitions name, types = earlier ++ later ∧
        compileNodes options store [] earlier = (.ok nodes, definitions) ∧
        (definitions.get? name).isSome = true ∧
        pass.1 = .error (.schema ⟨name, .sharedName⟩) := by
  constructor
  · intro endsLike overlooked
    obtain ⟨earlier, later, nodes, definitions, name, types, session, defined, refused⟩ := overlooked
    have failed := (endsLike.failure _).mpr refused
    rw [types, compileNodes_append session] at failed
    have sound : (compileNodes options store definitions later).1 ≠ _ :=
      not_refused_of_defined defined later
    cases rest : (compileNodes options store definitions later).1 with
    | error failure =>
        rw [rest] at failed sound
        exact sound failed
    | ok more =>
        rw [rest] at failed
        cases failed
  · intro notOverlooked
    apply (session_endsLike_or_overlooks options store bare distinct).resolve_right
    intro overlooks
    obtain ⟨earlier, later, name, nodes, definitions, types, session, defined, refused⟩ := overlooks
    apply notOverlooked
    refine ⟨earlier, later, nodes, definitions, name, types, session, defined, ?_⟩
    rw [compileNode_fixed, refused]
    rfl

/-- Where no two structs that a record reaches have one name, a session over the types of its fields
ends as the pass does. -/
theorem session_endsLike_pass_of_unshared (options : Options) {store : Store}
    {record : FixedRecord} (bare : ∀ field ∈ record.fields, IsBare field)
    (distinct : (typeKey :: record.fields.map (·.name)).Nodup)
    (real : (Descriptor.fixed record).Throughout store Descriptor.IsReal)
    (unshared : ∀ id other, Descriptor.Reaches store (.fixed record) (.struct id) →
      Descriptor.Reaches store (.fixed record) (.struct other) →
        (store.at other).name = (store.at id).name → other = id) :
    EndsLike (record.fields.map (·.name))
      (compileNodes options store [] (record.fields.map (·.type)))
      (compileNode options store [] [] (.fixed record)) := by
  apply (session_endsLike_or_overlooks options store bare distinct).resolve_right
  intro overlooks
  obtain ⟨-, -, name, -, -, -, -, -, refused⟩ := overlooks
  have fails : compile options store (.fixed record) = .error (.schema ⟨name, .sharedName⟩) := by
    unfold compile
    rw [compileNode_fixed, refused]
    rfl
  rcases compile_ends options real with ⟨compiled, succeeds⟩ | ⟨error, failsSo, flaw⟩
  · rw [fails] at succeeds
    cases succeeds
  · rw [fails] at failsSo
    cases failsSo
    cases flaw with
    | shared reached otherReached different sameName =>
        exact different (unshared _ _ reached otherReached sameName)

/-- Two structs of one name with different fields. -/
def twins : Store :=
  [⟨"Probe", none, [⟨"port", .scalar .int, true, none, none⟩], none⟩,
    ⟨"Probe", none, [⟨"host", .scalar .string, true, none, none⟩], none⟩]

/-- A record of two structs. -/
def pair (first second : StructId) : FixedRecord :=
  ⟨[⟨"first", .struct first, true, none, none⟩, ⟨"second", .struct second, true, none, none⟩], none,
    none, none⟩

/-- A session over one struct twice ends as the pass does: the second call refers to the definition
that the first left. -/
theorem session_of_one_struct :
    ((∀ field ∈ (pair 0 0).fields, IsBare field) ∧
        (typeKey :: (pair 0 0).fields.map (·.name)).Nodup) ∧
      EndsLike ["first", "second"]
        (compileNodes Options.defaults twins [] [.struct 0, .struct 0])
        (compileNode Options.defaults twins [] [] (.fixed (pair 0 0))) := by
  have bare : ∀ field ∈ (pair 0 0).fields, IsBare field := by simp [pair, IsBare]
  have distinct : (typeKey :: (pair 0 0).fields.map (·.name)).Nodup := by decide
  refine ⟨⟨bare, distinct⟩, ?_⟩
  apply (session_endsLike_pass_iff Options.defaults twins bare distinct).mpr
  rintro ⟨_, _, _, _, name, -, -, -, refused⟩
  cases refused

/-- A session over two structs of one name ends unlike the pass, which refuses the second: the call
takes it for the first and refers to that. -/
theorem session_of_twins :
    ¬EndsLike ["first", "second"]
        (compileNodes Options.defaults twins [] [.struct 0, .struct 1])
        (compileNode Options.defaults twins [] [] (.fixed (pair 0 1))) := by
  intro endsLike
  have refused := (endsLike.failure (.schema ⟨"Probe", .sharedName⟩)).mpr rfl
  cases refused

end TypedReply
