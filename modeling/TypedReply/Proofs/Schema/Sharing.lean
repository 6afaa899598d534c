import TypedReply.Proofs.Schema.Pass
import Mathlib.Data.List.Perm.Subperm

/-!
# Shared structs

A pass compiles a struct where it meets it first and refers to it from then on. While it does, every
node that it hands out for a struct is the struct's definition or a reference to it, and a struct
without a definition is one that is being compiled. A fresh pass therefore leaves a table in which
every reference leads to the body of the struct it stands for.
-/

namespace TypedReply

theorem Store.name_at_mem (store : Store) (id : StructId) :
    (store.at id).name ∈ "" :: store.map (·.name) := by
  simp only [Store.at, List.getD_eq_getElem?_getD]
  cases found : store[id]? with
  | none => exact List.mem_cons_self
  | some struct =>
      exact List.mem_cons_of_mem _ (List.mem_map_of_mem (List.mem_of_getElem? found))

namespace Compile

/-- A node stands for a struct that the pass met: it refers to it by name, or is its definition. -/
def StandsFor (options : Options) (store : Store) (pass : Pass) (id : StructId)
    (node : Value) : Prop :=
  pass.structs.lookup (store.at id).name = some id ∧
    (node = refNode options (store.at id).name ∨
      pass.definitions.get? (store.at id).name = some node)

/-- What is true of a pass while the structs of some names are being compiled. -/
structure Consistent (options : Options) (store : Store) (visited : List String)
    (pass : Pass) : Prop where
  named : ∀ name id, pass.structs.lookup name = some id → (store.at id).name = name
  opened : ∀ name ∈ visited, ∃ id, pass.structs.lookup name = some id
  settled : ∀ name id, pass.structs.lookup name = some id →
    name ∈ visited ∨ (pass.definitions.get? name).isSome = true
  bodies : ∀ name node, pass.definitions.get? name = some node →
    ∃ id fields, pass.structs.lookup name = some id ∧
      RendersFields (StandsFor options store pass) (store.at id).fields fields ∧
        node = structNode options (store.at id) fields

/-- A pass goes on: what is known stays known, and the structs that are being compiled do not get
their definitions. -/
structure LeadsTo (visited : List String) (before after : Pass) : Prop where
  structs : ∀ name id, before.structs.lookup name = some id → after.structs.lookup name = some id
  definitions : ∀ name node, before.definitions.get? name = some node →
    after.definitions.get? name = some node
  unfinished : ∀ name ∈ visited, after.definitions.get? name = before.definitions.get? name

variable {options : Options} {store : Store} {visited : List String} {before after : Pass}

theorem StandsFor.mono (leads : LeadsTo visited before after) (id : StructId) (node : Value)
    (stands : StandsFor options store before id node) : StandsFor options store after id node :=
  ⟨leads.structs _ _ stands.1, stands.2.imp_right (leads.definitions _ _)⟩

theorem LeadsTo.refl (pass : Pass) : LeadsTo visited pass pass :=
  ⟨fun _ _ known => known, fun _ _ defined => defined, fun _ _ => rfl⟩

theorem LeadsTo.trans {first second third : Pass} (leads : LeadsTo visited first second)
    (leadsOn : LeadsTo visited second third) : LeadsTo visited first third where
  structs name id known := leadsOn.structs name id (leads.structs name id known)
  definitions name node defined := leadsOn.definitions name node (leads.definitions name node defined)
  unfinished name isVisited :=
    (leadsOn.unfinished name isVisited).trans (leads.unfinished name isVisited)

theorem LeadsTo.mono {fewer : List String} (leads : LeadsTo visited before after)
    (subset : fewer ⊆ visited) : LeadsTo fewer before after :=
  ⟨leads.structs, leads.definitions, fun name member => leads.unfinished name (subset member)⟩

/-- Going into a struct that is unknown or known by its name leads on. -/
theorem LeadsTo.opening {name : String} {id : StructId}
    (own : ∀ other, before.structs.lookup name = some other → other = id) :
    LeadsTo visited before { before with structs := (name, id) :: before.structs } where
  structs other found known := by
    by_cases same : other = name
    · subst same
      simp [own found known]
    · have unequal : (other == name) = false := by simpa using same
      simp [List.lookup_cons, unequal, known]
  definitions _ _ defined := defined
  unfinished _ _ := rfl

/-- A struct that is gone into is known and not yet defined. -/
theorem Consistent.opening (consistent : Consistent options store visited before) {id : StructId}
    (own : ∀ other, before.structs.lookup (store.at id).name = some other → other = id) :
    Consistent options store ((store.at id).name :: visited)
      { before with structs := ((store.at id).name, id) :: before.structs } where
  named name found known := by
    by_cases same : name = (store.at id).name
    · subst same
      simp only [List.lookup_cons_self, Option.some.injEq] at known
      rw [known]
    · have unequal : (name == (store.at id).name) = false := by simpa using same
      simp only [List.lookup_cons, unequal] at known
      exact consistent.named name found known
  opened name isVisited := by
    rcases List.mem_cons.mp isVisited with rfl | isVisited
    · exact ⟨id, by simp⟩
    · obtain ⟨found, known⟩ := consistent.opened name isVisited
      have leads : LeadsTo visited before _ := .opening own
      exact ⟨found, leads.structs name found known⟩
  settled name found known := by
    by_cases same : name = (store.at id).name
    · exact .inl (by simp [same])
    · have unequal : (name == (store.at id).name) = false := by simpa using same
      simp only [List.lookup_cons, unequal] at known
      exact (consistent.settled name found known).imp_left (List.mem_cons_of_mem _)
  bodies name node defined := by
    have leads : LeadsTo visited before _ := .opening own
    obtain ⟨found, fields, known, renders, isNode⟩ := consistent.bodies name node defined
    exact ⟨found, fields, leads.structs _ _ known, renders.mono (StandsFor.mono leads), isNode⟩

/-- Defining a struct that has no definition leads on. -/
theorem LeadsTo.closing {name : String} (node : Value) (notVisited : name ∉ visited)
    (undefined : before.definitions.get? name = none) :
    LeadsTo visited before { before with definitions := before.definitions.put name node } where
  structs _ _ known := known
  definitions other found defined := by
    have different : other ≠ name := by
      rintro rfl
      simp [undefined] at defined
    simpa [Fields.get?_put, different] using defined
  unfinished other isVisited := by
    have different : other ≠ name := by
      rintro rfl
      exact notVisited isVisited
    simp [Fields.get?_put, different]

/-- A struct that is defined by its body is no longer being compiled. -/
theorem Consistent.closing {id : StructId} {fields : Fields}
    (consistent : Consistent options store ((store.at id).name :: visited) before)
    (known : before.structs.lookup (store.at id).name = some id)
    (notVisited : (store.at id).name ∉ visited)
    (undefined : before.definitions.get? (store.at id).name = none)
    (renders : RendersFields (StandsFor options store before) (store.at id).fields fields) :
    Consistent options store visited
      { before with definitions :=
          before.definitions.put (store.at id).name (structNode options (store.at id) fields) } where
  named := consistent.named
  opened name isVisited := consistent.opened name (List.mem_cons_of_mem _ isVisited)
  settled name found isKnown := by
    by_cases same : name = (store.at id).name
    · exact .inr (by simp [same])
    · rcases consistent.settled name found isKnown with isVisited | defined
      · exact .inl ((List.mem_cons.mp isVisited).resolve_left same)
      · exact .inr (by simpa [Fields.get?_put, same] using defined)
  bodies name node defined := by
    have leads : LeadsTo visited before _ :=
      .closing (structNode options (store.at id) fields) notVisited undefined
    by_cases same : name = (store.at id).name
    · subst same
      simp only [Fields.get?_put_self, Option.some.injEq] at defined
      exact ⟨id, fields, known, renders.mono (StandsFor.mono leads), defined.symm⟩
    · simp only [Fields.get?_put, same, if_false] at defined
      obtain ⟨found, fields, isKnown, renders, isNode⟩ := consistent.bodies name node defined
      exact ⟨found, fields, isKnown, renders.mono (StandsFor.mono leads), isNode⟩

theorem Consistent.fresh (options : Options) (store : Store) :
    Consistent options store [] ⟨[], []⟩ := by
  constructor <;> simp

theorem not_exhausted (distinct : visited.Nodup) (named : visited ⊆ "" :: store.map (·.name))
    (enough : visited.length + 0 = store.length + 2) : False := by
  have few := (distinct.subperm named).length_le
  simp only [List.length_cons, List.length_map] at few
  omega

/-- While fuel is left for every name that is not being compiled, expanding a struct keeps a pass
consistent, and the node it hands out stands for the struct from then on. -/
theorem expands_shared (options : Options) (store : Store) (fuel : Nat) (visited : List String)
    (distinct : visited.Nodup) (named : visited ⊆ "" :: store.map (·.name))
    (enough : visited.length + fuel = store.length + 2) :
    Expands (struct options store fuel visited) (Consistent options store visited)
      (LeadsTo visited) (StandsFor options store) := by
  induction fuel generalizing visited with
  | zero => exact (not_exhausted distinct named enough).elim
  | succ fuel ih =>
      refine ⟨.refl, .trans, StandsFor.mono, ?_⟩
      intro id before node after consistent yields
      obtain ⟨own, ⟨met, rfl, rfl⟩ | ⟨notVisited, undefined, fields, between, run, isNode, rfl⟩⟩ :=
        struct_cases yields
      · refine ⟨consistent, .refl _, ?_, .inl rfl⟩
        obtain ⟨other, known⟩ : ∃ other, after.structs.lookup (store.at id).name = some other := by
          rcases met with isVisited | defined
          · exact consistent.opened _ isVisited
          · obtain ⟨body, defined⟩ := Option.isSome_iff_exists.mp defined
            obtain ⟨other, -, known, -⟩ := consistent.bodies _ _ defined
            exact ⟨other, known⟩
        rw [known, own other known]
      · have inside : Expands _ _ _ _ :=
          ih ((store.at id).name :: visited) (List.nodup_cons.mpr ⟨notVisited, distinct⟩)
            (List.cons_subset.mpr ⟨store.name_at_mem id, named⟩) (by simp; omega)
        obtain ⟨kept, leads, renders⟩ := inside.fieldNodes _ _ _ _ _ (consistent.opening own) run
        have known := leads.structs (store.at id).name id (by simp)
        have stillUndefined : between.definitions.get? (store.at id).name = none :=
          (leads.unfinished _ List.mem_cons_self).trans undefined
        subst isNode
        refine ⟨kept.closing known notVisited stillUndefined renders, ?_, known, .inr (by simp)⟩
        exact ((LeadsTo.opening own).trans (leads.mono (List.subset_cons_self _ _))).trans
          (.closing _ notVisited stillUndefined)

/-! ## Fresh passes -/

end Compile

def Pass.targets (pass : Pass) (options : Options) : Definitions :=
  ⟨options.refPrefix, pass.definitions.map fun (name, node) => (.str name, node)⟩

theorem Pass.get?_targets (pass : Pass) (options : Options) (name : String) :
    (pass.targets options).nodes.get? name = pass.definitions.get? name :=
  Value.get?_ofFields pass.definitions name

namespace Compile

/-- A fresh pass that succeeds yields the compiled schema and leaves its definitions. -/
theorem exists_pass_of_compile {target : Descriptor} {compiled : Compiled}
    (compiles : compile options store target = .ok compiled) :
    ∃ pass, Yields (descriptor options store [] target) ⟨[], []⟩ compiled.schema pass ∧
      compiled = ⟨compiled.schema, Value.entriesOf pass.definitions, options.defsKey⟩ := by
  unfold compile compileNode at compiles
  rcases run : (descriptor options store [] target).run ⟨[], []⟩ with ⟨failure | schema, pass⟩
  · rw [run] at compiles
    cases compiles
  · rw [run] at compiles
    cases compiles
    exact ⟨pass, run, rfl⟩

/-- A fresh pass that succeeds leaves a consistent table, to which the references of the compiled
schema lead. -/
theorem compile_cases {target : Descriptor} {compiled : Compiled}
    (compiles : compile options store target = .ok compiled) :
    ∃ pass, Consistent options store [] pass ∧
      Renders (StandsFor options store pass) target compiled.schema ∧
        compiled.targets = pass.targets options := by
  obtain ⟨pass, run, isCompiled⟩ := exists_pass_of_compile compiles
  have known := expands_shared options store (store.length + 2) [] List.nodup_nil
    (List.nil_subset _) (by simp)
  obtain ⟨consistent, -, renders⟩ := known.node target _ _ pass (.fresh options store) run
  exact ⟨pass, consistent, renders, by rw [isCompiled]; rfl⟩

/-- When a pass is done, a struct that it met is defined by its body. -/
theorem Consistent.exists_definition {pass : Pass} (consistent : Consistent options store [] pass)
    {id : StructId} (known : pass.structs.lookup (store.at id).name = some id) :
    ∃ fields, RendersFields (StandsFor options store pass) (store.at id).fields fields ∧
      pass.definitions.get? (store.at id).name = some (structNode options (store.at id) fields) := by
  obtain ⟨body, defined⟩ : ∃ body, pass.definitions.get? (store.at id).name = some body := by
    have settled := (consistent.settled _ id known).resolve_left (List.not_mem_nil)
    exact Option.isSome_iff_exists.mp settled
  obtain ⟨other, fields, isKnown, renders, rfl⟩ := consistent.bodies _ body defined
  obtain rfl : other = id := Option.some.inj (isKnown.symm.trans known)
  exact ⟨fields, renders, defined⟩

/-- Sharing is transparent: what stands for a struct, whether a reference or a definition in place,
admits what the struct's body admits. -/
theorem exists_body {pass : Pass} (consistent : Consistent options store [] pass) {id : StructId}
    {node : Value} (stands : StandsFor options store pass id node) :
    ∃ fields, RendersFields (StandsFor options store pass) (store.at id).fields fields ∧
      ∀ value, Validates (pass.targets options) node value ↔
        Validates (pass.targets options) (structNode options (store.at id) fields) value := by
  obtain ⟨known, reference⟩ := stands
  obtain ⟨fields, renders, defined⟩ := consistent.exists_definition known
  refine ⟨fields, renders, fun value => ?_⟩
  rcases reference with rfl | inPlace
  · have leads := (pass.get?_targets options (store.at id).name).trans defined
    rw [Pass.targets, validates_refNode]
    constructor
    · rintro ⟨target, found, valid⟩
      rwa [Option.some.inj (found.symm.trans leads)] at valid
    · exact fun valid => ⟨_, leads, valid⟩
  · rw [defined] at inPlace
    rw [Option.some.inj inPlace]

end Compile

end TypedReply
