import TypedReply.Proofs.Schema.Progress

/-!
# Abandoned structs

A call that fails leaves the definitions that it made before. A struct inside of it may be finished
while the struct around it is not, and refers to that one by name. If the struct around it fails, the
reference leads nowhere: the mark of the struct is taken off, but the definitions that count on it
stay. This is the only way in which a reference comes to dangle. In every session of calls, be they
successful or not, a reference resolves, or a call that failed gave up the struct that it names, which
lies on a cycle and reaches what the call failed for.
-/

namespace TypedReply

namespace Descriptor

/-- A descriptor that reaches itself by at least one step. -/
def IsCyclic (store : Store) (descriptor : Descriptor) : Prop :=
  Relation.TransGen (Part store) descriptor descriptor

/-- A descriptor that a target reaches cannot be compiled with the target: it reaches a record with a
field named like the tag, a struct of which the target reaches a namesake, or no descriptor. -/
inductive Breaks (store : Store) (target descriptor : Descriptor) : Failure → Prop where
  | reserved {found : Descriptor} {record : RecordView} (reached : Reaches store descriptor found)
      (isRecord : found.record? store = some record)
      (declared : typeKey ∈ record.fields.map (·.name)) :
      Breaks store target descriptor (.schema ⟨record.kind, .reservedField⟩)
  | shared {id other : StructId} (reached : Reaches store descriptor (.struct id))
      (otherReached : Reaches store target (.struct other)) (different : other ≠ id)
      (sameName : (store.at other).name = (store.at id).name) :
      Breaks store target descriptor (.schema ⟨(store.at id).name, .sharedName⟩)
  | stray {value : Value} (reached : Reaches store descriptor (.stray value)) :
      Breaks store target descriptor (.fault (.notDescriptor value))

/-- What a part is broken for breaks the whole. -/
theorem Breaks.of_reaches {store : Store} {target whole part : Descriptor} {failure : Failure}
    (breaks : Breaks store target part failure) (reaches : Reaches store whole part) :
    Breaks store target whole failure := by
  cases breaks with
  | reserved reached isRecord declared => exact .reserved (reaches.trans reached) isRecord declared
  | shared reached otherReached different sameName =>
      exact .shared (reaches.trans reached) otherReached different sameName
  | stray reached => exact .stray (reaches.trans reached)

end Descriptor

namespace Compile

variable {options : Options} {store : Store} {target : Descriptor}

/-! ## Nodes with known references -/

/-- A compiled node all of whose references are known. -/
structure Refers (known : Value → Prop) (node : Value) : Prop where
  compiled : IsCompiled node
  references : ∀ reference ∈ node.references, known reference

namespace Refers

variable {known : Value → Prop} {inner : Value}

theorem mono {more : Value → Prop} (refers : Refers known inner)
    (implies : ∀ reference, known reference → more reference) : Refers more inner :=
  ⟨refers.compiled, fun _ isReference => implies _ (refers.references _ isReference)⟩

theorem of_nil (compiled : IsCompiled inner) (none : inner.references = []) :
    Refers known inner := by
  refine ⟨compiled, ?_⟩
  rw [none]
  exact List.forall_mem_nil _

theorem array (refers : Refers known inner) :
    Refers known (Fields.node [("type", .str "array"), ("items", inner)]) := by
  refine ⟨isCompiled_arrayNode inner, ?_⟩
  rw [Value.references, marks_arrayNode isMark_reference]
  exact refers.references

theorem map (key : Value) (refers : Refers known inner) : Refers known (mapNode key inner) := by
  refine ⟨isCompiled_mapNode key inner, ?_⟩
  rw [Value.references, marks_mapNode isMark_reference]
  exact refers.references

theorem nullable (refers : Refers known inner) : Refers known (Compile.nullable inner) := by
  refine ⟨isCompiled_nullable refers.compiled, ?_⟩
  rw [Value.references, marks_nullable isMark_reference refers.compiled]
  exact refers.references

theorem field (refers : Refers known inner) (required : Bool) (description : Option String) :
    ∀ reference ∈ (fieldNode required description inner).references, known reference := by
  rw [Value.references, marks_fieldNode isMark_reference refers.compiled]
  exact refers.references

theorem union {nodes : List Value} (refers : ∀ node ∈ nodes, Refers known node) (nilable : Bool) :
    Refers known (unionNode nilable nodes) := by
  have compiled : ∀ node ∈ nodes, IsCompiled node := fun node isNode => (refers node isNode).compiled
  refine ⟨isCompiled_unionNode compiled nilable, ?_⟩
  rw [Value.references, marks_unionNode isMark_reference compiled]
  intro reference isReference
  obtain ⟨node, isNode, isReference⟩ := List.mem_flatMap.mp isReference
  exact (refers node isNode).references reference isReference

theorem record {fields : Fields}
    (refers : ∀ field ∈ fields, ∀ reference ∈ field.2.references, known reference)
    (name description : Option String) (names : List String) :
    Refers known (recordNode name description names fields) := by
  refine ⟨isCompiled_recordNode name description names fields, ?_⟩
  intro reference isReference
  cases mem_marks_recordNode isMark_reference name description names isReference with
  | inl isOwn =>
      rw [get?_ref_recordNode] at isOwn
      cases isOwn
  | inr isInner =>
      obtain ⟨field, isField, isReference⟩ := isInner
      exact refers field isField reference isReference

theorem struct {fields : Fields}
    (refers : ∀ field ∈ fields, ∀ reference ∈ field.2.references, known reference)
    (options : Options) (struct : Struct) : Refers known (structNode options struct fields) := by
  refine ⟨isCompiled_structNode options struct fields, ?_⟩
  intro reference isReference
  cases mem_marks_structNode isMark_reference options struct isReference with
  | inl isOwn =>
      rw [get?_ref_structNode] at isOwn
      cases isOwn
  | inr isInner =>
      obtain ⟨field, isField, isReference⟩ := isInner
      exact refers field isField reference isReference

theorem ref {name : String} (isKnown : known (.str (options.refPrefix ++ name))) :
    Refers known (refNode options name) := by
  refine ⟨isCompiled_refNode options name, ?_⟩
  rw [Value.references, marks_refNode]
  intro reference isReference
  obtain rfl : reference = Value.str (options.refPrefix ++ name) := by
    simpa [refNode, Fields.get?_cons] using isReference
  exact isKnown

end Refers

/-! ## References along a call -/

/-- A reference is accounted for in a pass: the call found it, or it names a struct that is defined or
that the pass met on a cycle. -/
def IsAccounted (options : Options) (store : Store) (found : Value → Prop) (pass : Pass)
    (reference : Value) : Prop :=
  found reference ∨ ∃ name, reference = .str (options.refPrefix ++ name) ∧
    ((pass.definitions.get? name).isSome = true ∨
      ∃ id, pass.structs.lookup name = some id ∧ Descriptor.IsCyclic store (.struct id))

variable {found : Value → Prop} {visited : List String}

theorem IsAccounted.mono {before after : Pass} (leads : LeadsTo visited before after)
    {reference : Value}
    (accounted : IsAccounted options store found before reference) :
    IsAccounted options store found after reference := by
  apply accounted.imp_right
  intro named
  obtain ⟨name, isName, resolves⟩ := named
  refine ⟨name, isName, ?_⟩
  cases resolves with
  | inl defined =>
      obtain ⟨node, defined⟩ := Option.isSome_iff_exists.mp defined
      exact .inl (Option.isSome_of_eq_some (leads.definitions name node defined))
  | inr met =>
      obtain ⟨id, known, cyclic⟩ := met
      exact .inr ⟨id, leads.structs name id known, cyclic⟩

theorem Refers.leads {before after : Pass} {node : Value} (leads : LeadsTo visited before after)
    (refers : Refers (IsAccounted options store found before) node) :
    Refers (IsAccounted options store found after) node :=
  refers.mono fun _ accounted => accounted.mono leads

section Nodes

variable {expand : StructId → Action Value} {kept : Pass → Prop} {failed : Failure → Pass → Prop}
variable {start : Descriptor}

/-- An operation inside of structs of some names keeps what is known of a pass and accounts for the
references of its nodes, or it fails as it may. -/
def Accounts {α : Type} (options : Options) (store : Store) (found : Value → Prop)
    (visited : List String) (kept : Pass → Prop) (failed : Failure → Pass → Prop) (action : Action α)
    (refers : (Value → Prop) → α → Prop) : Prop :=
  ∀ before, kept before → Leaves action before
    (fun result after => kept after ∧ LeadsTo visited before after ∧
      refers (IsAccounted options store found after) result) failed

theorem accounts_pure {α : Type} {refers : (Value → Prop) → α → Prop} {value : α}
    (each : ∀ known, refers known value) :
    Accounts options store found visited kept failed (pure value) refers :=
  fun before holds => ⟨holds, .refl before, each _⟩

/-- What is made of one node refers to what the node refers to. -/
theorem Accounts.image {α β : Type} {action : Action α} {refers : (Value → Prop) → α → Prop}
    {implied : (Value → Prop) → β → Prop} {image : α → β}
    (accounts : Accounts options store found visited kept failed action refers)
    (each : ∀ known result, refers known result → implied known (image result)) :
    Accounts options store found visited kept failed (do return image (← action)) implied := by
  intro before holds
  rw [leaves_bind]
  apply (accounts before holds).imp
  · intro result after done
    exact ⟨done.1, done.2.1, each _ _ done.2.2⟩
  · exact fun _ _ fails => fails

/-- What is made of two results, of which the second is found after the first. -/
theorem Accounts.image₂ {α β γ : Type} {action : Action α} {next : Action β}
    {refers : (Value → Prop) → α → Prop} {follows : (Value → Prop) → β → Prop}
    {implied : (Value → Prop) → γ → Prop} {image : α → β → γ}
    (accounts : Accounts options store found visited kept failed action refers)
    (rest : Accounts options store found visited kept failed next follows)
    (leads : ∀ {before after result}, LeadsTo visited before after →
      refers (IsAccounted options store found before) result →
        refers (IsAccounted options store found after) result)
    (each : ∀ known first second, refers known first → follows known second →
      implied known (image first second)) :
    Accounts options store found visited kept failed
      (do
        let first ← action
        return image first (← next)) implied := by
  intro before holds
  rw [leaves_bind]
  apply (accounts before holds).imp
  · intro first between begins
    rw [leaves_bind]
    apply (rest between begins.1).imp
    · intro second after ends
      have first := leads ends.2.1 begins.2.2
      exact ⟨ends.1, begins.2.1.trans ends.2.1, each _ _ _ first ends.2.2⟩
    · exact fun _ _ fails => fails
  · exact fun _ _ fails => fails

def RefersAll (known : Value → Prop) (nodes : List Value) : Prop := ∀ node ∈ nodes, Refers known node

/-- The references of the nodes of fields are known. -/
def RefersFields (known : Value → Prop) (fields : Fields) : Prop :=
  ∀ field ∈ fields, ∀ reference ∈ field.2.references, known reference

theorem accounts_memberNodes {members : List Descriptor}
    (each : ∀ member ∈ members,
      Accounts options store found visited kept failed (node expand member) Refers) :
    Accounts options store found visited kept failed (memberNodes expand members) RefersAll := by
  induction members with
  | nil =>
      rw [memberNodes]
      exact accounts_pure fun _ => List.forall_mem_nil _
  | cons member members ih =>
      have rest := ih fun other isOther => each other (List.mem_cons_of_mem _ isOther)
      cases isNull : member.isNull with
      | true =>
          obtain rfl := Descriptor.eq_null_of_isNull isNull
          rw [memberNodes]
          exact rest
      | false =>
          rw [memberNodes_cons expand isNull]
          apply (each member List.mem_cons_self).image₂ rest Refers.leads
          intro known first others refers follows
          exact List.forall_mem_cons.mpr ⟨refers, follows⟩

theorem accounts_fieldNodes (owner : String) {fields : List Field}
    (reserved : typeKey ∈ fields.map (·.name) → ∀ before, kept before →
      failed (.schema ⟨owner, .reservedField⟩) before)
    (each : ∀ field ∈ fields,
      Accounts options store found visited kept failed (node expand field.type) Refers) :
    Accounts options store found visited kept failed (fieldNodes expand owner fields) RefersFields := by
  induction fields with
  | nil =>
      rw [fieldNodes]
      exact accounts_pure fun _ => List.forall_mem_nil _
  | cons field fields ih =>
      have first := each field List.mem_cons_self
      have rest := ih (fun isReserved => reserved (List.mem_cons_of_mem _ isReserved))
        fun other isOther => each other (List.mem_cons_of_mem _ isOther)
      obtain ⟨name, type, required, description, default⟩ := field
      by_cases isReserved : name = typeKey
      · intro before holds
        simp only [fieldNodes, isReserved, if_true, leaves_bind, leaves_throw]
        exact reserved (by simp [isReserved]) before holds
      · simp only [fieldNodes, isReserved, if_false]
        apply first.image₂ rest Refers.leads
        intro known inner others refers follows
        exact List.forall_mem_cons.mpr ⟨refers.field required description, follows⟩

/-- The run of a descriptor that is reached accounts for the references of its node where the
expansions of structs do, and fails as they, records and strays that are reached do. -/
theorem accounts_node
    (expands : ∀ id, Descriptor.Reaches store start (.struct id) →
      Accounts options store found visited kept failed (expand id) Refers)
    (reserved : ∀ descriptor record, Descriptor.Reaches store start descriptor →
      descriptor.record? store = some record → typeKey ∈ record.fields.map (·.name) →
        ∀ before, kept before → failed (.schema ⟨record.kind, .reservedField⟩) before)
    (strays : ∀ value, Descriptor.Reaches store start (.stray value) →
      ∀ before, kept before → failed (.fault (.notDescriptor value)) before)
    (descriptor : Descriptor) (reached : Descriptor.Reaches store start descriptor) :
    Accounts options store found visited kept failed (node expand descriptor) Refers := by
  induction descriptor using Descriptor.induction with
  | scalar kind =>
      rw [node]
      exact accounts_pure fun _ =>
        .of_nil (isCompiled_scalarNode kind) (marks_scalarNode isMark_reference kind)
  | enum type =>
      rw [node]
      exact accounts_pure fun _ =>
        .of_nil (isCompiled_enumNode type) (marks_enumNode isMark_reference type)
  | array element ih =>
      rw [node]
      exact (ih (reached.tail (.element element))).image fun _ _ refers => refers.array
  | map key value keyIH valueIH =>
      rw [node]
      apply (keyIH (reached.tail (.key key value))).image₂ (valueIH (reached.tail (.value key value)))
        Refers.leads
      exact fun _ keyNode _ _ refers => refers.map keyNode
  | optional inner ih =>
      rw [node]
      exact (ih (reached.tail (.inner inner))).image fun _ _ refers => refers.nullable
  | union members ih =>
      rw [node]
      have members := accounts_memberNodes fun member isMember =>
        ih member isMember (reached.tail (.member isMember))
      exact members.image fun _ _ refers => .union refers _
  | null =>
      rw [node]
      exact accounts_pure fun _ => .of_nil isCompiled_nullNode (marks_nullNode isMark_reference)
  | fixed record ih =>
      have compiled := accounts_fieldNodes record.kind
        (fun declared => reserved _ _ reached rfl declared)
        fun field isField => ih field isField (reached.tail (.field isField))
      cases record
      rw [node]
      exact compiled.image fun _ _ refers => .record refers _ _ _
  | struct id =>
      rw [node]
      exact expands id reached
  | stray value =>
      rw [node]
      exact strays value reached

end Nodes

/-! ## Structs in progress -/

def namesOf (store : Store) (inside : List StructId) : List String :=
  inside.map fun id => (store.at id).name

/-- What is true of a pass inside of some structs: it met structs that the target reaches, each of which
is one of them or defined, and the references of its definitions are accounted for. -/
structure Underway (options : Options) (store : Store) (target : Descriptor) (found : Value → Prop)
    (inside : List StructId) (pass : Pass) : Prop where
  met : Met store target pass
  opened : ∀ id ∈ inside, pass.structs.lookup (store.at id).name = some id
  settled : ∀ name id, pass.structs.lookup name = some id →
    id ∈ inside ∨ (pass.definitions.get? name).isSome = true
  accounted : ∀ entry ∈ pass.definitions, ∀ reference ∈ entry.2.references,
    IsAccounted options store found pass reference

/-- What is true of a pass that failed inside of some structs: a struct that it met and that is neither
one of them nor defined was given up. -/
structure Halted (options : Options) (store : Store) (target : Descriptor) (found : Value → Prop)
    (inside : List StructId) (failure : Failure) (pass : Pass) : Prop where
  met : Met store target pass
  settled : ∀ name id, pass.structs.lookup name = some id →
    id ∈ inside ∨ (pass.definitions.get? name).isSome = true ∨
      target.Breaks store (.struct id) failure
  accounted : ∀ entry ∈ pass.definitions, ∀ reference ∈ entry.2.references,
    IsAccounted options store found pass reference

variable {inside : List StructId} {pass : Pass} {failure : Failure}

theorem Underway.halted (underway : Underway options store target found inside pass)
    (failure : Failure) : Halted options store target found inside failure pass where
  met := underway.met
  settled name id known := (underway.settled name id known).imp_right .inl
  accounted := underway.accounted

/-- A struct that is entered is in progress. -/
theorem Underway.opening (underway : Underway options store target found inside pass) {id : StructId}
    (reached : Descriptor.Reaches store target (.struct id))
    (own : ∀ other, pass.structs.lookup (store.at id).name = some other → other = id) :
    Underway options store target found (id :: inside)
      { pass with structs := ((store.at id).name, id) :: pass.structs } where
  met := underway.met.opening reached
  opened other isInside := by
    have leads : LeadsTo [] pass _ := .opening own
    cases List.mem_cons.mp isInside with
    | inl isSame =>
        subst isSame
        exact List.lookup_cons_self
    | inr isInside => exact leads.structs _ _ (underway.opened other isInside)
  settled name other known := by
    by_cases same : name = (store.at id).name
    · subst same
      obtain rfl : id = other := by simpa using known
      exact .inl List.mem_cons_self
    · have unequal : (name == (store.at id).name) = false := by simpa using same
      simp only [List.lookup_cons, unequal] at known
      exact (underway.settled name other known).imp_left (List.mem_cons_of_mem _)
  accounted entry isEntry reference isReference := by
    have leads : LeadsTo [] pass _ := .opening own
    exact (underway.accounted entry isEntry reference isReference).mono leads

/-- A struct that is defined is no longer in progress. -/
theorem Underway.closing {id : StructId} {fields : Fields}
    (underway : Underway options store target found (id :: inside) pass)
    (undefined : pass.definitions.get? (store.at id).name = none)
    (refers : RefersFields (IsAccounted options store found pass) fields) :
    Underway options store target found inside
      { pass with definitions :=
          pass.definitions.put (store.at id).name (structNode options (store.at id) fields) } where
  met := underway.met
  opened other isInside := underway.opened other (List.mem_cons_of_mem _ isInside)
  settled name other known := by
    by_cases same : name = (store.at id).name
    · right
      rw [same, Fields.get?_put_self]
      rfl
    · rw [Fields.get?_put, if_neg same]
      cases underway.settled name other known with
      | inl isInside =>
          left
          cases List.mem_cons.mp isInside with
          | inl isSame =>
              subst isSame
              exact (same (underway.met name other known).2.symm).elim
          | inr isInside => exact isInside
      | inr defined => exact .inr defined
  accounted entry isEntry reference isReference := by
    have leads : LeadsTo [] pass _ :=
      .closing (structNode options (store.at id) fields) List.not_mem_nil undefined
    apply IsAccounted.mono leads
    cases Fields.mem_or_eq_of_mem_put isEntry with
    | inl isOld => exact underway.accounted entry isOld reference isReference
    | inr isNew =>
        subst isNew
        exact (Refers.struct refers options (store.at id)).references reference isReference

/-- A struct whose fields fail is given up for what they failed for. -/
theorem Halted.closing {id : StructId}
    (halted : Halted options store target found (id :: inside) failure pass)
    (breaks : target.Breaks store (.struct id) failure) :
    Halted options store target found inside failure pass where
  met := halted.met
  settled name other known := by
    cases halted.settled name other known with
    | inl isInside =>
        cases List.mem_cons.mp isInside with
        | inl isSame =>
            subst isSame
            exact .inr (.inr breaks)
        | inr isInside => exact .inl isInside
    | inr settled => exact .inr settled
  accounted := halted.accounted

/-- How an operation inside of some structs may fail. -/
def Fails (options : Options) (store : Store) (target : Descriptor) (found : Value → Prop)
    (inside : List StructId) (descriptor : Descriptor) (failure : Failure) (pass : Pass) : Prop :=
  Halted options store target found inside failure pass ∧ target.Breaks store descriptor failure

theorem Accounts.imp {α : Type} {kept : Pass → Prop} {failed implied : Failure → Pass → Prop}
    {action : Action α} {refers : (Value → Prop) → α → Prop}
    (accounts : Accounts options store found visited kept failed action refers)
    (implies : ∀ failure pass, failed failure pass → implied failure pass) :
    Accounts options store found visited kept implied action refers :=
  fun before holds => (accounts before holds).imp (fun _ _ done => done) implies

/-- The run of a descriptor inside of some structs accounts for the references of its node, if the
expansions of the structs that it reaches do. -/
theorem accounts_node_inside {expand : StructId → Action Value} (descriptor : Descriptor)
    (expands : ∀ id, Descriptor.Reaches store descriptor (.struct id) →
      Accounts options store found (namesOf store inside)
      (Underway options store target found inside)
        (Fails options store target found inside (.struct id)) (expand id) Refers) :
    Accounts options store found (namesOf store inside)
      (Underway options store target found inside)
      (Fails options store target found inside descriptor) (node expand descriptor) Refers := by
  refine accounts_node ?expands ?reserved ?strays descriptor .refl
  case expands =>
    intro id reaches
    apply (expands id reaches).imp
    intro failure pass fails
    exact ⟨fails.1, fails.2.of_reaches reaches⟩
  case reserved =>
    intro found record reaches isRecord declared before underway
    exact ⟨underway.halted _, .reserved reaches isRecord declared⟩
  case strays =>
    intro value reaches before underway
    exact ⟨underway.halted _, .stray reaches⟩

/-- The run of the fields of a struct in progress accounts for the references of their nodes, if the
expansions of the structs below it do. -/
theorem accounts_structFields {expand : StructId → Action Value} (id : StructId)
    (expands : ∀ other, Relation.TransGen (Descriptor.Part store) (.struct id) (.struct other) →
      Accounts options store found (namesOf store (id :: inside))
        (Underway options store target found (id :: inside))
        (Fails options store target found (id :: inside) (.struct other)) (expand other) Refers) :
    Accounts options store found (namesOf store (id :: inside))
      (Underway options store target found (id :: inside))
      (Fails options store target found (id :: inside) (.struct id))
      (fieldNodes expand (store.at id).name (store.at id).fields) RefersFields := by
  apply accounts_fieldNodes
  · intro declared before underway
    exact ⟨underway.halted _,
      @Descriptor.Breaks.reserved store target (.struct id) (.struct id) _ .refl rfl declared⟩
  · intro field isField
    have isPart : Descriptor.Part store (.struct id) field.type := .field isField
    apply (accounts_node_inside field.type fun other reaches =>
      expands other (.head' isPart reaches)).imp
    intro failure pass fails
    exact ⟨fails.1, fails.2.of_reaches (.single isPart)⟩

/-- Expanding a struct that lies below all structs in progress accounts for the references of its node;
it fails only for what breaks the struct. A struct that is referred to while it is in progress lies on a
cycle. -/
theorem accounts_struct (options : Options) (store : Store) (target : Descriptor)
    (found : Value → Prop) (fuel : Nat) (inside : List StructId)
    (distinct : (namesOf store inside).Nodup)
    (enough : inside.length + fuel = store.length + 2) (id : StructId)
    (reached : Descriptor.Reaches store target (.struct id))
    (below : ∀ outer ∈ inside,
      Relation.TransGen (Descriptor.Part store) (.struct outer) (.struct id)) :
    Accounts options store found (namesOf store inside)
      (Underway options store target found inside)
      (Fails options store target found inside (.struct id))
      (struct options store fuel (namesOf store inside) id) Refers := by
  induction fuel generalizing inside id with
  | zero =>
      have named : namesOf store inside ⊆ "" :: store.map (·.name) := by
        intro name isName
        obtain ⟨outer, -, rfl⟩ := List.mem_map.mp isName
        exact store.name_at_mem outer
      rw [← List.length_map (f := fun id => (store.at id).name)] at enough
      exact (not_exhausted distinct named enough).elim
  | succ fuel ih =>
      intro before underway
      simp only [struct, leaves_bind, leaves_get]
      split
      next shared =>
        obtain ⟨other, known, different⟩ : ∃ other,
            before.structs.lookup (store.at id).name = some other ∧ other ≠ id := by
          simpa [Option.any_eq_true] using shared
        obtain ⟨otherReached, sameName⟩ := underway.met _ other known
        exact ⟨underway.halted _, .shared .refl otherReached different sameName⟩
      next own =>
        have own : ∀ other, before.structs.lookup (store.at id).name = some other → other = id :=
          fun other known => by simpa [known] using own
        split
        next known =>
          simp only [Bool.or_eq_true, List.contains_iff_mem] at known
          refine ⟨underway, .refl _, .ref (.inr ⟨_, rfl, ?_⟩)⟩
          cases known with
          | inl isMarked =>
              obtain ⟨outer, isInside, isName⟩ := List.mem_map.mp isMarked
              have opened := underway.opened outer isInside
              rw [isName] at opened
              obtain rfl := own outer opened
              exact .inr ⟨outer, opened, below outer isInside⟩
          | inr defined => exact .inl defined
        next unknown =>
          simp only [Bool.or_eq_true, not_or, List.contains_iff_mem, Option.not_isSome_iff_eq_none]
            at unknown
          have fields : Accounts options store found (namesOf store (id :: inside))
              (Underway options store target found (id :: inside))
              (Fails options store target found (id :: inside) (.struct id))
              (fieldNodes (struct options store fuel (namesOf store (id :: inside)))
                (store.at id).name (store.at id).fields) RefersFields := by
            apply accounts_structFields
            intro other leads
            apply ih (id :: inside)
            · exact List.nodup_cons.mpr ⟨unknown.1, distinct⟩
            · rw [List.length_cons]
              omega
            · exact reached.trans leads.to_reflTransGen
            · intro outer isInside
              cases List.mem_cons.mp isInside with
              | inl isSame =>
                  subst isSame
                  exact leads
              | inr isInside => exact (below outer isInside).trans leads
          have opened := underway.opening reached own
          simp only [leaves_set, leaves_bind, leaves_modify, leaves_pure]
          apply (fields _ opened).imp
          · intro compiled between done
            have leads : LeadsTo (namesOf store (id :: inside)) _ between := done.2.1
            have undefined : between.definitions.get? (store.at id).name = none :=
              (leads.unfinished _ List.mem_cons_self).trans unknown.2
            refine ⟨done.1.closing undefined done.2.2, ?_, ?_⟩
            · apply (LeadsTo.opening own).trans
              apply (leads.mono (List.subset_cons_self _ _)).trans
              exact .closing _ unknown.1 undefined
            · have closes : LeadsTo (namesOf store inside) between _ :=
                .closing (structNode options (store.at id) compiled) unknown.1 undefined
              exact (Refers.struct done.2.2 options (store.at id)).leads closes
          · intro failure after fails
            exact ⟨fails.1.closing fails.2, fails.2⟩

/-- What a call leaves that began beside given definitions. A reference of its definitions is one of
those that it found, or names a struct that is defined or that the call failed at. -/
theorem accounts_call (options : Options) (store : Store) (target : Descriptor)
    (definitions : Fields) {found : Value → Prop}
    (isFound : ∀ entry ∈ definitions, ∀ reference ∈ entry.2.references, found reference) :
    Leaves (descriptor options store [] target) ⟨definitions, []⟩
      (fun _ after => Underway options store target found [] after)
      (Fails options store target found [] target) := by
  have underway : Underway options store target found [] ⟨definitions, []⟩ := by
    constructor
    · intro name id known
      cases known
    · exact List.forall_mem_nil _
    · intro name id known
      cases known
    · exact fun entry isEntry reference isReference => .inl (isFound entry isEntry reference isReference)
  have accounts : Accounts options store found [] _ _ _ Refers :=
    accounts_node_inside target fun id reached =>
      accounts_struct options store target found (store.length + 2) [] List.nodup_nil
        (Nat.zero_add _) id reached (List.forall_mem_nil _)
  exact (accounts _ underway).imp (fun _ _ done => done.1) fun _ _ fails => fails

end Compile

/-! ## Sessions that go on after failures -/

/-- A call: what is compiled, and how. -/
structure Call where
  options : Options
  target : Descriptor

/-- How a call ends beside given definitions, and the definitions that it leaves. -/
def Call.run (store : Store) (definitions : Fields) (call : Call) : Outcome Value × Fields :=
  compileNode call.options store [] definitions call.target

/-- The definitions after calls in a row over one table, be they successful or not. -/
def definitionsAfter (store : Store) (calls : List Call) : Fields :=
  calls.foldl (fun definitions call => (call.run store definitions).2) []

/-- A call that fails beside given definitions gives up a struct of a name: its target reaches the
struct, which lies on a cycle and reaches what the call fails for. -/
structure Call.Abandons (store : Store) (definitions : Fields) (call : Call) (name : String)
    (id : StructId) (failure : Failure) : Prop where
  isName : (store.at id).name = name
  fails : (call.run store definitions).1 = .error failure
  reached : Descriptor.Reaches store call.target (.struct id)
  cyclic : Descriptor.IsCyclic store (.struct id)
  breaks : call.target.Breaks store (.struct id) failure

theorem definitionsAfter_concat (store : Store) (calls : List Call) (call : Call) :
    definitionsAfter store (calls ++ [call]) = (call.run store (definitionsAfter store calls)).2 := by
  rw [definitionsAfter, List.foldl_append]
  rfl

theorem Call.isSome_get?_run {store : Store} {definitions : Fields} (call : Call) {name : String}
    (defined : (definitions.get? name).isSome = true) :
    ((call.run store definitions).2.get? name).isSome = true := by
  have appends : Compile.Appends [] ⟨definitions, []⟩ _ :=
    Compile.holds_node (Compile.holdsAlong_extends [])
      (Compile.extends_struct call.options store (store.length + 2) []) call.target ⟨definitions, []⟩
  obtain ⟨added, isAfter, -⟩ := appends
  have isAfter : (call.run store definitions).2 = definitions ++ added := isAfter
  rw [isAfter, Fields.get?_append, Option.isSome_or, defined]
  rfl

/-- After a call, a reference that the call did not find names a struct that is defined, or one that the
call gave up. -/
theorem Call.accounted (store : Store) (definitions : Fields) (call : Call)
    (entry : String × Value) (isEntry : entry ∈ (call.run store definitions).2) (reference : Value)
    (isReference : reference ∈ entry.2.references) :
    (∃ entry ∈ definitions, reference ∈ entry.2.references) ∨
      ∃ name, reference = .str (call.options.refPrefix ++ name) ∧
        (((call.run store definitions).2.get? name).isSome = true ∨
          ∃ id failure, call.Abandons store definitions name id failure) := by
  have isFound : ∀ entry ∈ definitions, ∀ reference ∈ entry.2.references,
      ∃ entry ∈ definitions, reference ∈ entry.2.references :=
    fun entry isEntry _ isReference => ⟨entry, isEntry, isReference⟩
  have leaves := Compile.accounts_call call.options store call.target definitions isFound
  rcases ran : (Compile.descriptor call.options store [] call.target).run ⟨definitions, []⟩
    with ⟨failure | node, after⟩
  · have run : call.run store definitions = (.error failure, after.definitions) := by
      rw [Call.run, compileNode, ran]
    rw [Leaves, ran] at leaves
    obtain ⟨halted, -⟩ := leaves
    rw [run] at isEntry ⊢
    apply (halted.accounted entry isEntry reference isReference).imp_right
    intro named
    obtain ⟨name, isName, resolves⟩ := named
    refine ⟨name, isName, ?_⟩
    cases resolves with
    | inl defined => exact .inl defined
    | inr met =>
        obtain ⟨id, known, cyclic⟩ := met
        apply ((halted.settled name id known).resolve_left List.not_mem_nil).imp_right
        intro breaks
        obtain ⟨reached, isNamed⟩ := halted.met name id known
        exact ⟨id, failure, isNamed, by rw [run], reached, cyclic, breaks⟩
  · have run : call.run store definitions = (.ok node, after.definitions) := by
      rw [Call.run, compileNode, ran]
    rw [Leaves, ran] at leaves
    have underway : Compile.Underway _ _ _ _ _ after := leaves
    rw [run] at isEntry ⊢
    apply (underway.accounted entry isEntry reference isReference).imp_right
    intro named
    obtain ⟨name, isName, resolves⟩ := named
    refine ⟨name, isName, .inl ?_⟩
    cases resolves with
    | inl defined => exact defined
    | inr met =>
        obtain ⟨id, known, -⟩ := met
        exact (underway.settled name id known).resolve_left List.not_mem_nil

/-- After any calls in a row over one table that is empty at first, every reference of every definition
names a struct that is defined, or the call that made the reference failed and gave up the struct: one
that lies on a cycle and reaches what the call failed for. -/
theorem references_resolve_or_abandoned (store : Store) (calls : List Call)
    (entry : String × Value) (isEntry : entry ∈ definitionsAfter store calls) (reference : Value)
    (isReference : reference ∈ entry.2.references) :
    ∃ earlier call later name, calls = earlier ++ call :: later ∧
      reference = .str (call.options.refPrefix ++ name) ∧
        (((definitionsAfter store calls).get? name).isSome = true ∨
          ∃ id failure, call.Abandons store (definitionsAfter store earlier) name id failure) := by
  induction calls using List.reverseRecOn generalizing entry reference with
  | nil => cases isEntry
  | append_singleton calls call ih =>
      rw [definitionsAfter_concat] at isEntry ⊢
      cases call.accounted store _ entry isEntry reference isReference with
      | inl isOld =>
          obtain ⟨older, isOlder, isReference⟩ := isOld
          obtain ⟨earlier, maker, later, name, rfl, isName, resolves⟩ :=
            ih older isOlder reference isReference
          refine ⟨earlier, maker, later ++ [call], name, ?_, isName, ?_⟩
          · rw [List.append_assoc, List.cons_append]
          · exact resolves.imp_left call.isSome_get?_run
      | inr isNew =>
          obtain ⟨name, isName, resolves⟩ := isNew
          exact ⟨calls, call, [], name, rfl, isName, resolves⟩

/-- A page that may hold a link and has a field named like the tag, and a link that may lead to a
page. -/
def pages : Store :=
  [⟨"Page", none, [⟨"link", .optional (.struct 1), false, none, none⟩,
      ⟨typeKey, .scalar .string, true, none, none⟩], none⟩,
    ⟨"Link", none, [⟨"page", .optional (.struct 0), false, none, none⟩], none⟩]

def pageCall : Call := ⟨Options.defaults, .struct 0⟩

/-- The node of a link. -/
def linkNode : Value :=
  Compile.structNode Options.defaults (pages.at 1)
    [("page", Compile.nullable (Compile.refNode Options.defaults "Page"))]

theorem definitionsAfter_pageCall : definitionsAfter pages [pageCall] = [("Link", linkNode)] := rfl

theorem references_linkNode : linkNode.references = [.str "#/$defs/Page"] := rfl

/-- The link that the failed compilation of a page leaves refers to the page, which the call gave up. -/
theorem pages_abandoned :
    (("Link", linkNode) ∈ definitionsAfter pages [pageCall] ∧
        .str "#/$defs/Page" ∈ linkNode.references) ∧
      ∃ earlier call later name, [pageCall] = earlier ++ call :: later ∧
        .str "#/$defs/Page" = Value.str (call.options.refPrefix ++ name) ∧
          (((definitionsAfter pages [pageCall]).get? name).isSome = true ∨
            ∃ id failure, call.Abandons pages (definitionsAfter pages earlier) name id failure) := by
  have isEntry : ("Link", linkNode) ∈ definitionsAfter pages [pageCall] := by
    rw [definitionsAfter_pageCall]
    exact List.mem_cons_self
  have isReference : .str "#/$defs/Page" ∈ linkNode.references := by
    rw [references_linkNode]
    exact List.mem_cons_self
  exact ⟨⟨isEntry, isReference⟩,
    references_resolve_or_abandoned pages [pageCall] ("Link", linkNode) isEntry _ isReference⟩

/-- Not every reference resolves after a call that failed: the link refers to the page that was given
up, and compiling the link again, which is defined, does not bring the page back. -/
theorem pages_dangling :
    (pageCall.run pages []).1 = .error (.schema ⟨"Page", .reservedField⟩) ∧
      definitionsAfter pages [pageCall] = [("Link", linkNode)] ∧
      linkNode.references = [.str (pageCall.options.refPrefix ++ "Page")] ∧
      (definitionsAfter pages [pageCall]).get? "Page" = none ∧
      definitionsAfter pages [pageCall, ⟨Options.defaults, .struct 1⟩] = [("Link", linkNode)] :=
  ⟨rfl, rfl, rfl, rfl, rfl⟩

end TypedReply
