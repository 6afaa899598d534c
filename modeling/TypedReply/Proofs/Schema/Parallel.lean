import TypedReply.Proofs.Schema.Pass

/-!
# Compiling in parallel

How the node of a descriptor is put together does not depend on what operations are: on the state
that they thread, or on how they expand a struct. What relates the expansions of structs by two
kinds of operation, and goes along when operations are put together, relates all that is compiled.
-/

namespace TypedReply

variable {m n : Type → Type} [Monad m] [Monad n] [MonadExceptOf Failure m]
  [MonadExceptOf Failure n]

/-- A relation between operations of two kinds that goes along when operations are put together. -/
structure GoesAlong (related : ∀ α : Type, m α → n α → Prop) : Prop where
  pure : ∀ {α : Type} (value : α), related _ (pure value) (pure value)
  throw : ∀ {α : Type} (failure : Failure),
    related _ (MonadExcept.throw failure : m α) (MonadExcept.throw failure)
  bind : ∀ {α β : Type} {action : m α} {other : n α} {next : α → m β} {otherNext : α → n β},
    related _ action other → (∀ value, related _ (next value) (otherNext value)) →
      related _ (action >>= next) (other >>= otherNext)

/-- A property of operations that goes along when operations are put together. -/
abbrev HoldsAlong (holds : ∀ α : Type, m α → Prop) : Prop :=
  GoesAlong fun α (action _ : m α) => holds α action

namespace Compile

section GoesAlong

variable {related : ∀ α : Type, m α → n α → Prop} (goesAlong : GoesAlong related)
variable {expand : StructId → m Value} {other : StructId → n Value}
include goesAlong

theorem related_memberNodes {members : List Descriptor}
    (each : ∀ member ∈ members, related _ (node expand member) (node other member)) :
    related _ (memberNodes expand members) (memberNodes other members) := by
  induction members with
  | nil =>
      rw [memberNodes, memberNodes]
      exact goesAlong.pure []
  | cons member members ih =>
      have rest := ih fun later isLater => each later (List.mem_cons_of_mem _ isLater)
      cases isNull : member.isNull with
      | true =>
          cases Descriptor.eq_null_of_isNull isNull
          rw [memberNodes, memberNodes]
          exact rest
      | false =>
          rw [memberNodes_cons expand isNull, memberNodes_cons other isNull]
          apply goesAlong.bind (each member List.mem_cons_self)
          intro first
          exact goesAlong.bind rest fun _ => goesAlong.pure _

theorem related_fieldNodes (owner : String) {fields : List Field}
    (each : ∀ field ∈ fields, related _ (node expand field.type) (node other field.type)) :
    related _ (fieldNodes expand owner fields) (fieldNodes other owner fields) := by
  induction fields with
  | nil =>
      rw [fieldNodes, fieldNodes]
      exact goesAlong.pure []
  | cons field fields ih =>
      have first := each field List.mem_cons_self
      have rest := ih fun later isLater => each later (List.mem_cons_of_mem _ isLater)
      cases field with
      | mk name type required description default =>
          have compiled (name : String) : related _
              (do
                let inner ← node expand type
                return (name, fieldNode required description inner) ::
                  (← fieldNodes expand owner fields))
              (do
                let inner ← node other type
                return (name, fieldNode required description inner) ::
                  (← fieldNodes other owner fields)) := by
            apply goesAlong.bind first
            intro inner
            exact goesAlong.bind rest fun _ => goesAlong.pure _
          by_cases reserved : name = typeKey
          · simp only [fieldNodes, reserved, if_true]
            exact goesAlong.bind (goesAlong.throw _) fun _ => compiled typeKey
          · simp only [fieldNodes, reserved, if_false]
            exact compiled name

theorem related_node (expands : ∀ id, related _ (expand id) (other id)) (descriptor : Descriptor) :
    related _ (node expand descriptor) (node other descriptor) := by
  induction descriptor using Descriptor.induction with
  | array element ih =>
      simp only [node]
      exact goesAlong.bind ih fun _ => goesAlong.pure _
  | map key value keyIH valueIH =>
      simp only [node]
      exact goesAlong.bind keyIH fun _ => goesAlong.bind valueIH fun _ => goesAlong.pure _
  | optional inner ih =>
      simp only [node]
      exact goesAlong.bind ih fun _ => goesAlong.pure _
  | union members ih =>
      simp only [node]
      exact goesAlong.bind (related_memberNodes goesAlong ih) fun _ => goesAlong.pure _
  | fixed record ih =>
      simp only [node]
      exact goesAlong.bind (related_fieldNodes goesAlong _ ih) fun _ => goesAlong.pure _
  | struct id =>
      simp only [node]
      exact expands id
  | stray value =>
      simp only [node]
      exact goesAlong.throw _
  | _ =>
      simp only [node]
      exact goesAlong.pure _

/-- The nodes of a record's fields are related where the expansions of structs are. -/
theorem related_fieldNodes_of_expands (expands : ∀ id, related _ (expand id) (other id))
    (owner : String) (fields : List Field) :
    related _ (fieldNodes expand owner fields) (fieldNodes other owner fields) :=
  related_fieldNodes goesAlong owner fun field _ => related_node goesAlong expands field.type

end GoesAlong

section HoldsAlong

variable {holds : ∀ α : Type, m α → Prop} (holdsAlong : HoldsAlong holds)
variable {expand : StructId → m Value}
include holdsAlong

theorem holds_node (expands : ∀ id, holds _ (expand id)) (descriptor : Descriptor) :
    holds _ (node expand descriptor) :=
  @related_node m m _ _ _ _ _ holdsAlong expand expand expands descriptor

theorem holds_fieldNodes (expands : ∀ id, holds _ (expand id)) (owner : String)
    (fields : List Field) : holds _ (fieldNodes expand owner fields) :=
  @related_fieldNodes_of_expands m m _ _ _ _ _ holdsAlong expand expand expands owner fields

end HoldsAlong

end Compile

end TypedReply
