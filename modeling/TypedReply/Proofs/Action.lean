import TypedReply.Error

/-!
# What an operation on a state yields

Passes of the compiler and operations on a registry thread a state and may fail. A successful run is
taken apart into the runs of its parts by one lemma for each way of building an operation. What is
known of every end of an operation, be it a result or a failure, is put together in the same way.
-/

namespace TypedReply

variable {σ α β : Type} {before after : σ}

/-- An operation goes on from what its first part leaves, unless that fails. -/
theorem run_bind (action : ExceptT Failure (StateM σ) α)
    (next : α → ExceptT Failure (StateM σ) β) (before : σ) :
    (action >>= next).run before = match action.run before with
      | (.ok first, between) => (next first).run between
      | (.error failure, between) => (.error failure, between) := by
  change (match action.run before with | (r, s) => ExceptT.bindCont next r s) = _
  rcases action.run before with ⟨_ | first, between⟩ <;> rfl

/-- What comes last whichever way an operation ends changes what the operation leaves, and not how it
ends. -/
theorem run_tryFinally (action : ExceptT Failure (StateM σ) α) (image : σ → σ) (before : σ) :
    (tryFinally action (modifyThe σ image)).run before =
      ((action.run before).1, image (action.run before).2) := by
  rcases ran : action.run before with ⟨failure | result, after⟩
  all_goals
    have ran : action before = _ := ran
    simp only [tryFinally, tryFinally', Functor.map, ExceptT.map, ExceptT.mk, ExceptT.run, bind,
      StateT.bind, pure, ran]
    rfl

/-- An operation succeeds with a result and leaves a state. -/
def Yields (action : ExceptT Failure (StateM σ) α) (before : σ) (result : α) (after : σ) : Prop :=
  action.run before = (.ok result, after)

@[simp]
theorem yields_pure (value result : α) :
    Yields (pure value) before result after ↔ result = value ∧ after = before := by
  change ((Except.ok value, before) : Except Failure α × σ) = (.ok result, after) ↔ _
  simp [eq_comm]

@[simp]
theorem yields_bind (action : ExceptT Failure (StateM σ) α)
    (next : α → ExceptT Failure (StateM σ) β) (result : β) :
    Yields (action >>= next) before result after ↔
      ∃ first between, Yields action before first between ∧
        Yields (next first) between result after := by
  simp only [Yields, run_bind]
  rcases action.run before with ⟨failure | first, between⟩
  · constructor
    · intro failed
      cases congrArg Prod.fst failed
    · rintro ⟨first, between, failed, -⟩
      cases congrArg Prod.fst failed
  · constructor
    · exact fun rest => ⟨first, between, rfl, rest⟩
    · rintro ⟨other, state, same, rest⟩
      cases same
      exact rest

@[simp]
theorem not_yields_throw (failure : Failure) (result : α) :
    ¬Yields (throw failure) before result after := by
  intro yields
  cases congrArg Prod.fst yields

@[simp]
theorem yields_get (found : σ) :
    Yields (getThe σ) before found after ↔ found = before ∧ after = before := by
  change ((Except.ok before, before) : Except Failure σ × σ) = (.ok found, after) ↔ _
  simp [eq_comm]

@[simp]
theorem yields_set (next : σ) (result : PUnit) :
    Yields (set next) before result after ↔ after = next := by
  change ((Except.ok PUnit.unit, next) : Except Failure PUnit × σ) = (.ok result, after) ↔ _
  simp [eq_comm]

@[simp]
theorem yields_modify (image : σ → σ) (result : PUnit) :
    Yields (modifyThe σ image) before result after ↔ after = image before := by
  change ((Except.ok PUnit.unit, image before) : Except Failure PUnit × σ) = (.ok result, after) ↔ _
  simp [eq_comm]

/-- An operation that chooses between two yields what the chosen one does. -/
theorem yields_ite {condition : Prop} [Decidable condition]
    (first second : ExceptT Failure (StateM σ) α) (result : α) :
    Yields (if condition then first else second) before result after ↔
      if condition then Yields first before result after else Yields second before result after := by
  split <;> rfl

/-- An operation that succeeds is not rescued. -/
theorem yields_tryCatch {action : ExceptT Failure (StateM σ) α} {result : α}
    (rescue : Failure → ExceptT Failure (StateM σ) α) (yields : Yields action before result after) :
    Yields (tryCatch action rescue) before result after := by
  unfold Yields at *
  rw [ExceptT.run_tryCatch]
  change StateT.bind action.run _ before = _
  rw [StateT.bind, yields]
  rfl

/-! ## Every end of an operation -/

variable {returned : α → σ → Prop} {failed : Failure → Prop}

/-- An operation returns a result and leaves a state of which something is known, or it fails with a
failure of which something is known. -/
def Ends (action : ExceptT Failure (StateM σ) α) (before : σ) (returned : α → σ → Prop)
    (failed : Failure → Prop) : Prop :=
  match action.run before with
  | (.ok result, after) => returned result after
  | (.error failure, _) => failed failure

@[simp]
theorem ends_pure (value : α) : Ends (pure value) before returned failed ↔ returned value before :=
  Iff.rfl

@[simp]
theorem ends_throw (failure : Failure) :
    Ends (throw failure) before returned failed ↔ failed failure := Iff.rfl

@[simp]
theorem ends_bind (action : ExceptT Failure (StateM σ) α)
    (next : α → ExceptT Failure (StateM σ) β) {returned : β → σ → Prop} :
    Ends (action >>= next) before returned failed ↔
      Ends action before (fun first between => Ends (next first) between returned failed) failed := by
  change (match (match action.run before with | (r, s) => ExceptT.bindCont next r s) with
    | (.ok result, after) => returned result after
    | (.error failure, _) => failed failure) ↔ _
  rcases run : action.run before with ⟨_ | first, between⟩
  · simp only [Ends, run]
    rfl
  · simp only [Ends, run]
    rfl

@[simp]
theorem ends_get {returned : σ → σ → Prop} :
    Ends (getThe σ) before returned failed ↔ returned before before := Iff.rfl

@[simp]
theorem ends_set (next : σ) {returned : PUnit → σ → Prop} :
    Ends (set next) before returned failed ↔ returned ⟨⟩ next := Iff.rfl

@[simp]
theorem ends_modify (image : σ → σ) {returned : PUnit → σ → Prop} :
    Ends (modifyThe σ image) before returned failed ↔ returned ⟨⟩ (image before) := Iff.rfl

/-- An operation that chooses between two ends as the chosen one does. -/
theorem ends_ite {condition : Prop} [Decidable condition]
    (first second : ExceptT Failure (StateM σ) α) :
    Ends (if condition then first else second) before returned failed ↔
      if condition then Ends first before returned failed
      else Ends second before returned failed := by
  split <;> rfl

theorem Ends.mono {action : ExceptT Failure (StateM σ) α} {implied : α → σ → Prop}
    (ends : Ends action before returned failed)
    (implies : ∀ result after, returned result after → implied result after) :
    Ends action before implied failed := by
  unfold Ends at *
  split <;> simp_all

/-- What is known of every result is known of the one that is yielded. -/
theorem Ends.of_yields {action : ExceptT Failure (StateM σ) α} {result : α}
    (ends : Ends action before returned failed) (yields : Yields action before result after) :
    returned result after := by
  simpa only [Ends, show action.run before = _ from yields] using ends

/-! ## Operations that run alike -/

def Alike (action other : ExceptT Failure (StateM σ) α) (before : σ) : Prop :=
  action.run before = other.run before

theorem Alike.refl (action : ExceptT Failure (StateM σ) α) : Alike action action before := rfl

/-- Operations that begin alike and go on alike from what they yield run alike. -/
theorem Alike.bind {action other : ExceptT Failure (StateM σ) α}
    {next otherNext : α → ExceptT Failure (StateM σ) β} (first : Alike action other before)
    (rest : ∀ result between, Yields action before result between →
      Alike (next result) (otherNext result) between) :
    Alike (action >>= next) (other >>= otherNext) before := by
  change (match action.run before with | (r, s) => ExceptT.bindCont next r s) =
    (match other.run before with | (r, s) => ExceptT.bindCont otherNext r s)
  rw [← show action.run before = other.run before from first]
  rcases run : action.run before with ⟨failure | result, between⟩
  · rfl
  · exact rest result between run

/-- Operations that run alike do so under one rescue. -/
theorem Alike.tryCatch {action other : ExceptT Failure (StateM σ) α}
    (alike : Alike action other before) (rescue : Failure → ExceptT Failure (StateM σ) α) :
    Alike (tryCatch action rescue) (tryCatch other rescue) before := by
  unfold Alike at *
  rw [ExceptT.run_tryCatch, ExceptT.run_tryCatch]
  change StateT.bind action.run _ before = StateT.bind other.run _ before
  rw [StateT.bind, StateT.bind, alike]

/-! ## What is left behind -/

section Leaves

variable {returned : α → σ → Prop} {failed : Failure → σ → Prop}

/-- An operation leaves a state of which something is known, with its result or with its failure. -/
def Leaves (action : ExceptT Failure (StateM σ) α) (before : σ) (returned : α → σ → Prop)
    (failed : Failure → σ → Prop) : Prop :=
  match action.run before with
  | (.ok result, after) => returned result after
  | (.error failure, after) => failed failure after

@[simp]
theorem leaves_pure (value : α) :
    Leaves (pure value) before returned failed ↔ returned value before := Iff.rfl

@[simp]
theorem leaves_throw (failure : Failure) :
    Leaves (throw failure) before returned failed ↔ failed failure before := Iff.rfl

@[simp]
theorem leaves_bind (action : ExceptT Failure (StateM σ) α)
    (next : α → ExceptT Failure (StateM σ) β) {returned : β → σ → Prop} :
    Leaves (action >>= next) before returned failed ↔
      Leaves action before (fun first between => Leaves (next first) between returned failed)
        failed := by
  change (match (match action.run before with | (r, s) => ExceptT.bindCont next r s) with
    | (.ok result, after) => returned result after
    | (.error failure, after) => failed failure after) ↔ _
  rcases run : action.run before with ⟨_ | first, between⟩
  · simp only [Leaves, run]
    rfl
  · simp only [Leaves, run]
    rfl

@[simp]
theorem leaves_get {returned : σ → σ → Prop} :
    Leaves (getThe σ) before returned failed ↔ returned before before := Iff.rfl

@[simp]
theorem leaves_set (next : σ) {returned : PUnit → σ → Prop} :
    Leaves (set next) before returned failed ↔ returned ⟨⟩ next := Iff.rfl

@[simp]
theorem leaves_modify (image : σ → σ) {returned : PUnit → σ → Prop} :
    Leaves (modifyThe σ image) before returned failed ↔ returned ⟨⟩ (image before) := Iff.rfl

/-- A rescue begins where the operation failed. -/
theorem leaves_tryCatch (action : ExceptT Failure (StateM σ) α)
    (rescue : Failure → ExceptT Failure (StateM σ) α) :
    Leaves (tryCatch action rescue) before returned failed ↔
      Leaves action before returned fun failure between =>
        Leaves (rescue failure) between returned failed := by
  unfold Leaves
  rw [ExceptT.run_tryCatch]
  change (match (StateT.bind action.run _ before : Except Failure α × σ) with
    | (.ok result, after) => returned result after
    | (.error failure, after) => failed failure after) ↔ _
  rw [StateT.bind]
  rcases action.run before with ⟨_ | _, _⟩ <;> rfl

theorem Leaves.imp {action : ExceptT Failure (StateM σ) α} {implied : α → σ → Prop}
    {escaped : Failure → σ → Prop} (leaves : Leaves action before returned failed)
    (returns : ∀ result after, returned result after → implied result after)
    (fails : ∀ failure after, failed failure after → escaped failure after) :
    Leaves action before implied escaped := by
  unfold Leaves at *
  split at leaves
  · exact returns _ _ leaves
  · exact fails _ _ leaves

/-- What is known of the state that is left with every result holds of the one that is yielded. -/
theorem Leaves.of_yields {action : ExceptT Failure (StateM σ) α} {result : α}
    (leaves : Leaves action before returned failed) (yields : Yields action before result after) :
    returned result after := by
  simpa only [Leaves, show action.run before = _ from yields] using leaves

/-- The result with which a state is left is the one that is yielded. -/
theorem Leaves.and_yields {action : ExceptT Failure (StateM σ) α}
    (leaves : Leaves action before returned failed) :
    Leaves action before (fun result after => returned result after ∧ Yields action before result after)
      failed := by
  unfold Leaves at *
  split
  next ran =>
    rw [ran] at leaves
    exact ⟨leaves, ran⟩
  next ran => simpa only [ran] using leaves

/-- What is known of the state that is left with a result as of the one that is left with a failure is
known of the state after the operation. -/
theorem Leaves.run {known : σ → Prop} {action : ExceptT Failure (StateM σ) α}
    (leaves : Leaves action before (fun _ after => known after) fun _ after => known after) :
    known (action.run before).2 := by
  unfold Leaves at leaves
  split at leaves
  next ran => rw [ran]; exact leaves
  next ran => rw [ran]; exact leaves

/-- An operation that cannot fail succeeds. -/
theorem Leaves.exists_yields {action : ExceptT Failure (StateM σ) α}
    (leaves : Leaves action before returned fun _ _ => False) :
    ∃ result after, Yields action before result after ∧ returned result after := by
  unfold Leaves at leaves
  split at leaves
  next result after ran => exact ⟨result, after, ran, leaves⟩
  next => exact leaves.elim

end Leaves

/-- An operation keeps an invariant of the state, whether it succeeds or fails. -/
def Upholds (invariant : σ → Prop) (action : ExceptT Failure (StateM σ) α) : Prop :=
  ∀ before, invariant before →
    Leaves action before (fun _ after => invariant after) fun _ after => invariant after

namespace Upholds

variable {invariant : σ → Prop}

theorem pure (value : α) : Upholds invariant (Pure.pure value) :=
  fun _ holds => holds

theorem throw (failure : Failure) :
    Upholds invariant (MonadExcept.throw failure : ExceptT Failure (StateM σ) α) :=
  fun _ holds => holds

theorem get : Upholds invariant (getThe σ) :=
  fun _ holds => holds

theorem bind {action : ExceptT Failure (StateM σ) α} {next : α → ExceptT Failure (StateM σ) β}
    (first : Upholds invariant action) (rest : ∀ value, Upholds invariant (next value)) :
    Upholds invariant (action >>= next) := by
  intro before holds
  rw [leaves_bind]
  exact (first before holds).imp (fun value between => rest value between) fun _ _ fails => fails

theorem mapM {operation : α → ExceptT Failure (StateM σ) β} {values : List α}
    (each : ∀ value ∈ values, Upholds invariant (operation value)) :
    Upholds invariant (values.mapM operation) := by
  induction values with
  | nil => exact pure []
  | cons value values ih =>
      rw [List.mapM_cons]
      apply (each value List.mem_cons_self).bind
      intro first
      apply (ih fun other isOther => each other (List.mem_cons_of_mem _ isOther)).bind
      intro rest
      exact pure _

theorem run {action : ExceptT Failure (StateM σ) α} (upholds : Upholds invariant action)
    (holds : invariant before) : invariant (action.run before).2 :=
  (upholds before holds).run

end Upholds

end TypedReply
