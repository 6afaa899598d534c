import TypedReply.Error

/-!
# What an outcome meets

An outcome is a value or a failure. What is known of either end is put together from the parts of a
computation, so that a claim about the failures that may escape is proved along with what the values
are like.
-/

namespace TypedReply

variable {ε α β : Type}

/-- A value of which something is known, or a failure of which something is known. -/
def Meets (outcome : Except ε α) (returned : α → Prop) (failed : ε → Prop) : Prop :=
  match outcome with
  | .ok value => returned value
  | .error failure => failed failure

variable {outcome : Except ε α} {returned implied : α → Prop} {failed : ε → Prop}

@[simp]
theorem meets_ok (value : α) :
    Meets (.ok value : Except ε α) returned failed ↔ returned value := Iff.rfl

@[simp]
theorem meets_error (failure : ε) :
    Meets (.error failure : Except ε α) returned failed ↔ failed failure := Iff.rfl

namespace Meets

theorem imp {escaped : ε → Prop} (meets : Meets outcome returned failed)
    (returns : ∀ value, returned value → implied value)
    (fails : ∀ failure, failed failure → escaped failure) : Meets outcome implied escaped := by
  cases outcome with
  | ok value => exact returns value meets
  | error failure => exact fails failure meets

theorem bind {next : α → Except ε β} {last : β → Prop} (meets : Meets outcome returned failed)
    (rest : ∀ value, returned value → Meets (next value) last failed) :
    Meets (outcome >>= next) last failed := by
  cases outcome with
  | ok value => exact rest value meets
  | error failure => exact meets

theorem map {image : α → β} {last : β → Prop} (meets : Meets outcome returned failed)
    (rest : ∀ value, returned value → last (image value)) :
    Meets (outcome.map image) last failed := by
  cases outcome with
  | ok value => exact rest value meets
  | error failure => exact meets

/-- What every step of a pass through a list meets, the pass meets for all that it returns. -/
theorem mapM {operation : α → Except ε β} {values : List α} {last : β → Prop}
    (each : ∀ value ∈ values, Meets (operation value) last failed) :
    Meets (values.mapM operation) (fun results => ∀ result ∈ results, last result) failed := by
  induction values with
  | nil => exact fun _ isResult => nomatch isResult
  | cons value values ih =>
      rw [List.mapM_cons]
      refine (each value List.mem_cons_self).bind fun first isFirst => ?_
      refine (ih fun other isOther => each other (List.mem_cons_of_mem _ isOther)).bind ?_
      exact fun rest areRest => List.forall_mem_cons.mpr ⟨isFirst, areRest⟩

end Meets

end TypedReply
