import TypedReply.Proofs.Aligned
import Mathlib.Logic.Relation

/-!
# Outcomes side by side

Two runs of an operation accord when both return related values or both end in an error of the reply.
Whether both may also end in a failure of another kind is left open, for only where none does can the
steps of a run change places: a union goes on after an error of the reply, and after no other failure.
-/

namespace TypedReply

/-- Both outcomes are related values, or errors of the reply, or failures of other kinds where these
are allowed. -/
inductive Accord {α β : Type} (faults : Prop) (related : α → β → Prop) :
    Outcome α → Outcome β → Prop where
  | returned {value : α} {other : β} (isRelated : related value other) :
      Accord faults related (.ok value) (.ok other)
  | refused (error other : ReplyError) :
      Accord faults related (.error (.reply error)) (.error (.reply other))
  | escaped {failure other : Failure} (allowed : faults) (isFatal : failure.isReply = false)
      (isOther : other.isReply = false) : Accord faults related (.error failure) (.error other)

namespace Accord

variable {α β γ δ : Type} {faults : Prop} {related : α → β → Prop} {implied : γ → δ → Prop}
variable {outcome : Outcome α} {other : Outcome β}

/-- Two errors of the reply accord. -/
theorem of_refused (refuses : ∃ error, outcome = .error (.reply error))
    (otherRefuses : ∃ error, other = .error (.reply error)) :
    Accord faults related outcome other := by
  obtain ⟨error, rfl⟩ := refuses
  obtain ⟨otherError, rfl⟩ := otherRefuses
  exact .refused error otherError

/-- An outcome accords with itself if it is no failure that is not allowed. -/
theorem of_self {related : α → α → Prop} (refl : ∀ value, related value value) {outcome : Outcome α}
    (orderly : ∀ failure, outcome = .error failure → failure.isReply = true ∨ faults) :
    Accord faults related outcome outcome := by
  cases outcome with
  | ok value => exact .returned (refl value)
  | error failure =>
      cases isReply : failure.isReply with
      | true =>
          cases failure with
          | reply error => exact .refused error error
          | schema => cases isReply
          | fault => cases isReply
      | false =>
          cases orderly failure rfl with
          | inl isError =>
              rw [isReply] at isError
              cases isError
          | inr allowed => exact .escaped allowed isReply isReply

theorem bind (accord : Accord faults related outcome other) {next : α → Outcome γ}
    {nextOther : β → Outcome δ} (rest : ∀ value other, related value other →
      Accord faults implied (next value) (nextOther other)) :
    Accord faults implied (outcome >>= next) (other >>= nextOther) := by
  cases accord with
  | returned isRelated => exact rest _ _ isRelated
  | refused error other => exact .refused error other
  | escaped allowed isFatal isOther => exact .escaped allowed isFatal isOther

theorem map (accord : Accord faults related outcome other) {image : α → γ} {imageOther : β → δ}
    (rest : ∀ value other, related value other → implied (image value) (imageOther other)) :
    Accord faults implied (outcome.map image) (other.map imageOther) := by
  cases accord with
  | returned isRelated => exact .returned (rest _ _ isRelated)
  | refused error other => exact .refused error other
  | escaped allowed isFatal isOther => exact .escaped allowed isFatal isOther

/-- What related values imply where they are returned may be put in place of the relation. -/
theorem imp {related' : α → β → Prop} (accord : Accord faults related outcome other)
    (implies : ∀ value result, outcome = .ok value → other = .ok result → related value result →
      related' value result) : Accord faults related' outcome other := by
  cases accord with
  | returned isRelated => exact .returned (implies _ _ rfl rfl isRelated)
  | refused error other => exact .refused error other
  | escaped allowed isFatal isOther => exact .escaped allowed isFatal isOther

theorem self_of_other (accord : Accord faults related outcome other) :
    Accord faults Eq other other := by
  cases accord with
  | returned => exact .returned rfl
  | refused error other => exact .refused other other
  | escaped allowed _ isOther => exact .escaped allowed isOther isOther

/-- Outcomes that accord with one and the same outcome accord. -/
theorem trans {last : β → γ → Prop} (accord : Accord faults related outcome other)
    {third : Outcome γ} (next : Accord faults last other third) :
    Accord faults (Relation.Comp related last) outcome third := by
  cases accord with
  | returned isRelated =>
      cases next with
      | returned isLast => exact .returned ⟨_, isRelated, isLast⟩
  | refused error =>
      cases next with
      | refused => exact .refused error _
      | escaped _ isFatal => cases isFatal
  | escaped allowed isFatal isOther =>
      cases next with
      | refused => cases isOther
      | escaped _ _ isThird => exact .escaped allowed isFatal isThird

/-- Where every step of a pass through a list accords with the step of another pass, the passes
accord. -/
theorem mapM {operation : α → Outcome γ} {operationOther : β → Outcome δ} {values : List α}
    {others : List β} (each : List.Forall₂ (fun value other =>
      Accord faults implied (operation value) (operationOther other)) values others) :
    Accord faults (List.Forall₂ implied) (values.mapM operation) (others.mapM operationOther) := by
  induction each with
  | nil => exact .returned .nil
  | cons first _ ih =>
      rw [List.mapM_cons, List.mapM_cons]
      apply first.bind
      intro value other isFirst
      apply ih.bind
      intro values others areRest
      exact .returned (.cons isFirst areRest)

/-- A pass through a list whose steps end in no failure but errors of the reply may be made in any
order. -/
theorem mapM_of_perm {operation : α → Outcome γ} {values others : List α} (perm : values.Perm others)
    (orderly : ∀ value ∈ values, Accord False Eq (operation value) (operation value)) :
    Accord False List.Perm (values.mapM operation) (others.mapM operation) := by
  induction perm with
  | nil => exact .returned .nil
  | cons value _ ih =>
      rw [List.mapM_cons, List.mapM_cons]
      apply (orderly value List.mem_cons_self).bind
      rintro result _ rfl
      apply (ih fun other isOther => orderly other (List.mem_cons_of_mem _ isOther)).bind
      intro results twins areRest
      exact .returned (.cons result areRest)
  | swap first second rest =>
      have isFirst := orderly first (List.mem_cons_of_mem _ List.mem_cons_self)
      have isSecond := orderly second List.mem_cons_self
      have areRest := mapM (List.forall₂_same.mpr fun value isValue =>
        orderly value (List.mem_cons_of_mem _ (List.mem_cons_of_mem _ isValue)))
      simp only [List.mapM_cons]
      generalize operation first = one at isFirst ⊢
      generalize operation second = two at isSecond ⊢
      generalize rest.mapM operation = results at areRest ⊢
      cases isFirst with
      | refused error =>
          cases isSecond with
          | returned => exact .refused error error
          | refused other => exact .refused other error
          | escaped allowed => exact allowed.elim
      | escaped allowed => exact allowed.elim
      | returned =>
          cases isSecond with
          | refused error => exact .refused error error
          | escaped allowed => exact allowed.elim
          | returned =>
              cases areRest with
              | returned => exact .returned (.swap _ _ _)
              | refused error => exact .refused error error
              | escaped allowed => exact allowed.elim
  | trans perm _ ih others =>
      have orderlyOthers := others fun value isValue => orderly value (perm.mem_iff.mpr isValue)
      apply ((ih orderly).trans orderlyOthers).imp
      intro results twins _ _ through
      obtain ⟨middle, first, second⟩ := through
      exact first.trans second

/-- Outcomes that accord end alike. -/
theorem cases_of_accord (accord : Accord faults related outcome other) :
    (∃ value result, outcome = .ok value ∧ other = .ok result ∧ related value result) ∨
      ∃ failure failed, outcome = .error failure ∧ other = .error failed ∧
        failure.isReply = failed.isReply := by
  cases accord with
  | returned isRelated => exact .inl ⟨_, _, rfl, rfl, isRelated⟩
  | refused => exact .inr ⟨_, _, rfl, rfl, rfl⟩
  | escaped _ isFatal isOther => exact .inr ⟨_, _, rfl, rfl, isFatal.trans isOther.symm⟩

end Accord

end TypedReply
