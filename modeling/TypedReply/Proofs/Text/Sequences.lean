import Mathlib.Data.List.Forall2

/-!
# Texts one after another

Texts that are written one after another are told apart if each shows where it ends, be it by itself or
by what may follow it. A run of characters of one class ends where a character of another class
follows. If one text can be told from what follows it, so can any number of them.
-/

namespace TypedReply.Text

variable {α γ : Type}

/-- A run ends where something else follows. -/
theorem run_unique {inside : γ → Prop} {run other rest last : List γ}
    (each : ∀ c ∈ run, inside c) (eachOther : ∀ c ∈ other, inside c)
    (stops : ∀ c ∈ rest.head?, ¬inside c) (stopsOther : ∀ c ∈ last.head?, ¬inside c)
    (same : run ++ rest = other ++ last) : run = other ∧ rest = last := by
  induction run generalizing other with
  | nil =>
      cases other with
      | nil => exact ⟨rfl, same⟩
      | cons c other =>
          obtain rfl : rest = c :: (other ++ last) := same
          exact (stops c rfl (eachOther c List.mem_cons_self)).elim
  | cons c run ih =>
      cases other with
      | nil =>
          obtain rfl : c :: (run ++ rest) = last := same
          exact (stopsOther c rfl (each c List.mem_cons_self)).elim
      | cons d other =>
          obtain ⟨rfl, sameTail⟩ := List.cons.inj same
          obtain ⟨rfl, sameRest⟩ := ih (fun c isRun => each c (List.mem_cons_of_mem _ isRun))
            (fun c isRun => eachOther c (List.mem_cons_of_mem _ isRun)) sameTail
          exact ⟨rfl, sameRest⟩

section Sequence

variable {written : α → List γ} {follows ends : List γ → Prop} {related : α → α → Prop}
variable {values others : List α} {rest last : List γ}

/-- If each of several texts can be told from what follows it, and none looks like the end, the texts up
to the end are those of values that are related one by one. -/
theorem aligned_of_flatMap_eq
    (each : ∀ value ∈ values, ∀ other ∈ others, ∀ rest last, follows rest → follows last →
      written value ++ rest = written other ++ last → related value other ∧ rest = last)
    (goesOn : ∀ value rest, follows (written value ++ rest) ∧ ¬ends (written value ++ rest))
    (closes : ∀ rest, ends rest → follows rest) (isEnd : ends rest) (isLast : ends last)
    (same : values.flatMap written ++ rest = others.flatMap written ++ last) :
    List.Forall₂ related values others ∧ rest = last := by
  have followed (values : List α) {rest : List γ} (isEnd : ends rest) :
      follows (values.flatMap written ++ rest) := by
    cases values with
    | nil => exact closes rest isEnd
    | cons value values =>
        rw [List.flatMap_cons, List.append_assoc]
        exact (goesOn value _).1
  induction values generalizing others with
  | nil =>
      cases others with
      | nil => exact ⟨.nil, same⟩
      | cons other others =>
          rw [List.flatMap_cons, List.append_assoc] at same
          obtain rfl : rest = written other ++ (others.flatMap written ++ last) := same
          exact ((goesOn other _).2 isEnd).elim
  | cons value values ih =>
      cases others with
      | nil =>
          rw [List.flatMap_cons, List.append_assoc] at same
          obtain rfl : written value ++ (values.flatMap written ++ rest) = last := same
          exact ((goesOn value _).2 isLast).elim
      | cons other others =>
          rw [List.flatMap_cons, List.append_assoc, List.flatMap_cons, List.append_assoc] at same
          obtain ⟨isRelated, sameRest⟩ := each value List.mem_cons_self other List.mem_cons_self _ _
            (followed values isEnd) (followed others isLast) same
          obtain ⟨areRelated, sameEnd⟩ := ih
            (fun value isValue other isOther =>
              each value (List.mem_cons_of_mem _ isValue) other (List.mem_cons_of_mem _ isOther))
            sameRest
          exact ⟨.cons isRelated areRelated, sameEnd⟩

/-- If each of several texts shows its value and can be told from what follows it, they show all
values. -/
theorem eq_of_flatMap_eq
    (each : ∀ value ∈ values, ∀ other ∈ others, ∀ rest last, follows rest → follows last →
      written value ++ rest = written other ++ last → value = other ∧ rest = last)
    (goesOn : ∀ value rest, follows (written value ++ rest) ∧ ¬ends (written value ++ rest))
    (closes : ∀ rest, ends rest → follows rest) (isEnd : ends rest) (isLast : ends last)
    (same : values.flatMap written ++ rest = others.flatMap written ++ last) :
    values = others ∧ rest = last := by
  obtain ⟨aligned, sameRest⟩ := aligned_of_flatMap_eq each goesOn closes isEnd isLast same
  rw [List.forall₂_eq_eq_eq] at aligned
  exact ⟨aligned, sameRest⟩

end Sequence

end TypedReply.Text
