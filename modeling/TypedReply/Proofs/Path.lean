import TypedReply.Path
import TypedReply.Proofs.Coerce.Members
import TypedReply.Proofs.Text.Sequences
import Mathlib.Data.List.Induction

/-!
# What the text of a path tells

Indices stand between brackets, and a dot goes before a key that anything precedes in the text. Keys
that have none of these characters can be told apart in it, except that nothing is written of empty
keys at the beginning: the text shows whether there are steps, and it shows the steps after those.
-/

namespace TypedReply.Path

/-- The characters around indices, before keys and around the text of the empty path. -/
def marks : List Char := ['.', '[', ']', '<', '>']

/-- An index, or a key that has none of the marks. -/
inductive IsPlainStep : Value → Prop where
  | index (n : Nat) : IsPlainStep (index n)
  | key {name : String} (plain : ∀ mark ∈ marks, mark ∉ name.toList) : IsPlainStep (key name)

/-- What a step adds to the text of others, if that is not empty. -/
def addedText (step : Value) : List Char :=
  if step.integer?.isSome then '[' :: (step.display.toList ++ [']']) else '.' :: step.display.toList

/-- What may follow the text of a step: nothing, or the text that another step adds. -/
def Goes (rest : List Char) : Prop := ∀ char ∈ rest.head?, char = '[' ∨ char = '.'

variable {path other : Path} {step first second : Value} {rest last : List Char}

/-! ## The text of the steps -/

@[simp]
theorem addedText_index (n : Nat) : addedText (index n) = '[' :: (decimalDigits n ++ [']']) := by
  simp [addedText, index, Value.integer?, Value.display, Value.render, Value.intText]

@[simp]
theorem addedText_key (name : String) : addedText (key name) = '.' :: name.toList := rfl

theorem stepText_of_ne_nil {before : List Char} (others : before ≠ []) (step : Value) :
    stepText before step = addedText step := by
  have notEmpty : before.isEmpty = false := by simpa using others
  simp [stepText, addedText, notEmpty]

theorem stepText_nil_index (n : Nat) : stepText [] (index n) = addedText (index n) := rfl

theorem stepText_nil_key (name : String) : stepText [] (key name) = name.toList := rfl

theorem foldl_stepText {before : List Char} (others : before ≠ []) (path : Path) :
    path.foldl (fun before step => before ++ stepText before step) before =
      before ++ path.flatMap addedText := by
  induction path generalizing before with
  | nil => simp
  | cons step path ih =>
      rw [List.foldl_cons, stepText_of_ne_nil others, ih (by simp [others]), List.append_assoc,
        List.flatMap_cons]

theorem stepsText_cons (written : stepText [] step ≠ []) (path : Path) :
    stepsText (step :: path) = stepText [] step ++ path.flatMap addedText :=
  foldl_stepText written path

theorem stepsText_key_empty (path : Path) : stepsText (key "" :: path) = stepsText path := rfl

theorem isText_empty_iff (isPlain : IsPlainStep step) :
    step.isText "" = true ↔ step = key "" := by
  cases isPlain with
  | index n => exact ⟨nofun, nofun⟩
  | key => simp [key, Value.isText, Value.text?]

theorem stepsText_dropWhile (plain : ∀ step ∈ path, IsPlainStep step) :
    stepsText (path.dropWhile (Value.isText "")) = stepsText path := by
  induction path with
  | nil => rfl
  | cons step path ih =>
      obtain ⟨isPlain, others⟩ := List.forall_mem_cons.mp plain
      by_cases isEmpty : step.isText "" = true
      · obtain rfl := (isText_empty_iff isPlain).mp isEmpty
        rw [List.dropWhile_cons_of_pos isEmpty, stepsText_key_empty, ih others]
      · rw [List.dropWhile_cons_of_neg isEmpty]

theorem stepText_nil_ne_nil (isPlain : IsPlainStep step) (notEmpty : ¬step.isText "" = true) :
    stepText [] step ≠ [] := by
  cases isPlain with
  | index n => simp [stepText_nil_index]
  | key =>
      rw [stepText_nil_key]
      simpa [key, Value.isText, Value.text?] using notEmpty

/-! ## Telling steps apart -/

theorem index_unique {m n : Nat}
    (same : addedText (index m) ++ rest = addedText (index n) ++ last) : m = n ∧ rest = last := by
  simp only [addedText_index, List.cons_append, List.cons.injEq, true_and, List.append_assoc,
    List.nil_append] at same
  have digits {n : Nat} : ∀ c ∈ decimalDigits n, c.isDigit = true :=
    fun _ => Value.isDigit_of_mem_decimalDigits
  obtain ⟨sameDigits, sameRest⟩ :=
    Text.run_unique digits digits (by simp) (by simp) same
  exact ⟨Value.decimalDigits_inj.mp sameDigits, (List.cons.inj sameRest).2⟩

theorem key_unique {name twin : String} (plain : ∀ mark ∈ marks, mark ∉ name.toList)
    (plainTwin : ∀ mark ∈ marks, mark ∉ twin.toList) (goes : Goes rest) (goesLast : Goes last)
    (same : name.toList ++ rest = twin.toList ++ last) : name = twin ∧ rest = last := by
  have stops {rest : List Char} (goes : Goes rest) : ∀ char ∈ rest.head?, ¬char ∉ marks := by
    intro char isFirst
    rcases goes char isFirst with rfl | rfl <;> decide
  have inside {name : String} (plain : ∀ mark ∈ marks, mark ∉ name.toList) :
      ∀ char ∈ name.toList, char ∉ marks := fun char isChar isMark => plain char isMark isChar
  obtain ⟨sameName, sameRest⟩ :=
    Text.run_unique (inside plain) (inside plainTwin) (stops goes) (stops goesLast) same
  exact ⟨String.toList_inj.mp sameName, sameRest⟩

theorem addedText_unique (isPlain : IsPlainStep first) (isOther : IsPlainStep second)
    (goes : Goes rest) (goesLast : Goes last)
    (same : addedText first ++ rest = addedText second ++ last) : first = second ∧ rest = last := by
  cases isPlain with
  | index m =>
      cases isOther with
      | index n =>
          obtain ⟨rfl, sameRest⟩ := index_unique same
          exact ⟨rfl, sameRest⟩
      | key => simp at same
  | key plain =>
      cases isOther with
      | index => simp at same
      | key plainOther =>
          obtain ⟨rfl, sameRest⟩ := key_unique plain plainOther goes goesLast (List.cons.inj same).2
          exact ⟨rfl, sameRest⟩

/-- What a first step other than an empty key adds shows the step. -/
theorem stepText_nil_unique (isPlain : IsPlainStep first) (isOther : IsPlainStep second)
    (notEmpty : ¬first.isText "" = true) (notEmptyOther : ¬second.isText "" = true)
    (goes : Goes rest) (goesLast : Goes last)
    (same : stepText [] first ++ rest = stepText [] second ++ last) :
    first = second ∧ rest = last := by
  -- Only an index begins with a mark.
  have unmarked {name : String} {rest more : List Char}
      (plain : ∀ mark ∈ marks, mark ∉ name.toList) (written : stepText [] (key name) ≠ []) :
      name.toList ++ rest ≠ '[' :: more := by
    intro same
    obtain ⟨char, chars, isName⟩ := List.exists_cons_of_ne_nil written
    rw [stepText_nil_key] at isName
    rw [isName, List.cons_append, List.cons.injEq] at same
    exact plain '[' (by decide) (isName ▸ same.1 ▸ List.mem_cons_self)
  cases isPlain with
  | index m =>
      cases isOther with
      | index n =>
          obtain ⟨rfl, sameRest⟩ := index_unique same
          exact ⟨rfl, sameRest⟩
      | key plain =>
          exact (unmarked plain (stepText_nil_ne_nil (.key plain) notEmptyOther) same.symm).elim
  | key plain =>
      cases isOther with
      | index => exact (unmarked plain (stepText_nil_ne_nil (.key plain) notEmpty) same).elim
      | key plainOther =>
          obtain ⟨rfl, sameRest⟩ := key_unique plain plainOther goes goesLast same
          exact ⟨rfl, sameRest⟩

theorem goes_addedText (step : Value) (rest : List Char) : Goes (addedText step ++ rest) := by
  rw [addedText]
  split <;> simp [Goes]

theorem goes_flatMap_addedText (path : Path) : Goes (path.flatMap addedText) := by
  cases path with
  | nil => simp [Goes]
  | cons step path => exact goes_addedText step _

theorem flatMap_addedText_inj (plain : ∀ step ∈ path, IsPlainStep step)
    (plainOther : ∀ step ∈ other, IsPlainStep step)
    (same : path.flatMap addedText = other.flatMap addedText) : path = other := by
  have unended (step : Value) (rest : List Char) : addedText step ++ rest ≠ [] := by
    rw [addedText]
    split <;> simp
  refine (@Text.eq_of_flatMap_eq _ _ addedText Goes (· = []) _ _ [] [] ?_
    (fun step rest => ⟨goes_addedText step rest, unended step rest⟩) ?_ rfl rfl ?_).1
  · exact fun first isFirst second isSecond rest last goes goesLast =>
      addedText_unique (plain first isFirst) (plainOther second isSecond) goes goesLast
  · rintro _ rfl
    simp [Goes]
  · simpa using same

/-- Steps that do not begin with an empty key are known from their text. -/
theorem stepsText_inj (plain : ∀ step ∈ path, IsPlainStep step)
    (plainOther : ∀ step ∈ other, IsPlainStep step)
    (begins : ∀ step ∈ path.head?, ¬step.isText "" = true)
    (beginsOther : ∀ step ∈ other.head?, ¬step.isText "" = true)
    (same : stepsText path = stepsText other) : path = other := by
  cases path with
  | nil =>
      cases other with
      | nil => rfl
      | cons second other =>
          have written := stepText_nil_ne_nil (plainOther _ List.mem_cons_self) (beginsOther _ rfl)
          rw [stepsText_cons written] at same
          exact (written (List.append_eq_nil_iff.mp same.symm).1).elim
  | cons first path =>
      have isPlain := plain _ List.mem_cons_self
      have written := stepText_nil_ne_nil isPlain (begins _ rfl)
      rw [stepsText_cons written] at same
      cases other with
      | nil => exact (written (List.append_eq_nil_iff.mp same).1).elim
      | cons second other =>
          have isOther := plainOther _ List.mem_cons_self
          rw [stepsText_cons (stepText_nil_ne_nil isOther (beginsOther _ rfl))] at same
          obtain ⟨rfl, sameRest⟩ := stepText_nil_unique isPlain isOther (begins _ rfl)
            (beginsOther _ rfl) (goes_flatMap_addedText path) (goes_flatMap_addedText other) same
          rw [flatMap_addedText_inj (fun step isStep => plain step (List.mem_cons_of_mem _ isStep))
            (fun step isStep => plainOther step (List.mem_cons_of_mem _ isStep)) sameRest]

/-! ## The text of a path -/

theorem format_of_ne_nil (steps : path ≠ []) : format path = String.ofList (stepsText path) := by
  rw [format, if_neg (by simpa using steps)]

theorem not_mem_stepsText (plain : ∀ step ∈ path, IsPlainStep step) : '<' ∉ stepsText path := by
  induction path using List.reverseRecOn with
  | nil => exact List.not_mem_nil
  | append_singleton path step ih =>
      have isPlain := plain step (by simp)
      have unmarked : '<' ∉ addedText step ∧ '<' ∉ stepText [] step := by
        cases isPlain with
        | index n =>
            have notDigit : '<' ∉ decimalDigits n := fun isDigit => by
              cases Value.isDigit_of_mem_decimalDigits isDigit
            simp [stepText_nil_index, notDigit]
        | key free =>
            have absent := free '<' (by decide)
            simp [stepText_nil_key, absent]
      rw [stepsText_append_singleton, List.mem_append, not_or]
      refine ⟨ih fun step isStep => plain step (List.mem_append_left _ isStep), ?_⟩
      by_cases empty : stepsText path = []
      · rw [empty]
        exact unmarked.2
      · rw [stepText_of_ne_nil empty]
        exact unmarked.1

theorem format_ne_root (plain : ∀ step ∈ path, IsPlainStep step) (steps : path ≠ []) :
    format path ≠ format [] := by
  intro same
  rw [format_of_ne_nil steps] at same
  have isRoot : stepsText path = "<root>".toList := by
    rw [← String.toList_ofList (l := stepsText path), same]
    rfl
  exact not_mem_stepsText plain (isRoot ▸ by decide)

/-- Two paths of indices and keys without marks have the same text exactly if both or neither have
steps, and these are the same after the empty keys at the beginning. -/
theorem format_eq_format_iff (plain : ∀ step ∈ path, IsPlainStep step)
    (plainOther : ∀ step ∈ other, IsPlainStep step) :
    format path = format other ↔ (path = [] ↔ other = []) ∧
      path.dropWhile (Value.isText "") = other.dropWhile (Value.isText "") := by
  by_cases none : path = [] <;> by_cases noneOther : other = []
  · simp [none, noneOther]
  · subst none
    simp [noneOther, (format_ne_root plainOther noneOther).symm]
  · subst noneOther
    simp [none, format_ne_root plain none]
  · rw [format_of_ne_nil none, format_of_ne_nil noneOther, String.ofList_inj]
    simp only [none, noneOther, true_and]
    constructor
    · intro same
      have begins (path : Path) :
          ∀ step ∈ (path.dropWhile (Value.isText "")).head?, ¬step.isText "" = true := by
        intro step isFirst
        have remains := List.head?_dropWhile_not (Value.isText "") path
        rw [Option.mem_def.mp isFirst] at remains
        exact Bool.eq_false_iff.mp remains
      have kept {path : Path} (plain : ∀ step ∈ path, IsPlainStep step) :
          ∀ step ∈ path.dropWhile (Value.isText ""), IsPlainStep step :=
        fun step isStep => plain step ((List.dropWhile_sublist _).subset isStep)
      apply stepsText_inj (kept plain) (kept plainOther) (begins path) (begins other)
      rw [stepsText_dropWhile plain, stepsText_dropWhile plainOther, same]
    · intro same
      rw [← stepsText_dropWhile plain, same, stepsText_dropWhile plainOther]

/-- An index and a key that is the same number. -/
theorem index_and_key_apart :
    (∀ step ∈ [key "steps", index 2, key ""], IsPlainStep step) ∧
      (∀ step ∈ [key "steps", key "2", key ""], IsPlainStep step) ∧
      format [key "steps", index 2, key ""] ≠ format [key "steps", key "2", key ""] := by
  have steps : IsPlainStep (key "steps") := .key (by simp [marks])
  have number : IsPlainStep (key "2") := .key (by simp [marks])
  have empty : IsPlainStep (key "") := .key (by simp [marks])
  have plain : ∀ step ∈ [key "steps", index 2, key ""], IsPlainStep step := by
    simp [steps, empty, IsPlainStep.index]
  have plainOther : ∀ step ∈ [key "steps", key "2", key ""], IsPlainStep step := by
    simp [steps, number, empty]
  refine ⟨plain, plainOther, fun same => ?_⟩
  obtain ⟨-, same⟩ := (format_eq_format_iff plain plainOther).mp same
  simp [key, index, Value.isText, Value.text?] at same

/-- An empty key before another leaves no trace in the text, and neither does one before itself. -/
theorem empty_keys_lost :
    (∀ step ∈ [key "", key "a"], IsPlainStep step) ∧
      format [key "", key "a"] = format [key "a"] ∧ [key "", key "a"] ≠ [key "a"] ∧
      format [key "", key ""] = format [key ""] ∧ [key "", key ""] ≠ [key ""] := by
  have empty : IsPlainStep (key "") := .key (by simp [marks])
  have letter : IsPlainStep (key "a") := .key (by simp [marks])
  exact ⟨by simp [empty, letter], rfl, by simp, rfl, by simp⟩

end TypedReply.Path
