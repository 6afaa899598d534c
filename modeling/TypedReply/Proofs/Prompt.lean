import TypedReply.Prompt
import TypedReply.Proofs.Json.Lines

/-!
# Blocks of a prompt

A reader of a prompt finds the pieces of JSON by line: a block goes from the line after an opening
fence to the line before the next closing one. What is found are the pieces that were embedded, in
order, whatever the texts in them hold, for no line of a piece is a fence and no other line opens a
block.
-/

namespace TypedReply.Prompt

open Text

/-! ## Reading -/

/-- How far a prompt is read. -/
structure Reader where
  /-- The blocks that are closed. -/
  blocks : List String
  /-- The lines of the block that is open, if one is. -/
  opened : Option (List String)

/-- A line opens a block, closes the one that is open, belongs to it, or stands between blocks. -/
def Reader.read (reader : Reader) (line : String) : Reader :=
  match reader.opened with
  | none => if line = openFence then { reader with opened := some [] } else reader
  | some lines =>
    if line = closeFence then ⟨reader.blocks ++ ["\n".intercalate lines], none⟩
    else { reader with opened := some (lines ++ [line]) }

def blocksOf (text : String) : List String := ((linesOf text).foldl Reader.read ⟨[], none⟩).blocks

/-- Whether certain blocks are read from certain pieces. -/
def ReadsAs (pieces blocks : List String) : Prop :=
  ∀ done, (pieces.flatMap linesOf).foldl Reader.read ⟨done, none⟩ = ⟨done ++ blocks, none⟩

variable {pieces more blocks others : List String}

theorem ReadsAs.append (reads : ReadsAs pieces blocks) (readsMore : ReadsAs more others) :
    ReadsAs (pieces ++ more) (blocks ++ others) := by
  intro done
  rw [List.flatMap_append, List.foldl_append, reads, readsMore, List.append_assoc]

theorem ReadsAs.append_none (reads : ReadsAs pieces blocks) (readsNone : ReadsAs more []) :
    ReadsAs (pieces ++ more) blocks := by
  simpa using reads.append readsNone

/-- Whether a piece is a line that opens no block. -/
def IsPlainLine (piece : String) : Prop := '\n' ∉ piece.toList ∧ piece ≠ openFence

instance (piece : String) : Decidable (IsPlainLine piece) := inferInstanceAs (Decidable (_ ∧ _))

theorem isPlainLine_ofList {line : List Char} (single : '\n' ∉ line)
    (begins : line.head? ≠ some Json.backquote) : IsPlainLine (String.ofList line) := by
  rw [IsPlainLine, String.toList_ofList]
  refine ⟨single, fun isFence => begins ?_⟩
  rw [← String.toList_ofList (l := line), isFence]
  rfl

theorem isPlainLine_append {label text : String} (isLine : '\n' ∉ label.toList)
    (begins : ∃ c ∈ label.toList.head?, c ≠ Json.backquote) (single : '\n' ∉ text.toList) :
    IsPlainLine (label ++ text) := by
  rw [← String.ofList_toList (s := label ++ text), String.toList_append]
  apply isPlainLine_ofList
  · rw [List.mem_append, not_or]
    exact ⟨isLine, single⟩
  · obtain ⟨c, isFirst, noFence⟩ := begins
    rw [List.head?_append, Option.mem_def.mp isFirst, Option.some_or]
    exact noFence ∘ Option.some.inj

theorem readsAs_plain (each : ∀ piece ∈ pieces, IsPlainLine piece) : ReadsAs pieces [] := by
  intro done
  rw [List.append_nil]
  induction pieces with
  | nil => rfl
  | cons piece pieces ih =>
      obtain ⟨⟨single, noFence⟩, rest⟩ := List.forall_mem_cons.mp each
      rw [List.flatMap_cons, linesOf_of_not_mem single, List.singleton_append, List.foldl_cons,
        Reader.read]
      simp only [noFence, if_false]
      exact ih rest

theorem foldl_read_inside {lines : List String} (inside : ∀ line ∈ lines, line ≠ closeFence)
    (done taken : List String) : lines.foldl Reader.read ⟨done, some taken⟩ =
      ⟨done, some (taken ++ lines)⟩ := by
  induction lines generalizing taken with
  | nil => simp
  | cons line lines ih =>
      obtain ⟨isInside, rest⟩ := List.forall_mem_cons.mp inside
      rw [List.foldl_cons, Reader.read]
      simp only [isInside, if_false]
      rw [ih rest, List.append_assoc, List.singleton_append]

theorem readsAs_fenced {json : String} (inside : ∀ line ∈ linesOf json, line ≠ closeFence) :
    ReadsAs (fenced json) [json] := by
  have fences : linesOf openFence = [openFence] ∧ linesOf closeFence = [closeFence] :=
    ⟨linesOf_of_not_mem (by decide), linesOf_of_not_mem (by decide)⟩
  intro done
  rw [fenced, List.flatMap_cons, List.flatMap_cons, List.flatMap_singleton, fences.1, fences.2,
    List.singleton_append, List.foldl_cons, List.foldl_append]
  have opened : Reader.read ⟨done, none⟩ openFence = ⟨done, some []⟩ := by simp [Reader.read]
  rw [opened, foldl_read_inside inside]
  simp [Reader.read, intercalate_linesOf]

theorem readsAs_pretty {value : Value} {json : String} (isText : pretty value = .ok json) :
    ReadsAs (fenced json) [json] := by
  apply readsAs_fenced
  rintro line isLine rfl
  exact Json.no_line_begins_with_backquote isText isLine (by decide)

theorem readsAs_prettyPlain {value : Value} {json : String} (isText : prettyPlain value = .ok json) :
    ReadsAs (fenced json) [json] := by
  obtain ⟨plain, -, isText⟩ := bind_eq_ok_iff.mp isText
  exact readsAs_pretty isText

/-! ## Writing -/

/-- The pieces of JSON that a prompt embeds, in order. -/
def embedded (inputSchema outputSchema inputValues : Value) (examples : List (Value × Value)) :
    List (Outcome String) :=
  [pretty inputSchema, pretty outputSchema] ++
    examples.flatMap (fun (input, output) => [prettyPlain input, prettyPlain output]) ++
    [prettyPlain inputValues]

/-- Both outcomes are related values, or one and the same failure. -/
inductive EndsAlike {α β : Type} (related : α → β → Prop) : Outcome α → Outcome β → Prop where
  | returned {value : α} {other : β} (isRelated : related value other) :
      EndsAlike related (.ok value) (.ok other)
  | failed (failure : Failure) : EndsAlike related (.error failure) (.error failure)

namespace EndsAlike

variable {α β γ δ : Type} {related : α → β → Prop} {implied : γ → δ → Prop}
variable {outcome : Outcome α} {other : Outcome β}

theorem self (outcome : Outcome α) :
    EndsAlike (fun value other => value = other ∧ outcome = .ok value) outcome outcome := by
  cases outcome with
  | ok value => exact .returned ⟨rfl, rfl⟩
  | error failure => exact .failed failure

theorem bind (alike : EndsAlike related outcome other) {next : α → Outcome γ}
    {nextOther : β → Outcome δ} (rest : ∀ value other, related value other →
      EndsAlike implied (next value) (nextOther other)) :
    EndsAlike implied (outcome >>= next) (other >>= nextOther) := by
  cases alike with
  | returned isRelated => exact rest _ _ isRelated
  | failed failure => exact .failed failure

theorem map_left (alike : EndsAlike related outcome other) {image : α → γ} {implied : γ → β → Prop}
    (rest : ∀ value other, related value other → implied (image value) other) :
    EndsAlike implied (outcome.map image) other := by
  cases alike with
  | returned isRelated => exact .returned (rest _ _ isRelated)
  | failed failure => exact .failed failure

theorem eq {outcome other : Outcome α} (alike : EndsAlike Eq outcome other) : outcome = other := by
  cases alike with
  | returned same => rw [same]
  | failed failure => rfl

end EndsAlike

theorem exampleLines_readsAs (number : Nat) (input output : Value) :
    EndsAlike ReadsAs (exampleLines number input output)
      ([prettyPlain input, prettyPlain output].mapM id) := by
  have heading : ReadsAs ["### Example " ++ Value.natText number, "Input:"] [] := by
    have digits : '\n' ∉ (Value.natText number).toList := by
      rw [Value.natText, String.toList_ofList]
      intro isDigit
      cases Value.isDigit_of_mem_decimalDigits isDigit
    have isNumber : IsPlainLine ("### Example " ++ Value.natText number) :=
      isPlainLine_append (by decide) ⟨'#', by decide, by decide⟩ digits
    exact readsAs_plain (List.forall_mem_cons.mpr ⟨isNumber, by decide⟩)
  have label : ReadsAs ["Output:"] [] := readsAs_plain (by decide)
  have gap : ReadsAs [""] [] := readsAs_plain (by decide)
  simp only [exampleLines, List.mapM_cons, List.mapM_nil, id, pure_bind, bind_assoc]
  apply (EndsAlike.self (prettyPlain input)).bind
  rintro shownInput _ ⟨rfl, isInput⟩
  apply (EndsAlike.self (prettyPlain output)).bind
  rintro shownOutput _ ⟨rfl, isOutput⟩
  exact .returned ((((heading.append (readsAs_prettyPlain isInput)).append_none label).append
    (readsAs_prettyPlain isOutput)).append_none gap)

theorem examplesFrom_readsAs (number : Nat) (examples : List (Value × Value)) :
    EndsAlike ReadsAs (examplesFrom number examples)
      ((examples.flatMap fun (input, output) => [prettyPlain input, prettyPlain output]).mapM id) := by
  induction examples generalizing number with
  | nil => exact .returned (readsAs_plain (List.forall_mem_nil _))
  | cons pair examples ih =>
      obtain ⟨input, output⟩ := pair
      rw [examplesFrom, List.flatMap_cons, List.mapM_append]
      apply (exampleLines_readsAs number input output).bind
      intro lines blocks reads
      apply (ih (number + 1)).bind
      intro more others readsMore
      exact .returned (reads.append readsMore)

theorem exampleSection_readsAs (examples : List (Value × Value)) :
    EndsAlike ReadsAs (exampleSection examples)
      ((examples.flatMap fun (input, output) => [prettyPlain input, prettyPlain output]).mapM id) := by
  have heading : ReadsAs ["", "Here are some examples:", ""] [] := readsAs_plain (by decide)
  cases examples with
  | nil => exact .returned (readsAs_plain (List.forall_mem_nil _))
  | cons pair examples =>
      exact (examplesFrom_readsAs 1 (pair :: examples)).map_left fun _ _ reads => heading.append reads

theorem blocksOf_intercalate (reads : ReadsAs pieces blocks) (nonempty : pieces ≠ []) :
    blocksOf ("\n".intercalate pieces) = blocks := by
  rw [blocksOf, linesOf_intercalate nonempty, reads [], List.nil_append]

/-- The blocks of a prompt are the pieces of JSON that it embeds, in order and with nothing else. -/
theorem blocks_of_build (instruction : String) (single : '\n' ∉ instruction.toList)
    (inputSchema outputSchema inputValues : Value) (examples : List (Value × Value)) :
    (build instruction inputSchema outputSchema inputValues examples).map blocksOf =
      (embedded inputSchema outputSchema inputValues examples).mapM id := by
  have inputLabel : ReadsAs ["Your input schema fields are:"] [] := readsAs_plain (by decide)
  have outputLabel : ReadsAs ["", "Your output schema fields are:"] [] := readsAs_plain (by decide)
  have gap : ReadsAs [""] [] := readsAs_plain (by decide)
  have ruleLines : ReadsAs rules [] := by
    apply readsAs_plain
    simp only [rules, List.forall_mem_cons]
    exact ⟨isPlainLine_ofList (by decide) (by decide), isPlainLine_ofList (by decide) (by decide),
      isPlainLine_ofList (by decide) (by decide), isPlainLine_ofList (by decide) (by decide),
      List.forall_mem_nil _⟩
  have objective : IsPlainLine ("Your objective is: " ++ instruction) :=
    isPlainLine_append (by decide) ⟨'Y', by decide, by decide⟩ single
  have valuesLabel : ReadsAs ["", "Your objective is: " ++ instruction, "", "## Input Values"] [] :=
    readsAs_plain (List.forall_mem_cons.mpr ⟨by decide, List.forall_mem_cons.mpr ⟨objective, by decide⟩⟩)
  have alike : EndsAlike (fun text blocks => blocksOf text = blocks)
      (build instruction inputSchema outputSchema inputValues examples)
      ((embedded inputSchema outputSchema inputValues examples).mapM id) := by
    simp only [build, embedded, List.mapM_append, List.mapM_cons, List.mapM_nil, id,
      pure_bind, bind_assoc]
    apply (EndsAlike.self (pretty inputSchema)).bind
    rintro input _ ⟨rfl, isInput⟩
    apply (EndsAlike.self (pretty outputSchema)).bind
    rintro output _ ⟨rfl, isOutput⟩
    apply (exampleSection_readsAs examples).bind
    intro shown blocks reads
    apply (EndsAlike.self (prettyPlain inputValues)).bind
    rintro values _ ⟨rfl, isValues⟩
    apply EndsAlike.returned
    apply blocksOf_intercalate _ (by simp)
    have schemas := ((inputLabel.append (readsAs_pretty isInput)).append_none outputLabel).append
      (readsAs_pretty isOutput)
    exact ((((schemas.append_none gap).append_none ruleLines).append reads).append_none
      valuesLabel).append
      (readsAs_prettyPlain isValues)
  exact EndsAlike.eq (alike.map_left fun _ _ same => same)

/-- Fences in the instruction, in an example and in the input values open and close no block. -/
theorem blocks_of_build_fences : '\n' ∉ "Write ```json".toList ∧
    (build "Write ```json" (.ofFields []) (.ofFields []) (.list [.str "```\n"])
      [(.str "\n```\n```json\n", .null)]).map blocksOf =
        .ok ["\x7b\x7d", "\x7b\x7d", "\"\\n```\\n```json\\n\"", "null", "[\n  \"```\\n\"\n]"] :=
  ⟨by decide, (blocks_of_build _ (by decide) _ _ _ _).trans (by rfl)⟩

end TypedReply.Prompt
