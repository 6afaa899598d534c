import TypedReply.Proofs.Coerce.Members
import TypedReply.Proofs.Json.Characters
import TypedReply.Proofs.Outcome
import TypedReply.Proofs.Text.Lines
import TypedReply.Proofs.Value.PlainData

/-!
# Lines of JSON texts

No line of a JSON text begins with a backquote, whatever the texts in it hold. A text stands on one line
behind its quote, a number and a word hold no backquote, and what begins a line otherwise is a blank or a
bracket.
-/

namespace TypedReply.Json

open Text

def backquote : Char := '\x60'

/-! ## Numbers -/

theorem backquote_not_mem_decimalDigits (n : Nat) : backquote ∉ decimalDigits n := by
  intro isDigit
  cases Value.isDigit_of_mem_decimalDigits isDigit

theorem backquote_not_mem_zeros (count : Nat) : backquote ∉ zeros count := by
  simp [zeros, backquote]

theorem backquote_not_mem_positionalText {digits : List Char} (absent : backquote ∉ digits)
    (leading : Int) : backquote ∉ positionalText digits leading := by
  have noPoint : backquote ≠ '.' ∧ backquote ≠ '0' := by decide
  have ofTake (count : Nat) : backquote ∉ digits.take count := fun isTaken =>
    absent (List.mem_of_mem_take isTaken)
  have ofDrop (count : Nat) : backquote ∉ digits.drop count := fun isLeft =>
    absent (List.mem_of_mem_drop isLeft)
  unfold positionalText
  split
  · simp [noPoint, backquote_not_mem_zeros, absent]
  · split
    · simp [noPoint, ofTake, ofDrop]
    · simp [noPoint, backquote_not_mem_zeros, absent]

theorem backquote_not_mem_scientificText {digits : List Char} (absent : backquote ∉ digits)
    (leading : Int) : backquote ∉ scientificText digits leading := by
  have marks : backquote ≠ '.' ∧ backquote ≠ 'e' ∧ backquote ≠ '-' ∧ backquote ≠ '+' := by decide
  have noSign : backquote ≠ if leading < 0 then '-' else '+' := by
    split
    · exact marks.2.2.1
    · exact marks.2.2.2
  unfold scientificText
  split
  · simp [marks, noSign, backquote_not_mem_zeros, backquote_not_mem_decimalDigits]
  · simp_all [backquote_not_mem_zeros, backquote_not_mem_decimalDigits]
  · simp_all [backquote_not_mem_zeros, backquote_not_mem_decimalDigits]

theorem backquote_not_mem_text (d : Decimal) : backquote ∉ d.text := by
  have digits := backquote_not_mem_decimalDigits d.digits
  unfold Decimal.text
  simp only
  split
  · exact backquote_not_mem_positionalText digits _
  · exact backquote_not_mem_scientificText digits _

theorem backquote_not_mem_textWith (x : Double) : backquote ∉ x.textWith floatWords := by
  have noSign (negative : Bool) : backquote ∉ if negative then ['-'] else [] := by
    cases negative <;> decide
  cases x with
  | nan => decide
  | infinite negative =>
      simp only [Double.textWith, List.mem_append, not_or]
      exact ⟨noSign negative, by decide⟩
  | finite negative code =>
      simp only [Double.textWith, List.mem_append, not_or]
      refine ⟨noSign negative, ?_⟩
      split
      · decide
      · exact backquote_not_mem_text _

theorem backquote_not_mem_integerText (n : Int) : backquote ∉ integerText n := by
  have noSign : backquote ∉ if n < 0 then ['-'] else [] := by
    split <;> decide
  simp only [integerText, List.mem_append, not_or]
  exact ⟨noSign, backquote_not_mem_decimalDigits _⟩

/-! ## Scalars and keys -/

theorem noLineBegins_stringText (text : String) : NoLineBegins backquote (stringText text) :=
  noLineBegins_of_line (feed_not_mem_stringText text) (by simp [stringText, backquote])

theorem noLineBegins_scalarText {value : Value} {text : List Char}
    (isText : scalarText? value = some text) : NoLineBegins backquote text := by
  unfold scalarText? at isText
  split at isText
  · cases isText
    exact noLineBegins_of_not_mem (by decide)
  next b =>
    cases isText
    exact noLineBegins_of_not_mem (by cases b <;> decide)
  · cases isText
    exact noLineBegins_of_not_mem (backquote_not_mem_textWith _)
  · split at isText
    · cases isText
      exact noLineBegins_stringText _
    · cases isText
      exact noLineBegins_of_not_mem (backquote_not_mem_integerText _)
    · cases isText

theorem meets_keyText (key : Value) :
    Meets (keyText key) (NoLineBegins backquote) fun _ => True := by
  have quote : NoLineBegins backquote ['"'] := noLineBegins_of_not_mem (by decide)
  unfold keyText
  split
  next text _ => exact noLineBegins_stringText text
  next =>
    split
    next text isText => exact (quote.append (noLineBegins_scalarText isText)).append quote
    next => exact trivial

/-! ## Values -/

variable {style : Style}

theorem noLineBegins_lineBreak (style : Style) (depth : Nat) :
    NoLineBegins backquote (style.lineBreak depth) := by
  rw [Style.lineBreak]
  split
  · apply noLineBegins_of_not_mem
    simp [backquote]
  · exact .singleton _

theorem noLineBegins_intercalate {separator : List Char} (clear : NoLineBegins backquote separator)
    {parts : List (List Char)} (each : ∀ part ∈ parts, NoLineBegins backquote part) :
    NoLineBegins backquote (separator.intercalate parts) := by
  induction parts with
  | nil => exact .singleton _
  | cons part parts ih =>
      obtain ⟨first, others⟩ := List.forall_mem_cons.mp each
      cases parts with
      | nil => simpa using first
      | cons next parts =>
          rw [List.intercalate_cons_cons]
          exact (first.append clear).append (ih others)

theorem noLineBegins_enclose (comma : NoLineBegins backquote style.comma) (depth : Nat)
    {left right : Char} (isLeft : left ≠ backquote) (isRight : right ≠ backquote)
    {parts : List (List Char)} (each : ∀ part ∈ parts, NoLineBegins backquote part) :
    NoLineBegins backquote (style.enclose depth left right parts) := by
  have single {c : Char} (other : c ≠ backquote) : NoLineBegins backquote [c] :=
    noLineBegins_of_not_mem (by simpa using Ne.symm other)
  have inner := noLineBegins_lineBreak style (depth + 1)
  rw [Style.enclose]
  split
  · exact (single isLeft).append (single isRight)
  · exact (single isLeft).append
      (((inner.append (noLineBegins_intercalate (comma.append inner) each)).append
      (noLineBegins_lineBreak style depth)).append (single isRight))

theorem meets_write (unsorted : style.sortKeys = false) (comma : NoLineBegins backquote style.comma)
    (colon : NoLineBegins backquote style.colon) (value : Value) (depth : Nat) :
    Meets (write style depth value) (NoLineBegins backquote) fun _ => True := by
  induction value using Value.induction_contents generalizing depth with
  | step value parts =>
      cases value with
      | list items | tuple items =>
          rw [write, writeItems_eq_mapM]
          apply (Meets.mapM fun item isItem => parts item isItem (depth + 1)).bind
          exact fun texts areClear => noLineBegins_enclose comma depth (by decide) (by decide) areClear
      | object entries =>
          simp only [write, unsorted, Bool.false_eq_true, if_false, writeEntries_eq_map]
          have areClear : Meets
            ((entries.map fun entry => (entry.1, write style (depth + 1) entry.2)).mapM
              fun entry => do .ok ((← keyText entry.1) ++ style.colon ++ (← entry.2)))
              (fun texts => ∀ text ∈ texts, NoLineBegins backquote text) fun _ => True := by
            apply Meets.mapM
            refine List.forall_mem_map.mpr fun entry isEntry => ?_
            have isPart := Value.mem_contents_object.mpr ⟨entry, isEntry, .inr rfl⟩
            apply (meets_keyText entry.1).bind
            intro key isKey
            apply (parts entry.2 isPart (depth + 1)).bind
            exact fun body isBody => (isKey.append colon).append isBody
          apply areClear.bind
          exact fun texts areClear => noLineBegins_enclose comma depth (by decide) (by decide) areClear
      | _ =>
          simp only [write]
          split
          next text isText => exact noLineBegins_scalarText isText
          next => exact trivial

/-- No line of a JSON text that is laid out for readers begins with a backquote. -/
theorem no_line_begins_with_backquote {indent : Nat} {value : Value} {written : String}
    (isText : text (pretty indent) value = .ok written) {line : String}
    (isLine : line ∈ linesOf written) : line.toList.head? ≠ some backquote := by
  obtain ⟨chars, isWritten, rfl⟩ := map_eq_ok_iff.mp isText
  have clear : NoLineBegins backquote [','] ∧ NoLineBegins backquote [':', ' '] :=
    ⟨noLineBegins_of_not_mem (by decide), noLineBegins_of_not_mem (by decide)⟩
  have meets := @meets_write (pretty indent) rfl clear.1 clear.2 value 0
  rw [isWritten, meets_ok] at meets
  rw [linesOf, String.toList_ofList] at isLine
  obtain ⟨chars, isChars, rfl⟩ := List.mem_map.mp isLine
  rw [String.toList_ofList]
  exact meets.head?_ne_of_mem isChars

end TypedReply.Json
