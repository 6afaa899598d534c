import Mathlib.Tactic.SplitIfs
import TypedReply.Json.Text
import TypedReply.Proofs.Text.Sequences

/-!
# Texts between quotes

A character of a text stands between the quotes as it is, as a letter after a backslash, or as its
code in hexadecimal digits. Each form shows its character and where it ends; none begins with a
quote, and none holds a line feed. A text is therefore known from its characters, and stays on one
line.
-/

namespace TypedReply.Json

open Text

variable {rest last : List Char}

/-- The character that a letter after a backslash stands for. -/
def meant : Char → Char
  | 'n' => '\n'
  | 'r' => '\r'
  | 't' => '\t'
  | 'b' => Char.ofNat 8
  | 'f' => Char.ofNat 12
  | c => c

/-- The forms in which a character stands in a text. -/
inductive IsForm : Char → List Char → Prop where
  | letter (letter : Char) (noCode : letter ≠ 'u') (noFeed : letter ≠ '\n') :
      IsForm (meant letter) ['\\', letter]
  | code {c : Char} (isControl : c.toNat < 0x20) : IsForm c ('\\' :: 'u' :: hexDigits 4 c.toNat)
  | plain {c : Char} (notQuote : c ≠ '"') (notSlash : c ≠ '\\') (noFeed : c ≠ '\n') : IsForm c [c]

theorem isForm_escapedChar (c : Char) : IsForm c (escapedChar c) := by
  unfold escapedChar
  split_ifs with isQuote isSlash isFeed isReturn isTab isBack isPage isControl
  · rw [isQuote]
    exact .letter '"' (by decide) (by decide)
  · rw [isSlash]
    exact .letter '\\' (by decide) (by decide)
  · rw [isFeed]
    exact .letter 'n' (by decide) (by decide)
  · rw [isReturn]
    exact .letter 'r' (by decide) (by decide)
  · rw [isTab]
    exact .letter 't' (by decide) (by decide)
  · rw [isBack]
    exact .letter 'b' (by decide) (by decide)
  · rw [isPage]
    exact .letter 'f' (by decide) (by decide)
  · exact .code isControl
  · exact .plain isQuote isSlash isFeed

/-- The number that a hexadecimal digit stands for. -/
def hexValue (c : Char) : Nat := if c.isDigit then c.toNat - 48 else c.toNat - 87

/-- The character in front of a text between quotes, and what follows it. -/
def readChar : List Char → Option (Char × List Char)
  | '\\' :: 'u' :: a :: b :: c :: d :: rest =>
    some (Char.ofNat (((hexValue a * 16 + hexValue b) * 16 + hexValue c) * 16 + hexValue d), rest)
  | '\\' :: letter :: rest => some (meant letter, rest)
  | c :: rest => some (c, rest)
  | [] => none

theorem readChar_escapedChar (c : Char) (rest : List Char) :
    readChar (escapedChar c ++ rest) = some (c, rest) := by
  have isForm := isForm_escapedChar c
  generalize escapedChar c = form at isForm
  cases isForm with
  | letter letter noCode => simp [readChar, noCode]
  | code isControl =>
      have byCode : ∀ code < 0x20, ((hexValue (hexDigit (code / 16 / 16 / 16 % 16)) * 16 +
          hexValue (hexDigit (code / 16 / 16 % 16))) * 16 + hexValue (hexDigit (code / 16 % 16))) * 16 +
            hexValue (hexDigit (code % 16)) = code := by decide
      simp only [hexDigits, List.nil_append, List.cons_append, readChar, byCode c.toNat isControl,
        Char.ofNat_toNat]
  | plain _ notSlash => simp [readChar, notSlash]

theorem head?_escapedChar (c : Char) (rest : List Char) :
    (escapedChar c ++ rest).head? ≠ some '"' := by
  have isForm := isForm_escapedChar c
  generalize escapedChar c = form at isForm
  cases isForm with
  | letter => simp
  | code => simp
  | plain notQuote => simpa using notQuote

theorem feed_not_mem_escapedChar (c : Char) : '\n' ∉ escapedChar c := by
  have isForm := isForm_escapedChar c
  generalize escapedChar c = form at isForm
  cases isForm with
  | letter letter _ noFeed => simpa using Ne.symm noFeed
  | code isControl =>
      have byCode : ∀ code < 0x20, '\n' ∉ '\\' :: 'u' :: hexDigits 4 code := by decide
      exact byCode c.toNat isControl
  | plain _ _ noFeed => simpa using Ne.symm noFeed

theorem stringText_append_inj {text other : String}
    (same : stringText text ++ rest = stringText other ++ last) : text = other ∧ rest = last := by
  have quoted (text : String) (rest : List Char) : stringText text ++ rest =
      '"' :: (text.toList.flatMap escapedChar ++ '"' :: rest) := by
    simp [stringText]
  rw [quoted, quoted] at same
  obtain ⟨sameChars, sameRest⟩ := @eq_of_flatMap_eq _ _ escapedChar (fun _ => True)
    (fun rest => rest.head? = some '"') _ _ _ _
    (fun c _ d _ rest last _ _ same => by
      have read := congrArg readChar same
      rw [readChar_escapedChar, readChar_escapedChar] at read
      exact Prod.mk.inj (Option.some.inj read))
    (fun c rest => ⟨trivial, head?_escapedChar c rest⟩) (fun _ _ => trivial) rfl rfl
    (List.cons.inj same).2
  exact ⟨String.toList_inj.mp sameChars, (List.cons.inj sameRest).2⟩

theorem feed_not_mem_stringText (text : String) : '\n' ∉ stringText text := by
  simp [stringText, feed_not_mem_escapedChar]

end TypedReply.Json
