import TypedReply.Text.Blank

/-!
# Documentation texts

A documentation text is cleaned for display: tabs are expanded to columns of eight, the indentation
that the later lines share is removed, and empty lines at both ends are dropped.
-/

namespace TypedReply.Text

def tabWidth : Nat := 8

/-- Replaces tabs by blanks up to the next column of eight; `column` is the current one. -/
def expandTabs (column : Nat) : List Char → List Char
  | [] => []
  | c :: rest =>
    if c = '\t' then
      let gap := tabWidth - column % tabWidth
      List.replicate gap ' ' ++ expandTabs (column + gap) rest
    else c :: expandTabs (if c = '\n' ∨ c = '\r' then 0 else column + 1) rest

/-- The lines of a text, which line feeds separate. -/
def lines : List Char → List (List Char)
  | [] => [[]]
  | c :: rest =>
    if c = '\n' then [] :: lines rest
    else
      match lines rest with
      | [] => [[c]]
      | line :: more => (c :: line) :: more

/-- The number of blank characters before the content of a line; none for a line without content. -/
def indentation? (line : List Char) : Option Nat :=
  if line.all isBlank then none else some (line.takeWhile isBlank).length

/-- The indentation that all lines with content share. -/
def sharedIndentation (lines : List (List Char)) : Nat :=
  ((lines.filterMap indentation?).min?).getD 0

def trimLines (lines : List (List Char)) : List (List Char) :=
  ((lines.dropWhile List.isEmpty).reverse.dropWhile List.isEmpty).reverse

/-- A documentation text, cleaned. -/
def cleanDoc (doc : List Char) : List Char :=
  match lines (expandTabs 0 doc) with
  | [] => []
  | first :: later =>
    let margin := sharedIndentation later
    let cleaned := first.dropWhile isBlank :: later.map (List.drop margin)
    ['\n'].intercalate (trimLines cleaned)

end TypedReply.Text
