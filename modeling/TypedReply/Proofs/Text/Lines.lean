import Mathlib.Data.List.Chain

/-!
# Lines of a text

The lines of a text are what stands between its line feeds. Pieces that are joined by line feeds keep
their lines, and texts none of whose lines begin with a mark can be put one after another without making
such a line.
-/

namespace TypedReply.Text

def linesOf (text : String) : List String := (text.toList.splitOn '\n').map String.ofList

theorem linesOf_of_not_mem {text : String} (single : '\n' ∉ text.toList) : linesOf text = [text] := by
  rw [linesOf, List.splitOn_eq_singleton single, List.map_singleton, String.ofList_toList]

theorem intercalate_linesOf (text : String) : "\n".intercalate (linesOf text) = text := by
  apply String.toList_inj.mp
  rw [String.toList_intercalate, linesOf, List.map_map]
  have lines : (text.toList.splitOn '\n').map (String.toList ∘ String.ofList) =
      text.toList.splitOn '\n' := by
    simp
  rw [lines]
  exact List.intercalate_splitOn '\n'

theorem linesOf_intercalate {pieces : List String} (nonempty : pieces ≠ []) :
    linesOf ("\n".intercalate pieces) = pieces.flatMap linesOf := by
  induction pieces with
  | nil => exact absurd rfl nonempty
  | cons piece pieces ih =>
      cases pieces with
      | nil => simp
      | cons next pieces =>
          have rest := ih (List.cons_ne_nil _ _)
          rw [List.flatMap_cons, ← rest]
          simp only [linesOf, String.toList_intercalate, List.map_cons, List.intercalate_cons_cons]
          rw [← List.map_append, List.append_assoc]
          exact congrArg _ (List.splitOn_append_cons_self _ _)

/-! ## Marks -/

def NoLineBegins (mark : Char) (text : List Char) : Prop :=
  ('\n' :: text).IsChain fun c next => c = '\n' → next ≠ mark

variable {mark : Char} {text other : List Char}

theorem NoLineBegins.head?_ne (clear : NoLineBegins mark text) : text.head? ≠ some mark := by
  intro isFirst
  obtain ⟨rest, rfl⟩ := List.head?_eq_some_iff.mp isFirst
  exact (List.isChain_cons_cons.mp clear).1 rfl rfl

theorem NoLineBegins.append (clear : NoLineBegins mark text) (clearOther : NoLineBegins mark other) :
    NoLineBegins mark (text ++ other) := by
  rw [NoLineBegins, ← List.cons_append, List.isChain_append]
  refine ⟨clear, clearOther.tail, fun _ _ next isNext _ isMark => ?_⟩
  exact clearOther.head?_ne (isNext.trans (congrArg some isMark))

theorem noLineBegins_of_not_mem (absent : mark ∉ text) : NoLineBegins mark text := by
  induction text with
  | nil => exact .singleton _
  | cons c text ih =>
      rw [List.mem_cons, not_or] at absent
      have first : NoLineBegins mark [c] :=
        List.isChain_pair.mpr fun _ => Ne.symm absent.1
      exact first.append (ih absent.2)

theorem noLineBegins_of_line (single : '\n' ∉ text) (begins : text.head? ≠ some mark) :
    NoLineBegins mark text := by
  have inside (text : List Char) (single : '\n' ∉ text) :
      text.IsChain fun c next => c = '\n' → next ≠ mark := by
    induction text with
    | nil => exact .nil
    | cons c text ih =>
        rw [List.mem_cons, not_or] at single
        exact List.isChain_cons.mpr ⟨fun _ _ isFeed => (single.1 isFeed.symm).elim, ih single.2⟩
  refine List.isChain_cons.mpr ⟨fun next isNext _ isMark => ?_, inside text single⟩
  exact begins (isNext.trans (congrArg some isMark))

theorem NoLineBegins.head?_ne_of_mem (clear : NoLineBegins mark text) {line : List Char}
    (isLine : line ∈ text.splitOn '\n') : line.head? ≠ some mark := by
  induction size : text.length using Nat.strongRecOn generalizing text with
  | ind size ih =>
      subst size
      by_cases several : '\n' ∈ text
      · obtain ⟨front, rest, rfl, single⟩ := List.eq_append_cons_of_mem several
        obtain ⟨isFront, isRest⟩ := (@List.isChain_split _ _ '\n' ('\n' :: front) rest).mp clear
        rw [List.splitOn_append_cons_self, List.splitOn_eq_singleton single, List.mem_append,
          List.mem_singleton] at isLine
        rcases isLine with rfl | isLater
        · exact NoLineBegins.head?_ne isFront.left_of_append
        · exact ih rest.length (by simp; omega) isRest isLater rfl
      · rw [List.splitOn_eq_singleton several, List.mem_singleton] at isLine
        rw [isLine]
        exact clear.head?_ne

end TypedReply.Text
