import Mathlib.Data.List.TakeWhile
import TypedReply.Naming
import TypedReply.Proofs.Text.LowerCase

/-!
# Words in names

A word begins with a capital after a small letter or a digit, and with the last capital of several
before a small letter. Whether one begins at a place is seen from the characters beside the place, so
that the capitals that are set off in one pass through the name and those that are set off in another
are set off independently. The patterns by which the passes can be described take several characters
at once, of which no match needs those of another.
-/

namespace TypedReply.Naming

open Text

/-! ## Places -/

/-- Whether a word begins at a place. -/
def beginsWord (name : List Char) : Nat → Bool
  | 0 => false
  | before + 1 =>
    name[before]?.any endsWord && name[before + 1]?.any Char.isUpper ||
      name[before]?.any Char.isUpper && name[before + 1]?.any Char.isUpper &&
        name[before + 2]?.any Char.isLower

/-- A name with an underscore before each place at which a word begins. -/
def setOff (name : List Char) : List Char :=
  name.zipIdx.flatMap fun (c, place) => if beginsWord name place then ['_', c] else [c]

/-- A text with an underscore before each character that a rule marks, by the characters beside it. -/
def marked (rule : Option Char → Char → Option Char → Bool) : Option Char → List Char → List Char
  | _, [] => []
  | before, c :: rest =>
    if rule before c rest.head? then '_' :: c :: marked rule (some c) rest
    else c :: marked rule (some c) rest

/-- The last capital of several before a small letter. -/
def endsAcronym (before : Option Char) (c : Char) (next : Option Char) : Bool :=
  before.any Char.isUpper && c.isUpper && next.any Char.isLower

def followsWord (before : Option Char) (c : Char) (_ : Option Char) : Bool :=
  before.any endsWord && c.isUpper

def startsWord (before : Option Char) (c : Char) (next : Option Char) : Bool :=
  followsWord before c next || endsAcronym before c next

section Marks

variable {rule : Option Char → Char → Option Char → Bool} {before : Option Char} {c : Char}
variable {rest : List Char}

theorem marked_of_rule (isMarked : rule before c rest.head? = true) :
    marked rule before (c :: rest) = '_' :: c :: marked rule (some c) rest := by
  rw [marked, if_pos isMarked]

theorem marked_of_not_rule (unmarked : rule before c rest.head? = false) :
    marked rule before (c :: rest) = c :: marked rule (some c) rest := by
  rw [marked, if_neg (Bool.eq_false_iff.mp unmarked)]

theorem marked_congr {other : Option Char} (same : ∀ c next, rule before c next = rule other c next) :
    marked rule before rest = marked rule other rest := by
  cases rest with
  | nil => rfl
  | cons c rest => rw [marked, marked, same]

theorem marked_eq_self (unmarked : ∀ c ∈ rest, ∀ before next, rule before c next = false) :
    marked rule before rest = rest := by
  induction rest generalizing before with
  | nil => rfl
  | cons c rest ih =>
      obtain ⟨isFirst, others⟩ := List.forall_mem_cons.mp unmarked
      rw [marked_of_not_rule (isFirst before _), ih others]

end Marks

variable {before : Option Char} {c d : Char} {text : List Char}

theorem not_endsWord_of_isUpper (isUpper : c.isUpper = true) : endsWord c = false := by
  have apart : ∀ start ∈ digitZeros, start + 10 ≤ 0x41 ∨ 0x5A < start := by decide
  have bounds := isUpper_iff.mp isUpper
  rw [endsWord, Bool.or_eq_false_iff]
  constructor
  · rw [Bool.eq_false_iff, ne_eq, isLower_iff]
    omega
  · rw [isDecimalDigit, Option.isSome_eq_false_iff, Option.isNone_iff_eq_none, digitValue?,
      Option.map_eq_none_iff, List.find?_eq_none]
    intro start isZero
    have away := apart start isZero
    simp only [Bool.and_eq_true, decide_eq_true_eq]
    omega

theorem not_isUpper_of_isLower (isLower : c.isLower = true) : c.isUpper = false := by
  rw [Bool.eq_false_iff]
  intro isUpper
  have outside := not_endsWord_of_isUpper isUpper
  rw [endsWord, isLower] at outside
  cases outside

/-! ## Passes -/

theorem splitAcronyms_eq_marked (text : List Char) :
    splitAcronyms text = marked endsAcronym none text := by
  induction text using splitAcronyms.induct with
  | case1 a b c rest isMatch ih =>
      have isMarked : endsAcronym (some a) b (c :: rest).head? = true := isMatch
      have notUpper := not_isUpper_of_isLower (Bool.and_eq_true_iff.mp isMatch).2
      have unmarked : endsAcronym (some b) c rest.head? = false := by simp [endsAcronym, notUpper]
      have afresh : marked endsAcronym (some c) rest = marked endsAcronym none rest :=
        marked_congr fun d next => by simp [endsAcronym, notUpper]
      rw [splitAcronyms, if_pos isMatch, ih, marked_of_not_rule rfl, marked_of_rule isMarked,
        marked_of_not_rule unmarked, afresh]
  | case2 a b c rest noMatch ih =>
      have unmarked : endsAcronym (some a) b (c :: rest).head? = false := Bool.eq_false_iff.mpr noMatch
      have alone (d : Char) (rest : List Char) : endsAcronym none d rest.head? = false := rfl
      rw [splitAcronyms, if_neg noMatch, ih, marked_of_not_rule (alone a _),
        marked_of_not_rule (alone b _), marked_of_not_rule unmarked]
  | case3 text short =>
      match text, short with
      | [], _ => rfl
      | [_], _ => rfl
      | [a, b], _ =>
        have unmarked : endsAcronym (some a) b [].head? = false := by simp [endsAcronym]
        rw [marked_of_not_rule rfl, marked_of_not_rule unmarked]
        rfl
      | a :: b :: c :: rest, short => exact (short a b c rest rfl).elim

theorem splitWords_eq_marked (text : List Char) :
    splitWords text = marked followsWord none text := by
  induction text using splitWords.induct with
  | case1 a b rest isMatch ih =>
      have isMarked : followsWord (some a) b rest.head? = true := isMatch
      have notEnd := not_endsWord_of_isUpper (Bool.and_eq_true_iff.mp isMatch).2
      have afresh : marked followsWord (some b) rest = marked followsWord none rest :=
        marked_congr fun d next => by simp [followsWord, notEnd]
      rw [splitWords, if_pos isMatch, ih, marked_of_not_rule rfl, marked_of_rule isMarked, afresh]
  | case2 a b rest noMatch ih =>
      have unmarked : followsWord (some a) b rest.head? = false := Bool.eq_false_iff.mpr noMatch
      have alone (d : Char) (rest : List Char) : followsWord none d rest.head? = false := rfl
      rw [splitWords, if_neg noMatch, ih, marked_of_not_rule (alone a _),
        marked_of_not_rule (alone b _), marked_of_not_rule unmarked]
  | case3 text short =>
      match text, short with
      | [], _ => rfl
      | [_], _ => rfl
      | a :: b :: rest, short => exact (short a b rest rfl).elim

theorem marked_marked (before : Option Char) (text : List Char) :
    marked followsWord before (marked endsAcronym before text) = marked startsWord before text := by
  have underscore : endsWord '_' = false ∧ '_'.isUpper = false := by decide
  induction text generalizing before with
  | nil => rfl
  | cons c rest ih =>
      cases isLast : endsAcronym before c rest.head? with
      | true =>
          have isFirst : startsWord before c rest.head? = true := by simp [startsWord, isLast]
          rw [marked_of_rule isLast, marked_of_rule isFirst, marked_of_not_rule, marked_of_not_rule, ih]
          · simp [followsWord, underscore.1]
          · simp [followsWord, underscore.2]
      | false =>
          have isEither : startsWord before c rest.head? =
              followsWord before c (marked endsAcronym (some c) rest).head? := by
            simp [startsWord, isLast, followsWord]
          rw [marked_of_not_rule isLast, marked, ih, marked, isEither]

theorem beginsWord_append (front : List Char) (c : Char) (rest : List Char) :
    beginsWord (front ++ c :: rest) front.length = startsWord front.getLast? c rest.head? := by
  rcases List.eq_nil_or_concat front with rfl | ⟨front, before, rfl⟩
  · rfl
  · rw [List.concat_eq_append]
    simp only [List.append_assoc, List.singleton_append, List.length_append, List.length_singleton,
      List.getLast?_append, List.getLast?_singleton, Option.some_or]
    have behind (more : Nat) : (front ++ before :: c :: rest)[front.length + more]? =
        (before :: c :: rest)[more]? := by
      rw [List.getElem?_append_right (Nat.le_add_right _ _), Nat.add_sub_cancel_left]
    have isBefore := behind 0
    have isPlace := behind 1
    have isNext := behind 2
    rw [Nat.add_zero] at isBefore
    rw [beginsWord, isBefore, isPlace, isNext]
    cases rest with
    | nil => rfl
    | cons d rest => rfl

theorem setOff_eq_marked (name : List Char) : setOff name = marked startsWord none name := by
  have from_place (front rest : List Char) : ((rest.zipIdx front.length).flatMap fun (c, place) =>
      if beginsWord (front ++ rest) place then ['_', c] else [c]) =
        marked startsWord front.getLast? rest := by
    induction rest generalizing front with
    | nil => rfl
    | cons c rest ih =>
        have others := ih (front ++ [c])
        rw [List.append_assoc, List.singleton_append, List.length_append, List.length_singleton,
          List.getLast?_concat] at others
        simp only [List.zipIdx_cons, List.flatMap_cons, others, beginsWord_append, marked]
        split
        · rfl
        · rfl
  exact from_place [] name

/-! ## Patterns -/

/-- A text with an underscore between the two parts of each match of a pattern. Matches are searched from
left to right, each from the end of the one before it. -/
def separated (pattern : List Char → Option (List Char × List Char)) : List Char → List Char
  | [] => []
  | c :: rest =>
    match pattern (c :: rest) with
    | some (first, second) => first ++ '_' :: (second ++
        separated pattern (rest.drop (first.length + second.length - 1)))
    | none => c :: separated pattern rest
termination_by text => text.length
decreasing_by
  · rw [List.length_drop, List.length_cons]
    omega
  · exact Nat.lt_succ_self _

/-- One or more capitals, then a capital and a small letter. As many capitals are taken as there are,
and given back one by one until the rest matches. -/
def acronymPattern (text : List Char) : Option (List Char × List Char) :=
  (List.range (text.takeWhile Char.isUpper).length).reverse.findSome? fun more =>
    match text.drop (more + 1) with
    | capital :: small :: _ =>
      if capital.isUpper && small.isLower then some (text.take (more + 1), [capital, small]) else none
    | _ => none

/-- A small letter or a digit, then a capital. -/
def wordPattern : List Char → Option (List Char × List Char)
  | before :: capital :: _ =>
    if endsWord before && capital.isUpper then some ([before], [capital]) else none
  | _ => none

/-- What is found is one or more capitals, then a capital and a small letter. -/
theorem exists_of_acronymPattern {first second : List Char}
    (found : acronymPattern (c :: text) = some (first, second)) : ∃ capital small rest,
      (∀ d ∈ first, d.isUpper = true) ∧ capital.isUpper = true ∧ small.isLower = true ∧
        second = [capital, small] ∧ ∃ others, first = c :: others ∧
          text = others ++ capital :: small :: rest := by
  obtain ⟨more, isCount, found⟩ := List.exists_of_findSome?_eq_some found
  split at found
  next capital small rest isRest =>
    split at found
    next matched =>
      obtain ⟨rfl, rfl⟩ := Prod.mk.inj (Option.some.inj found)
      rw [Bool.and_eq_true] at matched
      rw [List.mem_reverse, List.mem_range] at isCount
      have isFront : (c :: text).take (more + 1) <+: (c :: text).takeWhile Char.isUpper := by
        apply List.prefix_of_prefix_length_le (List.take_prefix _ _) (List.takeWhile_prefix _)
        exact Nat.le_trans (List.length_take_le _ _) isCount
      refine ⟨capital, small, rest, ?_, matched.1, matched.2, rfl, text.take more, rfl, ?_⟩
      · exact fun d isTaken => List.mem_takeWhile_imp (isFront.subset isTaken)
      · rw [List.drop_succ_cons] at isRest
        rw [← isRest, List.take_append_drop]
    next => cases found
  next => cases found

theorem acronymPattern_ne_none {first capital small : Char} {rest : List Char}
    (isUpper : first.isUpper = true) (isCapital : capital.isUpper = true)
    (isSmall : small.isLower = true) :
    acronymPattern (first :: capital :: small :: rest) ≠ none := by
  intro absent
  have single := List.findSome?_eq_none_iff.mp absent 0 (by simp [isUpper])
  simp [isCapital, isSmall] at single

/-- The capitals of a run stay together up to the last. -/
theorem splitAcronyms_run {others rest : List Char} {capital small : Char}
    (each : ∀ d ∈ c :: others, d.isUpper = true) (isCapital : capital.isUpper = true)
    (isSmall : small.isLower = true) :
    splitAcronyms (c :: others ++ capital :: small :: rest) =
      c :: others ++ '_' :: capital :: small :: splitAcronyms rest := by
  have notLower {d : Char} (isUpper : d.isUpper = true) : d.isLower = false := by
    rw [Bool.eq_false_iff]
    intro isLower
    exact absurd isUpper (Bool.eq_false_iff.mp (not_isUpper_of_isLower isLower))
  induction others generalizing c with
  | nil =>
      have isUpper := each c List.mem_cons_self
      simp [splitAcronyms, isUpper, isCapital, isSmall]
  | cons d others ih =>
      obtain ⟨isUpper, areUpper⟩ := List.forall_mem_cons.mp each
      have step := ih areUpper
      cases others with
      | nil =>
        simp only [List.cons_append, List.nil_append] at step ⊢
        rw [splitAcronyms, step, if_neg]
        simp [notLower isCapital]
      | cons e others =>
        have isNext := areUpper e (List.mem_cons_of_mem _ List.mem_cons_self)
        simp only [List.cons_append] at step ⊢
        rw [splitAcronyms, step, if_neg]
        simp [notLower isNext]

theorem splitAcronyms_eq_separated (text : List Char) :
    splitAcronyms text = separated acronymPattern text := by
  induction text using separated.induct acronymPattern with
  | case1 => simp [separated, splitAcronyms]
  | case2 c text first second found ih =>
      rw [separated, found]
      obtain ⟨capital, small, rest, each, isCapital, isSmall, rfl, others, rfl, rfl⟩ :=
        exists_of_acronymPattern found
      have isRest : (others ++ capital :: small :: rest).drop
          ((c :: others).length + [capital, small].length - 1) = rest := by
        simp [List.drop_append]
      rw [isRest] at ih
      rw [← List.cons_append, splitAcronyms_run each isCapital isSmall]
      simp only [isRest, ih, List.cons_append, List.nil_append]
  | case3 c text absent ih =>
      rw [separated, absent, ← ih]
      match text with
      | [] => rfl
      | [_] => rfl
      | capital :: small :: rest =>
        have noMatch : ¬(c.isUpper && capital.isUpper && small.isLower) = true := by
          simp only [Bool.and_eq_true, not_and]
          rintro ⟨isUpper, isCapital⟩ isSmall
          exact acronymPattern_ne_none isUpper isCapital isSmall absent
        rw [splitAcronyms, if_neg noMatch]

theorem splitWords_eq_separated (text : List Char) :
    splitWords text = separated wordPattern text := by
  induction text using splitWords.induct with
  | case1 a b rest isMatch ih =>
      rw [splitWords, if_pos isMatch, separated, wordPattern, if_pos isMatch, ih]
      rfl
  | case2 a b rest noMatch ih =>
      rw [splitWords, if_neg noMatch, separated, wordPattern, if_neg noMatch, ih]
  | case3 text short =>
      cases text with
      | nil => simp [splitWords, separated]
      | cons a rest =>
          cases rest with
          | nil => simp [splitWords, separated, wordPattern]
          | cons b rest => exact (short a b rest rfl).elim

/-! ## Snake case -/

theorem splitWords_splitAcronyms (name : List Char) :
    splitWords (splitAcronyms name) = setOff name := by
  rw [splitWords_eq_marked, splitAcronyms_eq_marked, marked_marked, setOff_eq_marked]

theorem setOff_of_isLowered {name : List Char} (lowered : ∀ c ∈ name, IsLowered c) :
    setOff name = name := by
  rw [setOff_eq_marked]
  apply marked_eq_self
  intro c isChar before next
  have notUpper := (isLowered_iff.mp (lowered c isChar)).1
  simp [startsWord, followsWord, endsAcronym, notUpper]

theorem snakeChars_snakeChars (name : List Char) : snakeChars (snakeChars name) = snakeChars name := by
  simp only [snakeChars, splitWords_splitAcronyms]
  have unchanged : setOff (lower (setOff name)) = lower (setOff name) :=
    setOff_of_isLowered fun _ => isLowered_of_mem_lowerFrom
  rw [unchanged, lower_lower]

/-- The snake-case form of a name is the lower-cased name with an underscore before each place at which a
word begins, whatever the matches of the two patterns take. It is its own snake-case form. -/
theorem snakeCase_sets_words_off (name : String) :
    snakeCase name = String.ofList (lower (setOff name.toList)) ∧
      separated wordPattern (separated acronymPattern name.toList) = setOff name.toList ∧
      snakeCase (snakeCase name) = snakeCase name := by
  refine ⟨?_, ?_, ?_⟩
  · rw [snakeCase, snakeChars, splitWords_splitAcronyms]
  · rw [← splitAcronyms_eq_separated, ← splitWords_eq_separated, splitWords_splitAcronyms]
  · rw [snakeCase, snakeCase, String.toList_ofList, snakeChars_snakeChars]

-- The capital after the small letter is itself the run of a match.
example : snakeCase "aBCd" = "a_b_cd" := by decide +kernel

end TypedReply.Naming
