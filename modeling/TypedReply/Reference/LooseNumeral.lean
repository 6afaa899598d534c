import TypedReply.Calendar.Iso
import TypedReply.Numeric.Numeral
import TypedReply.Reference.Problem

/-!
# Numbers in text, as record classes take them

A record class reads the strict integer numerals, and otherwise cleans a text before it tries again:
blanks at the ends go, then a leading plus, leading zeros, a fraction of zeros, and single
underscores. Fractional numerals are read without blanks at the ends, and otherwise without single
underscores.

Leading zeros may be mixed with underscores, which is why a text such as `0_-7` is taken for -7.
-/

namespace TypedReply.Loose

/-- Splits off an optional minus. -/
def splitMinus : List Char → Bool × List Char
  | '-' :: rest => (true, rest)
  | cs => (false, cs)

/-- The integer of a text that is exactly an optional minus and digits, of which the first is zero
only if it is the last. -/
def strictInteger? (cs : List Char) : Option Int :=
  let (negative, digits) := splitMinus cs
  if digits.isEmpty || (digits.head? == some '0' && digits.length ≠ 1) then none
  else
    (digits.mapM Iso.asciiDigit?).map fun values =>
      Double.signed negative (Numeral.ofDigits values)

/-- The most characters that the sign and the digits of an integer may take. -/
def mostCharacters : Nat := 4300

/-- Whether a text opens with more of a strict integer than is read. -/
def isOversized (cs : List Char) : Bool :=
  let digits := (splitMinus cs).2
  let run := digits.takeWhile fun c => (Iso.asciiDigit? c).isSome
  digits.head? != some '0' && mostCharacters < run.length + (cs.length - digits.length)

/-- A text without a leading plus, which no minus may follow. -/
def withoutPlus? : List Char → Option (List Char)
  | '+' :: rest => if rest.head? = some '-' then none else some rest
  | cs => some cs

/-- Whether a character begins an integer other than zero. -/
def beginsInteger (c : Char) : Bool := c == '-' || ('1' ≤ c && c ≤ '9')

/-- What is left of a text after leading zeros and underscores, of which `last` is the last. It is
kept where nothing or a point follows. -/
def afterZeros (last : Char) : List Char → Option (List Char)
  | [] => some [last]
  | c :: rest =>
    if c = '0' ∨ c = '_' then afterZeros c rest
    else if beginsInteger c then some (c :: rest)
    else if c = '.' then some (last :: c :: rest)
    else none

/-- A text without leading zeros. -/
def withoutLeadingZeros? : List Char → Option (List Char)
  | [] => none
  | c :: rest =>
    if c = '0' then afterZeros c rest
    else if beginsInteger c then some (c :: rest)
    else none

/-- A text without a point and the zeros after it, of which there is at least one. -/
def withoutZeroFraction (cs : List Char) : List Char :=
  match cs.span (· != '.') with
  | (whole, '.' :: zeros) =>
    if zeros.isEmpty || zeros.any (· != '0') then cs else whole
  | _ => cs

/-- Whether two underscores follow one another. -/
def hasDoubleUnderscore : List Char → Bool
  | '_' :: '_' :: _ => true
  | _ :: rest => hasDoubleUnderscore rest
  | [] => false

/-- A text without its underscores, which must be single and within it. -/
def withoutUnderscores? (cs : List Char) : Option (List Char) :=
  if cs.head? = some '_' ∨ cs.getLast? = some '_' ∨ hasDoubleUnderscore cs then none
  else some (cs.filter (· != '_'))

/-- A text cleaned for reading an integer. -/
def cleaned? (cs : List Char) : Option (List Char) := do
  let unsigned ← withoutPlus? (Text.trimBy Numeral.isMargin cs)
  let whole := withoutZeroFraction (← withoutLeadingZeros? unsigned)
  some ((withoutUnderscores? whole).getD whole)

/-- The strict integer that a text is, if it is not too long for one. -/
def shortInteger? (cs : List Char) : Except Problem (Option Int) :=
  if isOversized cs then .error .integerSize else .ok (strictInteger? cs)

/-- The integer of a text. -/
def integerOfText (cs : List Char) : Except Problem Int := do
  match ← shortInteger? cs, cleaned? cs with
  | some n, _ => .ok n
  | none, some cleaned => (← shortInteger? cleaned).elim (.error .integerText) .ok
  | none, none => .error .integerText

/-- The floating point number of a text without underscores, in ASCII. -/
def plainDouble? (cs : List Char) : Option Double :=
  if cs.all fun c => c.toNat < 0x80 && c != '_' then Numeral.double? cs else none

/-- The floating point number of a text. -/
def doubleOfText? (cs : List Char) : Option Double :=
  plainDouble? (Text.trimBy Numeral.isMargin cs) <|>
    (withoutUnderscores? cs).bind plainDouble?

def trueWords : List String := ["1", "t", "y", "on", "true", "yes"]

def falseWords : List String := ["0", "f", "n", "off", "false", "no"]

/-- The Boolean of a text. -/
def boolOfText? (text : String) : Option Bool :=
  let word := text.toLower
  if trueWords.contains word then some true
  else if falseWords.contains word then some false
  else none

end TypedReply.Loose
