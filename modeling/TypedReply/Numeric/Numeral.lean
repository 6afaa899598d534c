import TypedReply.Numeric.Double
import TypedReply.Text.Blank
import TypedReply.Text.DecimalDigit

/-!
# Numerals

The numerals a text may hold: an optional sign and decimal digits of any script, with single
underscores allowed between digits; a fractional numeral may have a point and an exponent, or be one
of the words for infinity and for not-a-number.
-/

namespace TypedReply.Numeral

open Text

/-- Reads the longest run of digits, single underscores between them, and returns the rest. -/
def digitRun : List Char → List Nat × List Char
  | [] => ([], [])
  | [c] =>
    match digitValue? c with
    | some digit => ([digit], [])
    | none => ([], [c])
  | c :: next :: rest =>
    match digitValue? c with
    | none => ([], c :: next :: rest)
    | some digit =>
      if next = '_' then
        match digitRun rest with
        | ([], _) => ([digit], next :: rest)
        | (digits, left) => (digit :: digits, left)
      else
        let (digits, left) := digitRun (next :: rest)
        (digit :: digits, left)

def ofDigits (digits : List Nat) : Nat := digits.foldl (fun n digit => 10 * n + digit) 0

/-- Splits off an optional sign; the flag says whether it is a minus. -/
def splitSign : List Char → Bool × List Char
  | '-' :: rest => (true, rest)
  | '+' :: rest => (false, rest)
  | cs => (false, cs)

/-- The most digits that an integer numeral may have. -/
def maxDigits : Nat := 4300

/-- The sign and the digits of a text that is exactly an optional sign and a run of digits. -/
def signedRun? (cs : List Char) : Option (Bool × List Nat) :=
  let (negative, unsigned) := splitSign cs
  match digitRun unsigned with
  | ([], _) => none
  | (digits, []) => some (negative, digits)
  | _ => none

/-- The integer of a text that is exactly a sign and a run of digits, of which there are not too
many. -/
def integer? (cs : List Char) : Option Int := do
  let (negative, digits) ← signedRun? cs
  if digits.length ≤ maxDigits then some (Double.signed negative (ofDigits digits)) else none

/-- A fractional numeral: a word, or the exact decimal `digits · 10 ^ exponent`. -/
inductive Fractional where
  | nan
  | infinity (negative : Bool)
  | decimal (negative : Bool) (digits : Nat) (exponent : Int)
deriving DecidableEq

/-- The exponent part of a numeral: absent, or a mark, an optional sign and any number of digits. -/
def exponent? : List Char → Option Int
  | [] => some 0
  | mark :: rest =>
    if mark = 'e' ∨ mark = 'E' then
      (signedRun? rest).map fun (negative, digits) => Double.signed negative (ofDigits digits)
    else none

/-- Reads the digits after a point, if a text begins with one, and returns the rest. -/
def fractionRun : List Char → List Nat × List Char
  | '.' :: rest => digitRun rest
  | rest => ([], rest)

/-- The decimal of a text that is exactly digits, an optional fraction and an optional exponent. -/
def decimal? (negative : Bool) (cs : List Char) : Option Fractional :=
  let (whole, afterWhole) := digitRun cs
  let (fraction, left) := fractionRun afterWhole
  if whole.isEmpty && fraction.isEmpty then none
  else
    (exponent? left).map fun exponent =>
      .decimal negative (ofDigits (whole ++ fraction)) (exponent - fraction.length)

/-- The fractional numeral that a text is. -/
def fractional? (cs : List Char) : Option Fractional :=
  let (negative, unsigned) := splitSign cs
  let word := unsigned.map Char.toLower
  if word = ['i', 'n', 'f'] ∨ word = ['i', 'n', 'f', 'i', 'n', 'i', 't', 'y'] then
    some (.infinity negative)
  else if word = ['n', 'a', 'n'] then some .nan
  else decimal? negative unsigned

/-- The floating point number nearest to a numeral. -/
def Fractional.toDouble : Fractional → Double
  | .nan => .nan
  | .infinity negative => .infinite negative
  | .decimal negative digits exponent => Double.ofDecimal negative digits exponent

def double? (cs : List Char) : Option Double := (fractional? cs).map Fractional.toDouble

/-- Whether blank characters of this kind may surround an integer numeral: the information
separators may not. -/
def isMargin (c : Char) : Bool := isBlank c && !(0x1C ≤ c.toNat && c.toNat ≤ 0x1F)

end TypedReply.Numeral
