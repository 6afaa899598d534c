import TypedReply.Numeric.Shortest

/-!
# Text of floating point numbers

A number is written by its shortest decimal: positionally, with at least one digit on each side of
the point, while the leading digit stands between `10 ^ (-4)` and `10 ^ 15`; otherwise with an
exponent of a sign and at least two digits, and a point only where more than one digit is written.
-/

namespace TypedReply

/-- The words for the numbers without digits. -/
structure FloatWords where
  nan : List Char
  infinity : List Char

/-- The exponents of the leading digit that are written positionally. -/
def isPositional (leading : Int) : Bool := -4 ≤ leading && leading ≤ 15

/-- The decimal digits of a number, most significant first. -/
def decimalDigits (n : Nat) : List Char := Nat.toDigits 10 n

def zeros (count : Nat) : List Char := List.replicate count '0'

/-- A decimal written positionally; `leading` is the exponent of its first digit. -/
def positionalText (digits : List Char) (leading : Int) : List Char :=
  match leading with
  | .negSucc gap => '0' :: '.' :: (zeros gap ++ digits)
  | .ofNat place =>
    if place + 1 < digits.length then digits.take (place + 1) ++ '.' :: digits.drop (place + 1)
    else digits ++ zeros (place + 1 - digits.length) ++ ['.', '0']

/-- A decimal written with an exponent. -/
def scientificText (digits : List Char) (leading : Int) : List Char :=
  let mantissa := match digits with
    | [] => []
    | [digit] => [digit]
    | digit :: more => digit :: '.' :: more
  let power := decimalDigits leading.natAbs
  let padded := zeros (2 - power.length) ++ power
  mantissa ++ 'e' :: (if leading < 0 then '-' else '+') :: padded

/-- The text of a decimal. -/
def Decimal.text (d : Decimal) : List Char :=
  let digits := decimalDigits d.digits
  let leading := d.exponent + (digits.length : Int) - 1
  if isPositional leading then positionalText digits leading else scientificText digits leading

/-- The text of a decimal without an exponent, and without a point where only zeros would follow
it. -/
def Decimal.plainText (d : Decimal) : List Char :=
  let digits := decimalDigits d.digits
  match d.exponent with
  | .ofNat power => digits ++ zeros power
  | .negSucc _ => positionalText digits (d.exponent + (digits.length : Int) - 1)

namespace Double

/-- The text of a number, with the given words for the numbers without digits. -/
def textWith (words : FloatWords) : Double → List Char
  | .nan => words.nan
  | .infinite negative => (if negative then ['-'] else []) ++ words.infinity
  | .finite negative code =>
    let magnitude :=
      if code.val = 0 then ['0', '.', '0'] else (Shortest.ofCode code.val).text
    (if negative then ['-'] else []) ++ magnitude

def displayWords : FloatWords := ⟨['n', 'a', 'n'], ['i', 'n', 'f']⟩

def display (x : Double) : String := String.ofList (x.textWith displayWords)

/-- The displayed text of a number without an exponent, and without a point where only zeros would
follow it. -/
def plainDisplay : Double → String
  | .finite negative code =>
    let magnitude := if code.val = 0 then ['0'] else (Shortest.ofCode code.val).plainText
    String.ofList ((if negative then ['-'] else []) ++ magnitude)
  | x => x.display

end Double

end TypedReply
