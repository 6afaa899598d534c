/-!
# Binary floating point numbers

A finite number of the 64-bit binary format is a sign and a magnitude code. Codes enumerate the
magnitudes in increasing order: code `c` stands for `significand c · 2 ^ shift c` units, where a
unit is `2 ^ (-1074)`. Ordering magnitudes is therefore ordering codes, and every number has one
representation.
-/

namespace TypedReply

namespace Double

/-- The number of magnitudes that share one exponent. -/
def binade : Nat := Nat.pow 2 52

def codeCount : Nat := 2047 * binade

def unitsPerOne : Nat := Nat.pow 2 1074

end Double

/-- A number of the 64-bit binary floating point format. -/
inductive Double where
  | nan
  | infinite (negative : Bool)
  | finite (negative : Bool) (code : Fin Double.codeCount)
deriving DecidableEq

namespace Double

instance : Inhabited Double := ⟨.nan⟩

def significand (code : Nat) : Nat :=
  if code < binade then code else binade + code % binade

/-- The power of two that scales the significand to units. -/
def shift (code : Nat) : Nat := code / binade - 1

def units (code : Nat) : Nat := significand code * Nat.pow 2 (shift code)

/-- A quotient rounded to the nearest integer, a tie to the even one. -/
def roundDiv (num den : Nat) : Nat :=
  let quotient := num / den
  let twice := 2 * (num % den)
  if twice < den then quotient
  else if den < twice then quotient + 1
  else quotient + quotient % 2

/-- The code nearest to `num / den` units, which may lie past the finite ones. -/
def nearestCode (num den : Nat) : Nat :=
  let exponent := (num / den).log2 - 52
  roundDiv num (den * Nat.pow 2 exponent) + exponent * binade

/-- The number of a sign and a code; codes past the finite ones are infinite. -/
def ofCode (negative : Bool) (code : Nat) : Double :=
  if inRange : code < codeCount then .finite negative ⟨code, inRange⟩ else .infinite negative

def ofRatio (negative : Bool) (num den : Nat) : Double :=
  ofCode negative (nearestCode (num * unitsPerOne) den)

/-- The number nearest to `digits · 10 ^ exponent`. Where the exponent alone decides that it is
infinite or zero, no power of its size is computed. -/
def ofDecimal (negative : Bool) (digits : Nat) (exponent : Int) : Double :=
  match exponent with
  | .ofNat power =>
    if digits = 0 then ofCode negative 0
    else if 400 < power then .infinite negative
    else ofRatio negative (digits * Nat.pow 10 power) 1
  | .negSucc power =>
    if digits.log2 + 1077 < 3 * (power + 1) then ofCode negative 0
    else ofRatio negative digits (Nat.pow 10 (power + 1))

/-- A number, if it is finite. -/
def finite? : Double → Option Double
  | .finite negative code => some (.finite negative code)
  | _ => none

/-- The number nearest to an integer, if it is in the finite range. -/
def ofInt? (n : Int) : Option Double := (ofRatio (decide (n < 0)) n.natAbs 1).finite?

def signed (negative : Bool) (magnitude : Nat) : Int :=
  if negative then -(magnitude : Int) else magnitude

/-- A finite number in units. -/
def toUnits? : Double → Option Int
  | .finite negative code => some (signed negative (units code))
  | _ => none

/-- The integer that a number equals. -/
def toInt? : Double → Option Int
  | .finite negative code =>
    if units code % unitsPerOne = 0 then some (signed negative (units code / unitsPerOne)) else none
  | _ => none

/-- Numeric equality: zeros are equal whatever their signs, and `nan` equals nothing. -/
def equal (x y : Double) : Bool :=
  match x, y with
  | .nan, _ => false
  | _, .nan => false
  | .infinite m, .infinite n => m == n
  | .finite m a, .finite n b => a == b && (m == n || a.val == 0)
  | _, _ => false

/-- Numeric order; false when either side is `nan`. -/
def lt : Double → Double → Bool
  | .nan, _ => false
  | _, .nan => false
  | .infinite m, .infinite n => m && !n
  | .infinite m, .finite _ _ => m
  | .finite _ _, .infinite n => !n
  | .finite m a, .finite n b => decide (signed m a.val < signed n b.val)

def equalInt (x : Double) (n : Int) : Bool := x.toInt? == some n

/-- Whether a number lies below an integer. -/
def ltInt (x : Double) (n : Int) : Bool :=
  match x with
  | .nan => false
  | .infinite negative => negative
  | .finite negative code => decide (signed negative (units code) < n * unitsPerOne)

/-- Whether an integer lies below a number. -/
def intLt (n : Int) (x : Double) : Bool :=
  match x with
  | .nan => false
  | .infinite negative => !negative
  | .finite negative code => decide (n * unitsPerOne < signed negative (units code))

end Double

end TypedReply
