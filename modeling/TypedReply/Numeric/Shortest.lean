import TypedReply.Numeric.Double

/-!
# The shortest decimal of a floating point number

Every real between the two midpoints around a number rounds to it; the midpoints belong to the
interval exactly when the significand is even. The shortest decimal is the first point of the
decimal grids with one, two, … digits that lies in this interval, the nearer of two, and of two
equally near ones the even one. Seventeen digits always suffice.
-/

namespace TypedReply

/-- The decimal `digits · 10 ^ exponent`. -/
structure Decimal where
  digits : Nat
  exponent : Int
deriving DecidableEq

namespace Shortest

/-- The reals that round to one number: all bounds over one denominator. -/
structure Interval where
  low : Nat
  value : Nat
  high : Nat
  den : Nat
  closed : Bool

/-- The interval of a positive magnitude code, in quarters of a unit. Below a power of two the
neighbours are half as far apart. -/
def interval (code : Nat) : Interval :=
  let scale := Nat.pow 2 (Double.shift code)
  let value := 4 * Double.units code
  let below := if Double.significand code = Double.binade ∧ 0 < Double.shift code
    then scale else 2 * scale
  { low := value - below, value := value, high := value + 2 * scale
    den := 4 * Double.unitsPerOne, closed := code % 2 = 0 }

/-- A quotient `num / den` divided by `10 ^ exponent`, as numerator and denominator. -/
def scaled (num den : Nat) : Int → Nat × Nat
  | .ofNat power => (num, den * Nat.pow 10 power)
  | .negSucc power => (num * Nat.pow 10 (power + 1), den)

/-- The largest `e` with `10 ^ e ≤ num / den`, for a positive quotient. -/
def decimalExponent (num den : Nat) : Int :=
  let guess : Int := ((num.log2 : Int) - (den.log2 : Int)) * 30103 / 100000
  let reaches (e : Int) : Bool := let (n, d) := scaled num den e; d ≤ n
  if reaches (guess + 1) then guess + 1
  else if reaches guess then guess
  else guess - 1

/-- Whether a grid point `digits · 10 ^ exponent` lies in an interval. -/
def Interval.contains (i : Interval) (digits : Nat) (exponent : Int) : Bool :=
  let (low, den) := scaled i.low i.den exponent
  let (high, _) := scaled i.high i.den exponent
  let point := digits * den
  if i.closed then low ≤ point && point ≤ high else low < point && point < high

/-- The point of one decimal grid that represents the interval's value, if there is one. -/
def onGrid (i : Interval) (exponent : Int) : Option Nat :=
  let (value, den) := scaled i.value i.den exponent
  let floor := value / den
  let twice := 2 * (value % den)
  match i.contains floor exponent, i.contains (floor + 1) exponent with
  | true, true =>
    if twice < den then some floor
    else if den < twice then some (floor + 1)
    else some (floor + floor % 2)
  | true, false => some floor
  | false, true => some (floor + 1)
  | false, false => none

/-- Moves trailing zeros of the digits to the exponent; `fuel` bounds their number. -/
def stripZeros : Nat → Decimal → Decimal
  | 0, d => d
  | fuel + 1, d =>
    if d.digits % 10 = 0 then stripZeros fuel ⟨d.digits / 10, d.exponent + 1⟩ else d

/-- The shortest decimal of a positive magnitude code. -/
def ofCode (code : Nat) : Decimal :=
  let i := interval code
  let leading := decimalExponent i.value i.den
  let found := (List.range 17).findSome? fun (extra : Nat) =>
    let exponent := leading - (extra : Int)
    (onGrid i exponent).map (Decimal.mk · exponent)
  stripZeros 17 (found.getD ⟨0, 0⟩)

end Shortest

end TypedReply
