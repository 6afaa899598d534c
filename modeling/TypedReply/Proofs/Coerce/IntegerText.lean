import TypedReply.Proofs.Numeric.Numerals
import TypedReply.Proofs.Numeric.Rounding

/-!
# Integers read from text

A text is read as an integer through one of two numerals. An integer numeral gives its exact value.
Any other decimal numeral, however long, is first rounded to the nearest floating point number, and
it is this number that must be an integer. So the integer is the exact value of the numeral where
that is itself a floating point number, and need not be where it lies between two of them.
-/

namespace TypedReply

open Numeral Text

namespace Coerce

/-- A text is an integer numeral that does not have too many digits. -/
def IsShortInteger (cs : List Char) : Prop :=
  ∃ negative digits, IsInteger cs negative digits ∧ digits.length ≤ maxDigits

/-- An integer is read from a text: it is the value of an integer numeral, or what the value of
another numeral is rounded to. -/
inductive IsReadAs (cs : List Char) (n : ℤ) : Prop
  | integer {negative : Bool} {digits : List Nat} (isInteger : IsInteger cs negative digits)
      (few : digits.length ≤ maxDigits) (isValue : n = Double.signed negative (ofDigits digits))
  | rounded {q : ℚ} (notShort : ¬IsShortInteger cs) (isDecimal : IsDecimal cs q)
      (roundsTo : Double.RoundsTo q n)

theorem integer?_eq_none_iff {cs : List Char} : integer? cs = none ↔ ¬IsShortInteger cs := by
  rw [← not_iff_not, not_not, ← ne_eq, Option.ne_none_iff_exists']
  simp only [integer?_eq_some_iff]
  constructor
  · rintro ⟨n, negative, digits, isInteger, few, -⟩
    exact ⟨negative, digits, isInteger, few⟩
  · rintro ⟨negative, digits, isInteger, few⟩
    exact ⟨_, negative, digits, isInteger, few, rfl⟩

/-- The floating point number of a text is an integer if the text is a decimal numeral that is rounded
to it. -/
theorem exists_toInt?_iff {cs : List Char} {n : ℤ} :
    (∃ x, double? cs = some x ∧ x.toInt? = some n) ↔
      ∃ q, IsDecimal cs q ∧ Double.RoundsTo q n := by
  constructor
  · rintro ⟨x, found, isWhole⟩
    obtain ⟨read, isRead, rfl⟩ := Option.map_eq_some_iff.mp found
    cases read with
    | nan => cases isWhole
    | infinity => cases isWhole
    | decimal negative digits exponent =>
        exact ⟨_, ⟨negative, digits, exponent, fractional?_eq_decimal_iff.mp isRead, rfl⟩,
          Double.toInt?_ofDecimal_eq_some_iff.mp isWhole⟩
  · rintro ⟨_, ⟨negative, digits, exponent, isScaled, rfl⟩, roundsTo⟩
    exact ⟨_, Option.map_eq_some_iff.mpr ⟨_, fractional?_eq_decimal_iff.mpr isScaled, rfl⟩,
      Double.toInt?_ofDecimal_eq_some_iff.mpr roundsTo⟩

theorem integerOfText_eq_ok_iff {cs : List Char} {n : ℤ} :
    integerOfText cs = .ok n ↔ IsReadAs cs n := by
  constructor
  · intro found
    unfold integerOfText at found
    split at found
    next m isShort =>
      cases found
      obtain ⟨negative, digits, isInteger, few, isValue⟩ := integer?_eq_some_iff.mp isShort
      exact .integer isInteger few isValue
    next notShort =>
      split at found
      next => cases found
      next x isRead =>
        cases isWhole : x.toInt? with
        | none =>
            rw [isWhole] at found
            cases found
        | some m =>
            rw [isWhole] at found
            cases found
            obtain ⟨q, isDecimal, roundsTo⟩ := exists_toInt?_iff.mp ⟨x, isRead, isWhole⟩
            exact .rounded (integer?_eq_none_iff.mp notShort) isDecimal roundsTo
  · rintro (⟨isInteger, few, isValue⟩ | ⟨notShort, isDecimal, roundsTo⟩)
    · rw [integerOfText, integer?_eq_some_iff.mpr ⟨_, _, isInteger, few, isValue⟩]
    · obtain ⟨x, isRead, isWhole⟩ := exists_toInt?_iff.mpr ⟨_, isDecimal, roundsTo⟩
      simp [integerOfText, integer?_eq_none_iff.mpr notShort, isRead, isWhole]

theorem integerOfText_eq_error {cs : List Char} {reason : Reason}
    (failed : integerOfText cs = .error reason) :
    reason = .fractional ∨ reason = .notNumber ∧ ∀ q, ¬IsDecimal cs q := by
  unfold integerOfText at failed
  split at failed
  next => cases failed
  next =>
    split at failed
    next notRead =>
      cases failed
      refine .inr ⟨rfl, ?_⟩
      rintro _ ⟨negative, digits, exponent, isScaled, rfl⟩
      rw [double?, fractional?_eq_decimal_iff.mpr isScaled] at notRead
      cases notRead
    next x isRead =>
      cases isWhole : x.toInt? <;> rw [isWhole] at failed <;> cases failed
      exact .inl rfl

/-- From a numeral whose value is a floating point number, and from a short integer numeral, only the
exact value is read. -/
theorem isReadAs_iff_eq {cs : List Char} {q : ℚ} (isDecimal : IsDecimal cs q)
    (exact : IsShortInteger cs ∨ Double.IsNumber q) {n : ℤ} : IsReadAs cs n ↔ q = n := by
  by_cases isShort : IsShortInteger cs
  · obtain ⟨negative, digits, isInteger, few⟩ := isShort
    obtain rfl := isDecimal.unique isInteger.isDecimal
    rw [Int.cast_inj]
    constructor
    · rintro (⟨isOther, -, rfl⟩ | ⟨notShort, -, -⟩)
      · exact_mod_cast isInteger.isDecimal.unique isOther.isDecimal
      · exact absurd ⟨negative, digits, isInteger, few⟩ notShort
    · rintro rfl
      exact .integer isInteger few rfl
  · have isNumber := exact.resolve_left isShort
    constructor
    · rintro (⟨isInteger, few, -⟩ | ⟨-, isOther, roundsTo⟩)
      · exact absurd ⟨_, _, isInteger, few⟩ isShort
      · obtain rfl := isDecimal.unique isOther
        exact isNumber.roundsTo_iff.mp roundsTo
    · intro same
      exact .rounded isShort isDecimal (isNumber.roundsTo_iff.mpr same)

theorem coerceScalar_int_str (s : String) (path : Path) :
    coerceScalar .int (.str s) path = match integerOfText (trim s.toList) with
      | .ok n => .ok (.int n)
      | .error reason => unconvertible path "int" (.str s) reason := by
  simp only [coerceScalar, matchesScalar, Value.integer?, isScalar, convert, toInteger,
    Value.text?]
  cases integerOfText (trim s.toList) <;> rfl

end Coerce

/-- A text is read as an integer exactly where, without the blanks around it, it is an integer numeral
of this value, or another decimal numeral whose value is rounded to the integer; anything else is
refused as a type mismatch, as no number only if it is no decimal numeral. Where the value of the
numeral is a floating point number, and for an integer numeral that does not have too many digits,
the integer is the exact value, and every other value is refused. -/
theorem integer_text_read (s : String) (path : Path) :
    (∀ value, coerceScalar .int (.str s) path = .ok value ↔
      ∃ n, value = .int n ∧ Coerce.IsReadAs (trim s.toList) n) ∧
    ((∀ n, ¬Coerce.IsReadAs (trim s.toList) n) → ∃ reason,
      coerceScalar .int (.str s) path = unconvertible path "int" (.str s) reason ∧
        (reason = .fractional ∨ reason = .notNumber ∧ ∀ q, ¬IsDecimal (trim s.toList) q)) ∧
    ∀ q, IsDecimal (trim s.toList) q →
      Coerce.IsShortInteger (trim s.toList) ∨ Double.IsNumber q →
      ∀ n, coerceScalar .int (.str s) path = .ok (.int n) ↔ q = n := by
  have reads (value : Value) : coerceScalar .int (.str s) path = .ok value ↔
      ∃ n, value = .int n ∧ Coerce.IsReadAs (trim s.toList) n := by
    simp only [← Coerce.integerOfText_eq_ok_iff, Coerce.coerceScalar_int_str]
    cases Coerce.integerOfText (trim s.toList) with
    | ok m => simp [eq_comm]
    | error reason => simp [unconvertible]
  refine ⟨reads, ?_, ?_⟩
  · intro none
    rw [Coerce.coerceScalar_int_str]
    cases found : Coerce.integerOfText (trim s.toList) with
    | ok n => exact absurd (Coerce.integerOfText_eq_ok_iff.mp found) (none n)
    | error reason => exact ⟨reason, rfl, Coerce.integerOfText_eq_error found⟩
  · intro q isDecimal exact n
    rw [reads, ← Coerce.isReadAs_iff_eq isDecimal exact]
    simp

/-- Blanks, an underscore, a fraction and a power of ten that come to an integer. -/
theorem scaled_text_read : coerceScalar .int (.str " 1_2.50e1 ") [] = .ok (.int 125) := by
  have isScaled : IsScaled "1_2.50e1".toList false 1250 (-1) :=
    fractional?_eq_decimal_iff.mp (by decide +kernel)
  have isDecimal : IsDecimal (trim " 1_2.50e1 ".toList) 125 :=
    ⟨false, 1250, -1, isScaled, by norm_num [Double.signed]⟩
  have isNumber : Double.IsNumber 125 := by
    refine ⟨4638496509959077888, by decide +kernel, ?_⟩
    have units : Double.units 4638496509959077888 = 125 * Double.unitsPerOne := by decide +kernel
    rw [units, abs_of_pos (by norm_num), Nat.cast_mul, Nat.cast_ofNat]
  exact ((integer_text_read _ _).2.2 125 isDecimal (.inr isNumber) 125).mpr rfl

/-- Of two numerals between floating point numbers one is read as another integer than its value, and
one is read as an integer though it has a fractional part. -/
theorem inexact_texts_read :
    IsDecimal (trim "9007199254740993.0".toList) 9007199254740993 ∧
    coerceScalar .int (.str "9007199254740993.0") [] = .ok (.int 9007199254740992) ∧
    IsDecimal (trim "0.99999999999999999999".toList) (1 - 1 / 10 ^ 20) ∧
    coerceScalar .int (.str "0.99999999999999999999") [] = .ok (.int 1) := by
  have isWide : IsScaled "9007199254740993.0".toList false 90071992547409930 (-1) :=
    fractional?_eq_decimal_iff.mp (by decide +kernel)
  have isLong : IsScaled "0.99999999999999999999".toList false 99999999999999999999 (-20) :=
    fractional?_eq_decimal_iff.mp (by decide +kernel)
  have wideRead : Coerce.IsReadAs (trim "9007199254740993.0".toList) 9007199254740992 :=
    .rounded (Coerce.integer?_eq_none_iff.mp (by decide +kernel)) ⟨_, _, _, isWide, rfl⟩
      (Double.toInt?_ofDecimal_eq_some_iff.mp (by decide +kernel))
  have longRead : Coerce.IsReadAs (trim "0.99999999999999999999".toList) 1 :=
    .rounded (Coerce.integer?_eq_none_iff.mp (by decide +kernel)) ⟨_, _, _, isLong, rfl⟩
      (Double.toInt?_ofDecimal_eq_some_iff.mp (by decide +kernel))
  refine ⟨⟨_, _, _, isWide, by norm_num [Double.signed]⟩, ?_,
    ⟨_, _, _, isLong, by norm_num [Double.signed]⟩, ?_⟩
  · rw [Coerce.coerceScalar_int_str, Coerce.integerOfText_eq_ok_iff.mpr wideRead]
  · rw [Coerce.coerceScalar_int_str, Coerce.integerOfText_eq_ok_iff.mpr longRead]

end TypedReply
