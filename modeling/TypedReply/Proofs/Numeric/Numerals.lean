import TypedReply.Numeric.Numeral
import Mathlib.Data.Rat.Defs

/-!
# The grammar of numerals

What a text denotes as a numeral, said without a parser: a sign or none, digits of any script with
single underscores between them, a point with digits on at least one side of it, and an exponent or
none. The parser finds exactly the texts of the grammar, and gives them the value that the grammar
does.
-/

namespace TypedReply

namespace Numeral

open Text

/-! ## The grammar -/

/-- A text is digits, with single underscores between some of them. -/
inductive IsRun : List Char → List Nat → Prop
  | last {c : Char} {digit : Nat} (isDigit : digitValue? c = some digit) : IsRun [c] [digit]
  | next {c : Char} {digit : Nat} {cs : List Char} {digits : List Nat}
      (isDigit : digitValue? c = some digit) (rest : IsRun cs digits) :
      IsRun (c :: cs) (digit :: digits)
  | separated {c : Char} {digit : Nat} {cs : List Char} {digits : List Nat}
      (isDigit : digitValue? c = some digit) (rest : IsRun cs digits) :
      IsRun (c :: '_' :: cs) (digit :: digits)

/-- A text is a sign or nothing; the flag says whether it is a minus. -/
inductive IsSign : List Char → Bool → Prop
  | absent : IsSign [] false
  | plus : IsSign ['+'] false
  | minus : IsSign ['-'] true

/-- A text is an integer numeral. -/
inductive IsInteger : List Char → Bool → List Nat → Prop
  | mk {sign run : List Char} {negative : Bool} {digits : List Nat} (isSign : IsSign sign negative)
      (isRun : IsRun run digits) : IsInteger (sign ++ run) negative digits

/-- A text is digits and maybe a point, with so many of the digits after it. -/
inductive IsMantissa : List Char → List Nat → Nat → Prop
  | whole {run : List Char} {digits : List Nat} (isRun : IsRun run digits) :
      IsMantissa run digits 0
  | pointed {run : List Char} {digits : List Nat} (isRun : IsRun run digits) :
      IsMantissa (run ++ ['.']) digits 0
  | fraction {run : List Char} {digits : List Nat} (isRun : IsRun run digits) :
      IsMantissa ('.' :: run) digits digits.length
  | both {run fraction : List Char} {digits decimals : List Nat} (isRun : IsRun run digits)
      (isFraction : IsRun fraction decimals) :
      IsMantissa (run ++ '.' :: fraction) (digits ++ decimals) decimals.length

/-- A text is a power of ten or nothing. -/
inductive IsExponent : List Char → Int → Prop
  | absent : IsExponent [] 0
  | present {mark : Char} {cs : List Char} {negative : Bool} {digits : List Nat}
      (isMark : mark = 'e' ∨ mark = 'E') (isPower : IsInteger cs negative digits) :
      IsExponent (mark :: cs) (Double.signed negative (ofDigits digits))

/-- A text is the decimal numeral of `digits · 10 ^ exponent`. -/
inductive IsScaled : List Char → Bool → Nat → Int → Prop
  | mk {sign mantissa exponent : List Char} {negative : Bool} {digits : List Nat} {places : Nat}
      {power : Int} (isSign : IsSign sign negative) (isMantissa : IsMantissa mantissa digits places)
      (isExponent : IsExponent exponent power) :
      IsScaled (sign ++ (mantissa ++ exponent)) negative (ofDigits digits) (power - places)

/-- A text is a decimal numeral, and this is its exact value. -/
def IsDecimal (cs : List Char) (q : ℚ) : Prop :=
  ∃ negative digits exponent, IsScaled cs negative digits exponent ∧
    q = Double.signed negative digits * 10 ^ exponent

/-- An integer numeral is a decimal numeral of the same value. -/
theorem IsInteger.isDecimal {cs : List Char} {negative : Bool} {digits : List Nat}
    (isInteger : IsInteger cs negative digits) :
    IsDecimal cs (Double.signed negative (ofDigits digits) : Int) := by
  obtain ⟨isSign, isRun⟩ := isInteger
  refine ⟨negative, ofDigits digits, 0, ?_, by simp⟩
  simpa using IsScaled.mk isSign (.whole isRun) .absent

/-! ## Runs of digits -/

/-- What a text begins with does not go on with digits. -/
def Stops (cs : List Char) : Prop := ∀ c ∈ cs.head?, digitValue? c = none ∧ c ≠ '_'

theorem stops_nil : Stops [] := fun _ isHead => nomatch isHead

theorem stops_cons {c : Char} {cs : List Char} :
    Stops (c :: cs) ↔ digitValue? c = none ∧ c ≠ '_' := by
  simp [Stops]

theorem IsRun.cons_eq {run : List Char} {digits : List Nat} (isRun : IsRun run digits) :
    ∃ c cs digit, run = c :: cs ∧ digitValue? c = some digit := by
  cases isRun with
  | last isDigit => exact ⟨_, _, _, rfl, isDigit⟩
  | next isDigit => exact ⟨_, _, _, rfl, isDigit⟩
  | separated isDigit => exact ⟨_, _, _, rfl, isDigit⟩

theorem IsRun.ne_nil {run : List Char} {digits : List Nat} (isRun : IsRun run digits) :
    digits ≠ [] := by
  cases isRun <;> exact List.cons_ne_nil _ _

theorem digitRun_of_none {c : Char} {cs : List Char} (notDigit : digitValue? c = none) :
    digitRun (c :: cs) = ([], c :: cs) := by
  cases cs <;> simp [digitRun, notDigit]

theorem digitRun_of_stops {cs : List Char} (stops : Stops cs) : digitRun cs = ([], cs) := by
  cases cs with
  | nil => rfl
  | cons c cs => exact digitRun_of_none (stops_cons.mp stops).1

theorem digitRun_next {c next : Char} {digit : Nat} {rest : List Char}
    (isDigit : digitValue? c = some digit) (plain : next ≠ '_') :
    digitRun (c :: next :: rest) =
      (digit :: (digitRun (next :: rest)).1, (digitRun (next :: rest)).2) := by
  simp [digitRun, isDigit, plain]

theorem digitRun_separated {c : Char} {digit : Nat} {rest : List Char}
    (isDigit : digitValue? c = some digit) :
    digitRun (c :: '_' :: rest) = if (digitRun rest).1 = [] then ([digit], '_' :: rest)
      else (digit :: (digitRun rest).1, (digitRun rest).2) := by
  rcases found : digitRun rest with ⟨digits, left⟩
  cases digits <;> simp [digitRun, isDigit, found]

theorem digitValue?_underscore : digitValue? '_' = none := by decide

theorem digitRun_run {run rest : List Char} {digits : List Nat} (isRun : IsRun run digits)
    (stops : Stops rest) : digitRun (run ++ rest) = (digits, rest) := by
  induction isRun with
  | last isDigit =>
      cases rest with
      | nil => simp [digitRun, isDigit]
      | cons c rest =>
          have ends := stops_cons.mp stops
          rw [List.singleton_append, digitRun_next isDigit ends.2, digitRun_of_none ends.1]
  | @next c digit cs digits isDigit isRest ih =>
      obtain ⟨next, tail, value, rfl, isNext⟩ := isRest.cons_eq
      have plain : next ≠ '_' := by
        rintro rfl
        exact absurd isNext (by simp [digitValue?_underscore])
      rw [List.cons_append] at ih
      rw [List.cons_append, List.cons_append, digitRun_next isDigit plain, ih]
  | separated isDigit isRest ih =>
      rw [List.cons_append, List.cons_append, digitRun_separated isDigit, ih, if_neg isRest.ne_nil]

theorem digitRun_sound (cs : List Char) :
    (digitRun cs).1 = [] ∧ (digitRun cs).2 = cs ∨
      ∃ run, cs = run ++ (digitRun cs).2 ∧ IsRun run (digitRun cs).1 := by
  induction cs using digitRun.induct with
  | case1 => exact .inl ⟨rfl, rfl⟩
  | case2 c digit isDigit => exact .inr ⟨[c], by simp [digitRun, isDigit], by
      simpa [digitRun, isDigit] using IsRun.last isDigit⟩
  | case3 c notDigit => exact .inl (by simp [digitRun_of_none notDigit])
  | case4 c next rest notDigit => exact .inl (by simp [digitRun_of_none notDigit])
  | case5 c rest digit isDigit left none ih =>
      refine .inr ⟨[c], ?_, ?_⟩ <;> rw [digitRun_separated isDigit] <;> simp [none, IsRun.last isDigit]
  | case6 c rest digit isDigit digits left some found ih =>
      rw [found] at ih
      rw [digitRun_separated isDigit, found, if_neg some]
      rcases ih with ⟨none, -⟩ | ⟨run, isRest, isRun⟩
      · exact absurd none some
      · exact .inr ⟨c :: '_' :: run, by simpa using isRest, .separated isDigit isRun⟩
  | case7 c next rest digit isDigit plain digits left found ih =>
      rw [digitRun_next isDigit plain]
      rcases ih with ⟨none, same⟩ | ⟨run, isRest, isRun⟩
      · refine .inr ⟨[c], by simp [same], ?_⟩
        rw [none]
        exact .last isDigit
      · exact .inr ⟨c :: run, by simpa using isRest, .next isDigit isRun⟩

/-! ## Integer numerals -/

def IsUnsigned (cs : List Char) : Prop := ∀ c ∈ cs.head?, c ≠ '-' ∧ c ≠ '+'

theorem IsRun.isUnsigned {run rest : List Char} {digits : List Nat} (isRun : IsRun run digits) :
    IsUnsigned (run ++ rest) := by
  obtain ⟨c, cs, digit, rfl, isDigit⟩ := isRun.cons_eq
  rintro _ ⟨⟩
  constructor <;> rintro rfl <;> revert isDigit digit <;> decide

theorem splitSign_of_isUnsigned {cs : List Char} (isUnsigned : IsUnsigned cs) :
    splitSign cs = (false, cs) := by
  unfold splitSign
  split
  · exact absurd rfl (isUnsigned '-' rfl).1
  · exact absurd rfl (isUnsigned '+' rfl).2
  · rfl

theorem splitSign_append {sign unsigned : List Char} {negative : Bool}
    (isSign : IsSign sign negative) (isUnsigned : IsUnsigned unsigned) :
    splitSign (sign ++ unsigned) = (negative, unsigned) := by
  cases isSign with
  | absent => exact splitSign_of_isUnsigned isUnsigned
  | plus => rfl
  | minus => rfl

theorem splitSign_sound (cs : List Char) :
    ∃ sign, IsSign sign (splitSign cs).1 ∧ cs = sign ++ (splitSign cs).2 := by
  unfold splitSign
  split
  · exact ⟨['-'], .minus, rfl⟩
  · exact ⟨['+'], .plus, rfl⟩
  · exact ⟨[], .absent, rfl⟩

theorem signedRun?_eq_some_iff {cs : List Char} {negative : Bool} {digits : List Nat} :
    signedRun? cs = some (negative, digits) ↔ IsInteger cs negative digits := by
  constructor
  · intro found
    obtain ⟨sign, isSign, isSplit⟩ := splitSign_sound cs
    rw [signedRun?] at found
    have sound := digitRun_sound (splitSign cs).2
    simp only at found
    split at found
    next => cases found
    next read isRead some =>
      obtain ⟨rfl, rfl⟩ := Prod.mk.inj (Option.some.inj found)
      rw [some] at sound
      rcases sound with ⟨none, -⟩ | ⟨run, isRest, isRun⟩
      · exact absurd none isRead
      · have made := IsInteger.mk isSign isRun
        rw [List.append_nil] at isRest
        rwa [← isRest, ← isSplit] at made
    next => cases found
  · rintro ⟨isSign, isRun⟩
    have isUnsigned : IsUnsigned (_ ++ []) := isRun.isUnsigned
    have taken := digitRun_run isRun stops_nil
    rw [List.append_nil] at isUnsigned taken
    rw [signedRun?, splitSign_append isSign isUnsigned]
    simp only [taken]
    cases digits with
    | nil => exact absurd rfl isRun.ne_nil
    | cons => rfl

/-- The integer of an integer numeral is found if the numeral does not have too many digits. -/
theorem integer?_eq_some_iff {cs : List Char} {n : Int} :
    integer? cs = some n ↔ ∃ negative digits, IsInteger cs negative digits ∧
      digits.length ≤ maxDigits ∧ n = Double.signed negative (ofDigits digits) := by
  simp only [integer?, Option.bind_eq_bind, Option.bind_eq_some_iff, Prod.exists,
    signedRun?_eq_some_iff]
  constructor
  · rintro ⟨negative, digits, isInteger, found⟩
    split at found
    next few => exact ⟨negative, digits, isInteger, few, (Option.some.inj found).symm⟩
    next => cases found
  · rintro ⟨negative, digits, isInteger, few, rfl⟩
    exact ⟨negative, digits, isInteger, if_pos few⟩

/-! ## Decimal numerals -/

theorem exponent?_eq_some_iff {cs : List Char} {power : Int} :
    exponent? cs = some power ↔ IsExponent cs power := by
  constructor
  · intro found
    cases cs with
    | nil =>
        cases found
        exact .absent
    | cons mark rest =>
        rw [exponent?] at found
        split at found
        next isMark =>
          obtain ⟨⟨negative, digits⟩, read, rfl⟩ := Option.map_eq_some_iff.mp found
          exact .present isMark (signedRun?_eq_some_iff.mp read)
        next => cases found
  · rintro (_ | ⟨isMark, isPower⟩)
    · rfl
    · rw [exponent?, if_pos isMark, signedRun?_eq_some_iff.mpr isPower]
      rfl

theorem IsExponent.stops {cs : List Char} {power : Int} (isExponent : IsExponent cs power) :
    Stops cs := by
  cases isExponent with
  | absent => exact stops_nil
  | present isMark => rcases isMark with rfl | rfl <;> exact stops_cons.mpr (by decide)

theorem stops_point (cs : List Char) : Stops ('.' :: cs) := stops_cons.mpr (by decide)

theorem fractionRun_of_isExponent {cs : List Char} {power : Int} (isExponent : IsExponent cs power) :
    fractionRun cs = ([], cs) := by
  cases isExponent with
  | absent => rfl
  | present isMark => rcases isMark with rfl | rfl <;> rfl

/-- A mantissa is read to its end: its digits, and those of them that follow the point. -/
theorem fractionRun_mantissa {mantissa exponent : List Char} {digits : List Nat} {places : Nat}
    {power : Int} (isMantissa : IsMantissa mantissa digits places)
    (isExponent : IsExponent exponent power) :
    ∃ whole rest fraction, digitRun (mantissa ++ exponent) = (whole, rest) ∧
      fractionRun rest = (fraction, exponent) ∧ digits = whole ++ fraction ∧
      places = fraction.length ∧ digits ≠ [] := by
  have stops := isExponent.stops
  cases isMantissa with
  | whole isRun =>
      exact ⟨digits, exponent, [], digitRun_run isRun stops, fractionRun_of_isExponent isExponent,
        (List.append_nil _).symm, rfl, isRun.ne_nil⟩
  | pointed isRun =>
      rw [List.append_assoc]
      exact ⟨digits, '.' :: exponent, [], digitRun_run isRun (stops_point _),
        digitRun_of_stops stops, (List.append_nil _).symm, rfl, isRun.ne_nil⟩
  | fraction isRun =>
      exact ⟨[], _, digits, digitRun_of_stops (stops_point _), digitRun_run isRun stops, rfl, rfl,
        isRun.ne_nil⟩
  | @both run fraction whole decimals isRun isFraction =>
      rw [List.append_assoc]
      exact ⟨whole, '.' :: (fraction ++ exponent), decimals, digitRun_run isRun (stops_point _),
        digitRun_run isFraction stops, rfl, rfl, by simp [isRun.ne_nil]⟩

theorem isMantissa_of_digitRun {cs rest left : List Char} {whole fraction : List Nat}
    (isWhole : digitRun cs = (whole, rest)) (isFraction : fractionRun rest = (fraction, left))
    (some : whole ++ fraction ≠ []) :
    ∃ mantissa, cs = mantissa ++ left ∧ IsMantissa mantissa (whole ++ fraction) fraction.length := by
  have wholeSound := digitRun_sound cs
  rw [isWhole] at wholeSound
  unfold fractionRun at isFraction
  split at isFraction
  next rest =>
    have fractionSound := digitRun_sound rest
    rw [isFraction] at fractionSound
    rcases wholeSound with ⟨rfl, rfl⟩ | ⟨run, rfl, isRun⟩ <;>
      rcases fractionSound with ⟨rfl, rfl⟩ | ⟨decimals, rfl, areDecimals⟩
    · exact absurd rfl some
    · exact ⟨'.' :: decimals, rfl, .fraction areDecimals⟩
    · exact ⟨run ++ ['.'], by simp, by simpa using IsMantissa.pointed isRun⟩
    · exact ⟨run ++ '.' :: decimals, by simp, .both isRun areDecimals⟩
  next =>
    obtain ⟨rfl, rfl⟩ := Prod.mk.inj isFraction
    rcases wholeSound with ⟨rfl, rfl⟩ | ⟨run, rfl, isRun⟩
    · exact absurd rfl some
    · exact ⟨run, rfl, by simpa using IsMantissa.whole isRun⟩

theorem decimal?_eq_some_iff {negative : Bool} {cs : List Char} {read : Fractional} :
    decimal? negative cs = some read ↔ ∃ mantissa exponent digits places power,
      cs = mantissa ++ exponent ∧ IsMantissa mantissa digits places ∧ IsExponent exponent power ∧
        read = .decimal negative (ofDigits digits) (power - places) := by
  constructor
  · intro found
    rcases isWhole : digitRun cs with ⟨whole, rest⟩
    rcases isFraction : fractionRun rest with ⟨fraction, left⟩
    simp only [decimal?, isWhole, isFraction] at found
    split at found
    next => cases found
    next some =>
      obtain ⟨power, isPower, rfl⟩ := Option.map_eq_some_iff.mp found
      obtain ⟨mantissa, rfl, isMantissa⟩ :=
        isMantissa_of_digitRun isWhole isFraction (by simpa using some)
      exact ⟨mantissa, left, _, _, power, rfl, isMantissa, exponent?_eq_some_iff.mp isPower, rfl⟩
  · rintro ⟨mantissa, exponent, digits, places, power, rfl, isMantissa, isExponent, rfl⟩
    obtain ⟨whole, rest, fraction, isWhole, isFraction, rfl, rfl, some⟩ :=
      fractionRun_mantissa isMantissa isExponent
    simp only [decimal?, isWhole, isFraction, exponent?_eq_some_iff.mpr isExponent]
    rw [if_neg (by simpa using some)]
    rfl

theorem IsMantissa.cons_eq {mantissa : List Char} {digits : List Nat} {places : Nat}
    (isMantissa : IsMantissa mantissa digits places) :
    ∃ c cs, mantissa = c :: cs ∧ (c = '.' ∨ ∃ digit, digitValue? c = some digit) := by
  cases isMantissa with
  | whole isRun =>
      obtain ⟨c, cs, digit, rfl, isDigit⟩ := isRun.cons_eq
      exact ⟨c, cs, rfl, .inr ⟨digit, isDigit⟩⟩
  | pointed isRun =>
      obtain ⟨c, cs, digit, rfl, isDigit⟩ := isRun.cons_eq
      exact ⟨c, _, rfl, .inr ⟨digit, isDigit⟩⟩
  | fraction isRun => exact ⟨'.', _, rfl, .inl rfl⟩
  | both isRun isFraction =>
      obtain ⟨c, cs, digit, rfl, isDigit⟩ := isRun.cons_eq
      exact ⟨c, _, rfl, .inr ⟨digit, isDigit⟩⟩

theorem isAlpha_iff {c : Char} :
    c.isAlpha = true ↔ (65 ≤ c.toNat ∧ c.toNat ≤ 90) ∨ (97 ≤ c.toNat ∧ c.toNat ≤ 122) :=
  Bool.or_eq_true_iff.trans <| or_congr decide_eq_true_iff <|
    Bool.and_eq_true_iff.trans (and_congr decide_eq_true_iff decide_eq_true_iff)

theorem not_isAlpha_of_digitValue? {c : Char} {digit : Nat} (isDigit : digitValue? c = some digit) :
    c.isAlpha = false := by
  obtain ⟨start, found, -⟩ := Option.map_eq_some_iff.mp isDigit
  have inside := List.find?_some found
  have apart : ∀ start ∈ digitZeros, start + 10 ≤ 65 ∨ 90 < start ∧ start + 10 ≤ 97 ∨ 122 < start := by
    decide
  have isApart := apart start (List.mem_of_find?_eq_some found)
  simp only [Bool.and_eq_true, decide_eq_true_eq] at inside
  rw [Bool.eq_false_iff]
  intro letter
  rcases isAlpha_iff.mp letter with ⟨least, most⟩ | ⟨least, most⟩ <;> omega

theorem isAlpha_of_toLower {c : Char} (letter : c.toLower.isAlpha = true) : c.isAlpha = true := by
  by_contra notLetter
  have same : c.toLower = c := dif_neg fun upper => notLetter (isAlpha_iff.mpr (.inl upper))
  exact notLetter (same ▸ letter)

/-- A mantissa is none of the words. -/
theorem IsMantissa.map_toLower_ne {mantissa : List Char} {digits : List Nat} {places : Nat}
    (isMantissa : IsMantissa mantissa digits places) (rest : List Char) {first : Char}
    {word : List Char} (letter : first.isAlpha = true) :
    (mantissa ++ rest).map Char.toLower ≠ first :: word := by
  obtain ⟨c, cs, rfl, isFirst⟩ := isMantissa.cons_eq
  intro same
  have isLower : c.toLower = first := (List.cons.inj same).1
  have isLetter := isAlpha_of_toLower (isLower ▸ letter)
  rcases isFirst with rfl | ⟨digit, isDigit⟩
  · exact absurd isLetter (by decide)
  · exact absurd isLetter (by simp [not_isAlpha_of_digitValue? isDigit])

theorem IsMantissa.isUnsigned {mantissa : List Char} {digits : List Nat} {places : Nat}
    (isMantissa : IsMantissa mantissa digits places) (rest : List Char) :
    IsUnsigned (mantissa ++ rest) := by
  obtain ⟨c, cs, rfl, isFirst⟩ := isMantissa.cons_eq
  rintro _ ⟨⟩
  rcases isFirst with rfl | ⟨digit, isDigit⟩
  · decide
  · constructor <;> rintro rfl <;> revert isDigit digit <;> decide

/-- The decimal numerals are what the parser takes for them. -/
theorem fractional?_eq_decimal_iff {cs : List Char} {negative : Bool} {digits : Nat}
    {exponent : Int} : fractional? cs = some (.decimal negative digits exponent) ↔
      IsScaled cs negative digits exponent := by
  constructor
  · intro found
    obtain ⟨sign, isSign, isSplit⟩ := splitSign_sound cs
    simp only [fractional?] at found
    split at found
    next => cases found
    split at found
    next => cases found
    next =>
      obtain ⟨mantissa, power, ds, places, n, isRest, isMantissa, isExponent, same⟩ :=
        decimal?_eq_some_iff.mp found
      obtain ⟨rfl, rfl, rfl⟩ := Fractional.decimal.inj same
      have made := IsScaled.mk isSign isMantissa isExponent
      rwa [← isRest, ← isSplit] at made
  · rintro ⟨isSign, isMantissa, isExponent⟩
    rw [fractional?, splitSign_append isSign (isMantissa.isUnsigned _)]
    simp only
    rw [if_neg, if_neg]
    · exact decimal?_eq_some_iff.mpr
        ⟨_, _, _, _, _, rfl, isMantissa, isExponent, rfl⟩
    · exact isMantissa.map_toLower_ne _ rfl
    · exact not_or.mpr ⟨isMantissa.map_toLower_ne _ rfl, isMantissa.map_toLower_ne _ rfl⟩

theorem IsDecimal.unique {cs : List Char} {q r : ℚ} (isDecimal : IsDecimal cs q)
    (isOther : IsDecimal cs r) : q = r := by
  obtain ⟨negative, digits, exponent, isScaled, rfl⟩ := isDecimal
  obtain ⟨minus, significant, power, isAlso, rfl⟩ := isOther
  have same := (fractional?_eq_decimal_iff.mpr isScaled).symm.trans
    (fractional?_eq_decimal_iff.mpr isAlso)
  obtain ⟨rfl, rfl, rfl⟩ := Fractional.decimal.inj (Option.some.inj same)
  rfl

end Numeral

end TypedReply
