import TypedReply.Proofs.Coerce.Json
import Mathlib.Algebra.Order.Field.Rat
import Mathlib.Data.Rat.Cast.Order
import Mathlib.Tactic.FieldSimp
import Mathlib.Tactic.Linarith
import Mathlib.Tactic.NormNum
import Mathlib.Tactic.Positivity
import Mathlib.Tactic.Ring

/-!
# Rounding to binary floating point numbers

Every magnitude code stands for a number of units, and a greater code for a greater one. A decimal is
read as the number whose code is nearest to it, as if there were codes without end: no other is
nearer, and of two equally near ones it is the even one. So the code is determined by the decimal,
and where the decimal is itself a number of the format it is the one.
-/

namespace TypedReply

namespace Double

/-! ## Codes -/

theorem binade_pos : 0 < binade := Nat.two_pow_pos 52

theorem unitsPerOne_pos : 0 < unitsPerOne := by
  obtain ⟨more, isUnits, -⟩ := exists_units
  exact isUnits ▸ Nat.two_pow_pos more

/-- A significand of 53 bits at most and an exponent make up a code, provided that the significand is
not smaller than it need be. -/
theorem units_encode {significant exponent : Nat} (fits : significant ≤ 2 * binade)
    (normal : exponent = 0 ∨ binade ≤ significant) :
    units (significant + exponent * binade) = significant * 2 ^ exponent := by
  have positive := binade_pos
  rcases Nat.lt_or_ge significant binade with small | large
  · obtain rfl : exponent = 0 := normal.resolve_right (Nat.not_le.mpr small)
    simp [units, significand, shift, small, Nat.div_eq_of_lt small]
  · -- The significand is that of the code, or twice as large where the code begins the next binade.
    obtain ⟨rest, rfl⟩ := Nat.exists_eq_add_of_le large
    rcases Nat.lt_or_ge rest binade with inside | past
    · have shape : binade + rest + exponent * binade = rest + (exponent + 1) * binade := by ring
      have notSmall : ¬rest + (exponent + 1) * binade < binade := by rw [Nat.add_mul]; omega
      rw [units, significand, shift, shape, if_neg notSmall, Nat.add_mul_mod_self_right,
        Nat.add_mul_div_right _ _ positive, Nat.mod_eq_of_lt inside, Nat.div_eq_of_lt inside,
        Nat.zero_add, Nat.add_sub_cancel, Nat.pow_eq]
    · obtain rfl : rest = binade := by omega
      have shape : binade + binade + exponent * binade = (exponent + 2) * binade := by ring
      have notSmall : ¬(exponent + 2) * binade < binade := by rw [Nat.add_mul]; omega
      rw [units, significand, shift, shape, if_neg notSmall, Nat.mul_mod_left,
        Nat.mul_div_cancel _ positive, Nat.add_zero, Nat.pow_eq,
        show exponent + 2 - 1 = exponent + 1 by omega]
      ring

theorem exists_encoding (code : Nat) : ∃ significant exponent,
    code = significant + exponent * binade ∧ significant < 2 * binade ∧
      (exponent = 0 ∨ binade ≤ significant) := by
  rcases Nat.lt_or_ge code binade with small | large
  · exact ⟨code, 0, by simp, by omega, .inl rfl⟩
  · have positive : 1 ≤ code / binade := (Nat.one_le_div_iff binade_pos).mpr large
    have split := Nat.mod_add_div' code binade
    have inside := Nat.mod_lt code binade_pos
    refine ⟨binade + code % binade, code / binade - 1, ?_, by omega, .inr (by omega)⟩
    obtain ⟨exponent, isNext⟩ := Nat.exists_eq_add_of_le positive
    rw [isNext] at split ⊢
    rw [Nat.add_sub_cancel_left]
    rw [Nat.add_mul] at split
    omega

theorem units_lt_succ (code : Nat) : units code < units (code + 1) := by
  obtain ⟨significant, exponent, rfl, fits, normal⟩ := exists_encoding code
  have next : significant + exponent * binade + 1 = significant + 1 + exponent * binade := by ring
  rw [next, units_encode (Nat.le_of_lt fits) normal,
    units_encode fits (normal.imp_right Nat.le_succ_of_le)]
  exact Nat.mul_lt_mul_of_pos_right (Nat.lt_succ_self _) (Nat.two_pow_pos _)

theorem units_strictMono : StrictMono units := strictMono_nat_of_lt_succ units_lt_succ

@[simp]
theorem units_zero : units 0 = 0 := by
  have encoded := @units_encode 0 0 (Nat.zero_le _) (.inl rfl)
  simpa using encoded

theorem dvd_units {exponent code : Nat} (above : (exponent + 1) * binade ≤ code) :
    2 ^ exponent ∣ units code := by
  obtain ⟨significant, power, rfl, fits, normal⟩ := exists_encoding code
  rw [units_encode (Nat.le_of_lt fits) normal]
  have notLess : exponent ≤ power := by
    by_contra less
    have atMost : (power + 2) * binade ≤ (exponent + 1) * binade :=
      Nat.mul_le_mul_right _ (by omega)
    rw [Nat.add_mul] at atMost
    omega
  exact Dvd.dvd.mul_left (Nat.pow_dvd_pow 2 notLess) _

/-! ## The nearest code -/

/-- A code is nearest to a number of units: no other is nearer, and it is even where another is as
near. -/
structure IsNearest (amount : ℚ) (code : Nat) : Prop where
  nearest : ∀ other, |amount - units code| ≤ |amount - units other|
  even : ∀ other, other ≠ code → |amount - units code| = |amount - units other| → code % 2 = 0

theorem IsNearest.not_lt {amount : ℚ} {code other : Nat} (isNearest : IsNearest amount code)
    (isOther : IsNearest amount other) : ¬code < other := by
  intro less
  have sameDistance : |amount - units code| = |amount - units other| :=
    le_antisymm (isNearest.nearest other) (isOther.nearest code)
  have codeEven := isNearest.even other (by omega) sameDistance
  have otherEven := isOther.even code (by omega) sameDistance.symm
  -- Both being even, there is a code between them, which is nearer.
  have low : (units code : ℚ) < units (code + 1) := by exact_mod_cast units_lt_succ code
  have high : (units (code + 1) : ℚ) < units other := by
    exact_mod_cast units_strictMono (show code + 1 < other by omega)
  have between := isNearest.nearest (code + 1)
  rcases abs_eq_abs.mp sameDistance with same | opposite
  · linarith
  · have left : |amount - units code| = amount - units code := abs_of_pos (by linarith)
    rw [left] at between
    rcases abs_cases (amount - units (code + 1) : ℚ) with ⟨same, -⟩ | ⟨same, -⟩ <;>
      rw [same] at between <;> linarith

theorem IsNearest.unique {amount : ℚ} {code other : Nat} (isNearest : IsNearest amount code)
    (isOther : IsNearest amount other) : code = other :=
  Nat.le_antisymm (Nat.le_of_not_lt (isOther.not_lt isNearest))
    (Nat.le_of_not_lt (isNearest.not_lt isOther))

theorem isNearest_units (code : Nat) : IsNearest (units code) code where
  nearest other := by simp
  even other different same := by
    rw [sub_self, abs_zero, eq_comm, abs_eq_zero, sub_eq_zero, Nat.cast_inj] at same
    exact absurd (units_strictMono.injective same).symm different

theorem isNearest_zero {amount : ℚ} (notNegative : 0 ≤ amount) (small : amount < 1 / 2) :
    IsNearest amount 0 where
  nearest other := by
    rcases Nat.eq_zero_or_pos other with rfl | positive
    · exact le_refl _
    · have least : (1 : ℚ) ≤ units other := by
        exact_mod_cast Nat.succ_le_of_lt (units_zero ▸ units_strictMono positive)
      rw [units_zero, Nat.cast_zero, sub_zero, abs_of_nonneg notNegative,
        abs_of_neg (by linarith)]
      linarith
  even _ _ _ := rfl

theorem IsNearest.le_of_units_le {amount : ℚ} {code least : Nat} (isNearest : IsNearest amount code)
    (large : (units least : ℚ) ≤ amount) : least ≤ code := by
  by_contra less
  have smaller : (units code : ℚ) < units least := by
    exact_mod_cast units_strictMono (Nat.lt_of_not_le less)
  have nearer := isNearest.nearest least
  rw [abs_of_nonneg (by linarith), abs_of_nonneg (by linarith)] at nearer
  linarith

/-! ## Rounding quotients -/

/-- A multiple of a divisor is whole divisors and the remainder below what is divided, or whole
divisors and what the remainder lacks above it. -/
theorem exists_distance (quotient : Nat) {rest den : Nat} (inside : rest < den) (other : Nat) :
    (∃ steps : Nat, other + steps = quotient ∧
        |((quotient * den + rest : Nat) : ℤ) - other * den| = steps * den + rest) ∨
      ∃ steps : Nat, other = quotient + 1 + steps ∧
        |((quotient * den + rest : Nat) : ℤ) - other * den| = steps * den + (den - rest) := by
  have least : (0 : ℤ) ≤ rest := Int.natCast_nonneg rest
  have more : (rest : ℤ) < den := Int.ofNat_lt.mpr inside
  rcases Nat.lt_or_ge quotient other with above | below
  · obtain ⟨steps, rfl⟩ := Nat.exists_eq_add_of_le (Nat.succ_le_of_lt above)
    have whole : (0 : ℤ) ≤ steps * den := by positivity
    refine .inr ⟨steps, rfl, ?_⟩
    rw [abs_sub_comm, abs_of_nonneg] <;> push_cast <;> linarith
  · obtain ⟨steps, rfl⟩ := Nat.exists_eq_add_of_le below
    have whole : (0 : ℤ) ≤ steps * den := by positivity
    refine .inl ⟨steps, rfl, ?_⟩
    rw [abs_of_nonneg] <;> push_cast <;> linarith

/-- A rounded quotient is the nearest integer: no other multiple of the divisor is nearer to what is
divided, and it is even where another is as near. -/
theorem roundDiv_nearest (num : Nat) {den : Nat} (positive : 0 < den) (other : Nat) :
    |(num : ℤ) - roundDiv num den * den| ≤ |(num : ℤ) - other * den| ∧
      (other ≠ roundDiv num den →
        |(num : ℤ) - roundDiv num den * den| = |(num : ℤ) - other * den| →
          roundDiv num den % 2 = 0) := by
  have inside : num % den < den := Nat.mod_lt num positive
  have split : num = num / den * den + num % den := (Nat.div_add_mod' num den).symm
  have chosen : roundDiv num den = num / den ∧ 2 * (num % den) ≤ den ∧
        (2 * (num % den) = den → num / den % 2 = 0) ∨
      roundDiv num den = num / den + 1 ∧ den ≤ 2 * (num % den) ∧
        (2 * (num % den) = den → (num / den + 1) % 2 = 0) := by
    simp only [roundDiv]
    split
    · omega
    · split <;> omega
  generalize roundDiv num den = result at chosen ⊢
  generalize num / den = quotient at split chosen
  generalize num % den = rest at split chosen inside
  subst split
  have wholeSteps (steps : Nat) : steps = 0 ∧ (steps : ℤ) * den = 0 ∨ (den : ℤ) ≤ steps * den := by
    rcases Nat.eq_zero_or_pos steps with rfl | some
    · exact .inl ⟨rfl, by simp⟩
    · exact .inr (by exact_mod_cast Nat.le_mul_of_pos_left den some)
  have own : |((quotient * den + rest : Nat) : ℤ) - result * den| =
      if result = quotient then (rest : ℤ) else den - rest := by
    rcases exists_distance quotient inside result with
      ⟨steps, isResult, distance⟩ | ⟨steps, isResult, distance⟩ <;>
      obtain rfl : steps = 0 := by omega
    · rw [distance, if_pos (by omega)]
      simp
    · rw [distance, if_neg (by omega)]
      simp
  rcases exists_distance quotient inside other with
    ⟨steps, isOther, distance⟩ | ⟨steps, isOther, distance⟩ <;>
    rw [own, distance] <;> have := wholeSteps steps <;>
    generalize (steps : ℤ) * den = whole at * <;> split <;> omega

theorem le_roundDiv (num den : Nat) : num / den ≤ roundDiv num den := by
  simp only [roundDiv]
  split
  · omega
  · split <;> omega

/-- The nearest code of a quotient is made up of the rounded significand and the exponent at which
this has 53 bits. -/
theorem exists_nearestCode (num : Nat) {den : Nat} (positive : 0 < den) :
    ∃ exponent significant, nearestCode num den = significant + exponent * binade ∧
      significant = roundDiv num (den * 2 ^ exponent) ∧ significant ≤ 2 * binade ∧
      (exponent = 0 ∨ binade ≤ significant ∧ binade * 2 ^ exponent * den ≤ num) := by
  refine ⟨(num / den).log2 - 52, _, rfl, rfl, ?_, ?_⟩
  · have atMost : num / den < 2 ^ (num / den).log2.succ := Nat.lt_log2_self
    have widened : 2 ^ (num / den).log2.succ ≤ 2 ^ (53 + ((num / den).log2 - 52)) :=
      Nat.pow_le_pow_right Nat.two_pos (by omega)
    have quotient : num / (den * 2 ^ ((num / den).log2 - 52)) < 2 ^ 53 := by
      rw [← Nat.div_div_eq_div_mul, Nat.div_lt_iff_lt_mul (Nat.two_pow_pos _), ← Nat.pow_add]
      omega
    have rounded := roundDiv_le num (den * 2 ^ ((num / den).log2 - 52))
    have twice : 2 ^ 53 = 2 * binade := rfl
    simp only [Nat.pow_eq]
    omega
  · rcases Nat.eq_zero_or_pos ((num / den).log2 - 52) with none | some
    · exact .inl none
    · have notZero : num / den ≠ 0 := by
        intro zero
        simp [zero] at some
      have least : 2 ^ (num / den).log2 ≤ num / den := Nat.log2_self_le notZero
      have split : 2 ^ (num / den).log2 = binade * 2 ^ ((num / den).log2 - 52) := by
        rw [binade, Nat.pow_eq, ← Nat.pow_add]
        congr 1
        omega
      have large : binade * 2 ^ ((num / den).log2 - 52) * den ≤ num :=
        (Nat.le_div_iff_mul_le positive).mp (split ▸ least)
      refine .inr ⟨?_, large⟩
      have quotient : binade ≤ num / (den * 2 ^ ((num / den).log2 - 52)) := by
        rw [Nat.le_div_iff_mul_le (by positivity)]
        calc binade * (den * 2 ^ ((num / den).log2 - 52))
            = binade * 2 ^ ((num / den).log2 - 52) * den := by ring
          _ ≤ num := large
      exact Nat.le_trans quotient (le_roundDiv _ _)

section Nearest

variable {num den exponent significant : Nat}

theorem abs_div_sub_multiple (positive : 0 < den) (num exponent multiple : Nat) :
    |(num / den : ℚ) - (multiple * 2 ^ exponent : Nat)| =
      (|(num : ℤ) - multiple * (den * 2 ^ exponent : Nat)| : ℤ) / (den : ℚ) := by
  have denPositive : (0 : ℚ) < den := by exact_mod_cast positive
  rw [Int.cast_abs, ← abs_of_pos denPositive, ← abs_div, abs_of_pos denPositive]
  congr 1
  push_cast
  field_simp

theorem abs_div_sub_roundDiv_le (positive : 0 < den)
    (isRounded : significant = roundDiv num (den * 2 ^ exponent)) (multiple : Nat) :
    |(num / den : ℚ) - (significant * 2 ^ exponent : Nat)| ≤
      |(num / den : ℚ) - (multiple * 2 ^ exponent : Nat)| := by
  have denPositive : (0 : ℚ) < den := by exact_mod_cast positive
  have divisor : 0 < den * 2 ^ exponent := Nat.mul_pos positive (Nat.two_pow_pos _)
  rw [abs_div_sub_multiple positive, abs_div_sub_multiple positive,
    div_le_div_iff_of_pos_right denPositive, Int.cast_le]
  exact ((isRounded ▸ roundDiv_nearest num divisor) multiple).1

/-- A code whose units are no multiple of the power lies below the binade that the quotient is in, and
is farther from it than the rounded significand. -/
theorem abs_div_sub_roundDiv_lt (positive : 0 < den)
    (isRounded : significant = roundDiv num (den * 2 ^ exponent))
    (normal : exponent = 0 ∨ binade * 2 ^ exponent * den ≤ num)
    {other : Nat} (fine : ¬2 ^ exponent ∣ units other) :
    |(num / den : ℚ) - (significant * 2 ^ exponent : Nat)| < |(num / den : ℚ) - units other| := by
  have denPositive : (0 : ℚ) < den := by exact_mod_cast positive
  have isSome : exponent ≠ 0 := by
    rintro rfl
    exact fine (one_dvd _)
  have large : ((binade * 2 ^ exponent : Nat) : ℚ) ≤ num / den := by
    rw [le_div_iff₀ denPositive]
    exact_mod_cast normal.resolve_left isSome
  have less : other < binade + exponent * binade := by
    by_contra above
    exact fine (dvd_units (by rw [Nat.add_mul, Nat.one_mul, Nat.add_comm]; omega))
  have smaller : (units other : ℚ) < (binade * 2 ^ exponent : Nat) := by
    rw [← units_encode (by omega) (.inr (Nat.le_refl _))]
    exact_mod_cast units_strictMono less
  refine lt_of_le_of_lt (abs_div_sub_roundDiv_le positive isRounded binade) ?_
  rw [abs_of_nonneg (by linarith), abs_of_nonneg (by linarith)]
  linarith

end Nearest

theorem isNearest_nearestCode (num : Nat) {den : Nat} (positive : 0 < den) :
    IsNearest (num / den) (nearestCode num den) := by
  obtain ⟨exponent, significant, isCode, isRounded, fits, normal⟩ := exists_nearestCode num positive
  rw [isCode]
  have isUnits : units (significant + exponent * binade) = significant * 2 ^ exponent :=
    units_encode fits (normal.imp_right And.left)
  have below (other : Nat) (fine : ¬2 ^ exponent ∣ units other) :=
    abs_div_sub_roundDiv_lt positive isRounded (normal.imp_right And.right) fine
  constructor
  · intro other
    rw [isUnits]
    by_cases coarse : 2 ^ exponent ∣ units other
    · obtain ⟨multiple, isMultiple⟩ := coarse
      rw [isMultiple, Nat.mul_comm (2 ^ exponent)]
      exact abs_div_sub_roundDiv_le positive isRounded multiple
    · exact (below other coarse).le
  · intro other different same
    rw [isUnits] at same
    by_cases coarse : 2 ^ exponent ∣ units other
    · obtain ⟨multiple, isMultiple⟩ := coarse
      rw [Nat.mul_comm] at isMultiple
      have notOwn : multiple ≠ significant := by
        rintro rfl
        exact different (units_strictMono.injective (isMultiple.trans isUnits.symm))
      have denPositive : (0 : ℚ) < den := by exact_mod_cast positive
      have divisor : 0 < den * 2 ^ exponent := Nat.mul_pos positive (Nat.two_pow_pos _)
      rw [isMultiple, abs_div_sub_multiple positive, abs_div_sub_multiple positive,
        div_left_inj' denPositive.ne', Int.cast_inj] at same
      have isEven : binade % 2 = 0 := rfl
      have significantEven := ((isRounded ▸ roundDiv_nearest num divisor) multiple).2 notOwn same
      rw [Nat.add_mod, significantEven, Nat.mul_mod, isEven]
      simp
    · exact absurd same (below other coarse).ne

/-! ## Rounding decimals -/

theorem units_codeCount : units codeCount = 2 ^ 1024 * unitsPerOne := by
  have isNext : codeCount = binade + 2046 * binade := by
    unfold codeCount
    ring
  obtain ⟨more, isUnits, isMore⟩ := exists_units
  rw [isNext, units_encode (by omega) (.inr (Nat.le_refl _)), isUnits, binade, Nat.pow_eq,
    Nat.pow_eq, ← Nat.pow_add, ← Nat.pow_add, show 52 + 2046 = 1024 + more by omega]

theorem ofCode_of_le {code : Nat} (past : codeCount ≤ code) (negative : Bool) :
    ofCode negative code = .infinite negative := dif_neg (Nat.not_lt.mpr past)

theorem codeCount_le_of_isNearest {amount code : Nat} (isNearest : IsNearest amount code)
    (large : 2 ^ 1024 * unitsPerOne ≤ amount) : codeCount ≤ code := by
  refine isNearest.le_of_units_le ?_
  rw [units_codeCount]
  exact_mod_cast large

theorem le_mul_pow_of_lt {digits power bits : Nat} (some : digits ≠ 0) (large : 400 < power)
    (few : bits ≤ 1200) : 2 ^ bits ≤ digits * 10 ^ power :=
  calc 2 ^ bits ≤ 2 ^ (3 * power) := Nat.pow_le_pow_right Nat.two_pos (by omega)
    _ = 8 ^ power := Nat.pow_mul 2 3 power
    _ ≤ 10 ^ power := Nat.pow_le_pow_left (by omega) power
    _ ≤ digits * 10 ^ power := Nat.le_mul_of_pos_left _ (Nat.pos_of_ne_zero some)

theorem mul_two_pow_lt {digits power bits : Nat} (small : digits.log2 + (bits + 3) < 3 * power) :
    digits * 2 ^ bits * 2 < 10 ^ power :=
  calc digits * 2 ^ bits * 2 < 2 ^ (digits.log2 + 1) * 2 ^ bits * 2 := by
        have := Nat.lt_log2_self (n := digits)
        gcongr
    _ = 2 ^ (digits.log2 + 1 + bits + 1) := by rw [Nat.pow_succ 2 (_ + bits), ← Nat.pow_add]
    _ ≤ 2 ^ (3 * power) := Nat.pow_le_pow_right Nat.two_pos (by omega)
    _ = 8 ^ power := Nat.pow_mul 2 3 power
    _ ≤ 10 ^ power := Nat.pow_le_pow_left (by omega) power

theorem exists_nearest_of_decimal (negative : Bool) (digits : Nat) (exponent : Int) :
    ∃ code, ofDecimal negative digits exponent = ofCode negative code ∧
      IsNearest (digits * 10 ^ exponent * unitsPerOne) code := by
  cases exponent with
  | ofNat power =>
      have amount : (digits * 10 ^ (Int.ofNat power) * unitsPerOne : ℚ) =
          (digits * 10 ^ power * unitsPerOne : Nat) := by
        rw [Int.ofNat_eq_natCast, zpow_natCast, Nat.cast_mul, Nat.cast_mul, Nat.cast_pow,
          Nat.cast_ofNat]
      have isNearest := isNearest_nearestCode (digits * 10 ^ power * unitsPerOne) Nat.one_pos
      rw [Nat.cast_one, div_one] at isNearest
      rw [amount]
      simp only [ofDecimal]
      split
      next zero =>
        subst zero
        exact ⟨0, rfl, by simpa using isNearest_units 0⟩
      split
      next some large =>
        have past := codeCount_le_of_isNearest isNearest
          (Nat.mul_le_mul_right _ (le_mul_pow_of_lt some large (by omega)))
        exact ⟨_, (ofCode_of_le past negative).symm, isNearest⟩
      next => exact ⟨_, rfl, isNearest⟩
  | negSucc power =>
      have positive : 0 < 10 ^ (power + 1) := Nat.pow_pos (by omega)
      have amount : (digits * 10 ^ (Int.negSucc power) * unitsPerOne : ℚ) =
          (digits * unitsPerOne : Nat) / (10 ^ (power + 1) : Nat) := by
        rw [zpow_negSucc]
        push_cast
        ring
      rw [amount]
      simp only [ofDecimal]
      split
      next small =>
        obtain ⟨more, isUnits, isMore⟩ := exists_units
        have less : digits * unitsPerOne * 2 < 10 ^ (power + 1) := by
          rw [isUnits, Nat.pow_eq]
          exact mul_two_pow_lt (by omega)
        refine ⟨0, rfl, isNearest_zero (div_nonneg (Nat.cast_nonneg _) (Nat.cast_nonneg _)) ?_⟩
        rw [div_lt_div_iff₀ (by exact_mod_cast positive) two_pos, one_mul]
        exact_mod_cast less
      next => exact ⟨_, rfl, isNearest_nearestCode _ positive⟩

/-! ## Integers among the numbers -/

/-- A rational number is rounded to an integer: a finite number of the format that equals the integer
is nearest to it, and both have one sign. -/
def RoundsTo (q : ℚ) (n : ℤ) : Prop :=
  ∃ code < codeCount, IsNearest (|q| * unitsPerOne) code ∧
    (units code : ℚ) = |(n : ℚ)| * unitsPerOne ∧ 0 ≤ q * n

def IsNumber (q : ℚ) : Prop := ∃ code < codeCount, (units code : ℚ) = |q| * unitsPerOne

theorem signed_nonneg_mul (negative : Bool) (first second : Nat) :
    0 ≤ signed negative first * signed negative second := by
  cases negative <;> simp [signed, Int.mul_nonneg]

@[simp]
theorem natAbs_signed (negative : Bool) (magnitude : Nat) :
    (signed negative magnitude).natAbs = magnitude := by
  cases negative <;> simp [signed]

theorem eq_of_natAbs_eq_of_mul_nonneg {m n : ℤ} (same : m.natAbs = n.natAbs) (sign : 0 ≤ m * n) :
    m = n := by
  rcases Int.natAbs_eq_natAbs_iff.mp same with rfl | rfl
  · rfl
  · have zero : n = 0 := by nlinarith
    simp [zero]

theorem toInt?_ofCode_eq_some_iff {negative : Bool} {code : Nat} {n : ℤ} :
    (ofCode negative code).toInt? = some n ↔ code < codeCount ∧
      units code = n.natAbs * unitsPerOne ∧ n = signed negative n.natAbs := by
  unfold ofCode
  split
  next inRange =>
    simp only [toInt?, inRange, true_and]
    constructor
    · intro found
      split at found
      next whole =>
        cases found
        rw [natAbs_signed]
        exact ⟨(Nat.div_mul_cancel (Nat.dvd_of_mod_eq_zero whole)).symm, rfl⟩
      next => cases found
    · rintro ⟨whole, isSigned⟩
      rw [whole, Nat.mul_mod_left, Nat.mul_div_cancel _ unitsPerOne_pos, if_pos rfl, ← isSigned]
  next past => simp [toInt?, past]

theorem abs_scaled (negative : Bool) (digits : Nat) (exponent : ℤ) :
    |(signed negative digits * 10 ^ exponent : ℚ)| = digits * 10 ^ exponent := by
  rw [abs_mul, abs_of_pos (zpow_pos (by norm_num : (0 : ℚ) < 10) exponent), ← Int.cast_abs,
    Int.abs_eq_natAbs, natAbs_signed, Int.cast_natCast]

/-- A decimal is read as an integer if it is rounded to that. -/
theorem toInt?_ofDecimal_eq_some_iff {negative : Bool} {digits : Nat} {exponent n : ℤ} :
    (ofDecimal negative digits exponent).toInt? = some n ↔
      RoundsTo (signed negative digits * 10 ^ exponent) n := by
  obtain ⟨code, isCode, isNearest⟩ := exists_nearest_of_decimal negative digits exponent
  have scale : (0 : ℚ) < 10 ^ exponent := zpow_pos (by norm_num) exponent
  rw [isCode, toInt?_ofCode_eq_some_iff, RoundsTo, abs_scaled]
  constructor
  · rintro ⟨inRange, whole, isSigned⟩
    refine ⟨code, inRange, isNearest, ?_, ?_⟩
    · rw [whole, Nat.cast_mul, Nat.cast_natAbs, Int.cast_abs]
    · have agree := signed_nonneg_mul negative digits n.natAbs
      rw [← isSigned] at agree
      rw [mul_right_comm]
      exact mul_nonneg (by exact_mod_cast agree) scale.le
  · rintro ⟨other, inRange, isOther, whole, agree⟩
    obtain rfl := isNearest.unique isOther
    rw [← Int.cast_abs, Int.abs_eq_natAbs, Int.cast_natCast] at whole
    have isWhole : units code = n.natAbs * unitsPerOne := by exact_mod_cast whole
    refine ⟨inRange, isWhole, eq_of_natAbs_eq_of_mul_nonneg (natAbs_signed _ _).symm ?_⟩
    rcases Nat.eq_zero_or_pos digits with rfl | positive
    · -- Nothing else than zero is nearest to zero.
      have nothing : ((0 : Nat) * 10 ^ exponent * unitsPerOne : ℚ) = units 0 := by
        rw [units_zero, Nat.cast_zero, zero_mul, zero_mul]
      have isZero := isNearest.unique (nothing ▸ isNearest_units 0)
      rw [isZero, units_zero] at isWhole
      have none : n = 0 := Int.natAbs_eq_zero.mp
        ((Nat.mul_eq_zero.mp isWhole.symm).resolve_right unitsPerOne_pos.ne')
      simp [none]
    · have sign : 0 ≤ (signed negative digits : ℚ) * n := by
        rw [mul_right_comm] at agree
        exact nonneg_of_mul_nonneg_left agree scale
      have signs : 0 ≤ signed negative digits * n := by exact_mod_cast sign
      cases negative with
      | false =>
          have least : 0 ≤ n := nonneg_of_mul_nonneg_right signs (by simpa [signed] using positive)
          simpa [signed, Int.natAbs_of_nonneg least] using mul_nonneg least least
      | true =>
          have most : n ≤ 0 := by
            have flipped : 0 ≤ (digits : ℤ) * -n := by simpa [signed] using signs
            have := nonneg_of_mul_nonneg_right flipped (by exact_mod_cast positive)
            omega
          have opposite : signed true n.natAbs = n := by
            simp [signed, abs_of_nonpos most]
          rw [opposite]
          exact mul_self_nonneg n

theorem IsNumber.roundsTo_iff {q : ℚ} (isNumber : IsNumber q) {n : ℤ} : RoundsTo q n ↔ q = n := by
  obtain ⟨code, inRange, isUnits⟩ := isNumber
  have scale : (0 : ℚ) < unitsPerOne := by exact_mod_cast unitsPerOne_pos
  constructor
  · rintro ⟨other, -, isNearest, whole, agree⟩
    rw [← isUnits] at isNearest
    obtain rfl := isNearest.unique (isNearest_units code)
    rw [isUnits] at whole
    rcases abs_eq_abs.mp (mul_right_cancel₀ scale.ne' whole) with same | opposite
    · exact same
    · have zero : (n : ℚ) = 0 := by nlinarith
      rw [opposite, zero, neg_zero]
  · rintro rfl
    exact ⟨code, inRange, isUnits ▸ isNearest_units code, isUnits, mul_self_nonneg _⟩

end Double

end TypedReply
