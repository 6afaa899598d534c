import TypedReply.Proofs.Numeric.Numerals
import TypedReply.Proofs.Numeric.Rounding
import TypedReply.Value.Render

/-!
# Integers that can be written

No text with more than so many digits is read as an integer, and no integer with more of them is
written. What is read of a text, and what a floating point number is equal to, can be written again.
-/

namespace TypedReply

namespace Numeral

/-- An integer has no more digits than a numeral may have. -/
def IsShort (n : Int) : Prop := n.natAbs < 10 ^ maxDigits

theorem isShort_iff {n : Int} :
    IsShort n ↔ (decimalDigits n.natAbs).length ≤ maxDigits :=
  (Nat.length_toDigits_le_iff (by decide) (by decide)).symm

theorem isShort_of_natAbs_lt {n : Int} {power : Nat} (few : power ≤ maxDigits)
    (small : n.natAbs < 2 ^ power) : IsShort n :=
  calc n.natAbs < 2 ^ power := small
    _ ≤ 10 ^ power := Nat.pow_le_pow_left (by decide) power
    _ ≤ 10 ^ maxDigits := Nat.pow_le_pow_right (by decide) few

theorem ofDigits_lt {digits : List Nat} (each : ∀ digit ∈ digits, digit < 10) :
    ofDigits digits < 10 ^ digits.length := by
  induction digits using List.reverseRecOn with
  | nil => exact Nat.one_pos
  | append_singleton digits digit ih =>
      have before := ih fun other isOther => each other (List.mem_append_left _ isOther)
      have last := each digit (List.mem_append_right _ List.mem_cons_self)
      simp only [ofDigits, List.foldl_append, List.foldl_cons, List.foldl_nil, List.length_append,
        List.length_singleton, pow_succ] at before ⊢
      omega

theorem isShort_signed {negative : Bool} {digits : List Nat} (each : ∀ digit ∈ digits, digit < 10)
    (few : digits.length ≤ maxDigits) : IsShort (Double.signed negative (ofDigits digits)) :=
  calc (Double.signed negative (ofDigits digits)).natAbs = ofDigits digits := Double.natAbs_signed ..
    _ < 10 ^ digits.length := ofDigits_lt each
    _ ≤ 10 ^ maxDigits := Nat.pow_le_pow_right (by decide) few

theorem IsRun.lt_ten {run : List Char} {digits : List Nat} (isRun : IsRun run digits) :
    ∀ digit ∈ digits, digit < 10 := by
  induction isRun with
  | last isDigit => exact List.forall_mem_singleton.mpr (Text.digitValue?_lt isDigit)
  | next isDigit _ ih => exact List.forall_mem_cons.mpr ⟨Text.digitValue?_lt isDigit, ih⟩
  | separated isDigit _ ih => exact List.forall_mem_cons.mpr ⟨Text.digitValue?_lt isDigit, ih⟩

theorem isShort_of_integer? {cs : List Char} {n : Int} (read : integer? cs = some n) :
    IsShort n := by
  obtain ⟨negative, digits, ⟨-, isRun⟩, few, rfl⟩ := integer?_eq_some_iff.mp read
  exact isShort_signed isRun.lt_ten few

end Numeral

theorem Double.isShort_of_toInt? {x : Double} {n : Int} (whole : x.toInt? = some n) :
    Numeral.IsShort n := by
  cases x with
  | finite negative code =>
      obtain ⟨-, same⟩ := Option.ite_none_right_eq_some.mp whole
      obtain rfl := Option.some.inj same
      obtain ⟨power, few, isLast⟩ : ∃ power ≤ Numeral.maxDigits,
          units codeCount = 2 ^ power * unitsPerOne :=
        ⟨1024, by decide, units_codeCount⟩
      have small : units code / unitsPerOne < 2 ^ power :=
        Nat.div_lt_of_lt_mul (by linarith [units_strictMono code.isLt])
      exact Numeral.isShort_of_natAbs_lt few ((natAbs_signed ..).trans_lt small)
  | _ => cases whole

end TypedReply
