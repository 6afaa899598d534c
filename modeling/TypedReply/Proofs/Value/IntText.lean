import TypedReply.Value.Render
import Mathlib.Data.Nat.Digits.Defs

/-!
# The texts of integers

The text of an integer is its digits, after a minus if it is negative. Different integers have different
texts.
-/

namespace TypedReply.Value

theorem isDigit_of_mem_decimalDigits {n : Nat} {c : Char} (written : c ∈ decimalDigits n) :
    c.isDigit = true := Nat.isDigit_of_mem_toDigits (by decide) (by decide) written

theorem decimalDigits_inj {m n : Nat} : decimalDigits m = decimalDigits n ↔ m = n := by
  refine ⟨fun same => ?_, congrArg decimalDigits⟩
  rw [← Nat.ofDigitChars_ten_toDigits (n := m), ← Nat.ofDigitChars_ten_toDigits (n := n)]
  exact congrArg (Nat.ofDigitChars 10 · 0) same

theorem intText_inj {m n : Int} : intText m = intText n ↔ m = n := by
  refine ⟨fun same => ?_, congrArg intText⟩
  have noSign {k : Nat} : '-' ∉ decimalDigits k := fun written => by
    cases isDigit_of_mem_decimalDigits written
  have same := String.ofList_inj.mp same
  by_cases isNegative : m < 0 <;> by_cases isOther : n < 0 <;>
    simp only [isNegative, isOther, if_true, if_false, List.nil_append, List.singleton_append,
      List.cons.injEq, true_and, decimalDigits_inj] at same
  · omega
  · exact absurd (same ▸ List.mem_cons_self) noSign
  · exact absurd (same ▸ List.mem_cons_self) noSign
  · omega

theorem toList_intText (n : Int) : (intText n).toList =
    if n < 0 then '-' :: decimalDigits n.natAbs else decimalDigits n.natAbs := by
  rw [intText, String.toList_ofList]
  split <;> rfl

end TypedReply.Value
