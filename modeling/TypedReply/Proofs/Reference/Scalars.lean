import TypedReply.Proofs.Aligned
import TypedReply.Proofs.Coerce.Calendar
import TypedReply.Proofs.Value.Distinct
import TypedReply.Proofs.Value.IntText
import TypedReply.Reference.Loose
import Mathlib.Data.List.TakeWhile

/-!
# Scalars that are taken

Scalars of the declared kind, members and choices are taken as they are, members of enumerations of
integers as the integers, and texts of integers and Booleans as what they say.
-/

namespace TypedReply

namespace Loose

open Value (intText toList_intText isDigit_of_mem_decimalDigits)

/-! ## Values that are taken as they are -/

theorem scalar_of_scalarKind? {kind : ScalarKind} {value : Value}
    (isKind : value.scalarKind? = some kind) : scalar kind value = .ok (value, .exact) := by
  cases value <;> cases isKind <;> rfl

theorem member_toValue (cls : EnumClass) (entry : String × Value) :
    member cls (cls.toValue entry) = .ok (cls.toValue entry, .exact) := by
  simp [member, EnumClass.has, EnumClass.toValue]

/-- A choice of a literal fits it exactly. -/
theorem choice_of_mem {values : List Value}
    (primitive : ∀ value ∈ values, value.isPrimitive = true) {value : Value}
    (isChoice : value ∈ values) : choice values value = .ok (value, .exact) := by
  obtain ⟨equal, sameType⟩ := Value.same_self (primitive value isChoice)
  have own : ((values.map fun choice => (choice, choice)).filter (·.1.same value)).find?
      (fun entry => entry.1.isPrimitive && entry.1.sameType value) = some (value, value) := by
    apply find?_eq_some_of_unique
    · exact List.mem_filter.mpr ⟨List.mem_map.mpr ⟨value, isChoice, rfl⟩, equal⟩
    · simp [sameType, primitive value isChoice]
    · intro entry isEntry holds
      obtain ⟨isPair, isEqual⟩ := List.mem_filter.mp isEntry
      obtain ⟨other, -, rfl⟩ := List.mem_map.mp isPair
      simp only [Bool.and_eq_true] at holds
      rw [Value.eq_of_same holds.1 isEqual holds.2]
  simp [choice, named?, own]

theorem scalar_null (kind : ScalarKind) : ∃ problem, scalar kind .null = .error problem := by
  cases kind <;> exact ⟨_, rfl⟩

theorem bool_word (b : Bool) :
    bool (.str (if b then "true" else "false")) = .ok (.bool b, .lenient) := by
  have isWord : boolOfText? (if b then "true" else "false") = some b := by
    cases b <;> decide +kernel
  have isRead (text : String) :
      bool (.str text) = (boolOfText? text).elim (.error .booleanWord) fun b => lenient (.bool b) := rfl
  rw [isRead, isWord]
  rfl

/-! ## Integers in texts -/

theorem head?_decimalDigits_ne {n : Nat} (positive : 0 < n) :
    (decimalDigits n).head? ≠ some '0' := by
  have single : ∀ digit < 10, 0 < digit → [digit.digitChar].head? ≠ some '0' := by decide
  induction n using Nat.strongRecOn with
  | ind n ih =>
      rw [decimalDigits, Nat.toDigits_eq_if (by decide)]
      split
      next small => exact single n small positive
      next large =>
        rw [List.head?_append_of_ne_nil _ Nat.toDigits_ne_nil]
        exact ih (n / 10) (by omega) (by omega)

theorem asciiDigit?_of_isDigit {c : Char} (isDigit : c.isDigit = true) :
    Iso.asciiDigit? c = some (c.toNat - 48) := by
  rw [Char.isDigit, Bool.and_eq_true, decide_eq_true_iff, decide_eq_true_iff] at isDigit
  rw [Iso.asciiDigit?, if_pos]
  exact isDigit

theorem exists_digits_of_decimalDigits (n : Nat) : ∃ digits,
    (decimalDigits n).mapM Iso.asciiDigit? = some digits ∧ Numeral.ofDigits digits = n := by
  have each (cs : List Char) (areDigits : ∀ c ∈ cs, c.isDigit = true) :
      cs.mapM Iso.asciiDigit? = some (cs.map fun c => c.toNat - 48) := by
    induction cs with
    | nil => rfl
    | cons c cs ih =>
        obtain ⟨isDigit, areDigits⟩ := List.forall_mem_cons.mp areDigits
        rw [List.mapM_cons, asciiDigit?_of_isDigit isDigit, ih areDigits]
        rfl
  refine ⟨_, each _ fun c => isDigit_of_mem_decimalDigits, ?_⟩
  rw [Numeral.ofDigits, List.foldl_map]
  exact Nat.ofDigitChars_ten_toDigits

theorem splitMinus_intText (n : Int) :
    splitMinus (intText n).toList = (decide (n < 0), decimalDigits n.natAbs) := by
  rw [toList_intText]
  split
  next negative =>
    rw [decide_eq_true negative]
    rfl
  next notNegative =>
    rw [decide_eq_false notNegative]
    unfold splitMinus
    split
    next signed =>
      have isDigit := isDigit_of_mem_decimalDigits (signed ▸ List.mem_cons_self)
      cases isDigit
    next => rfl

theorem strictInteger?_intText (n : Int) : strictInteger? (intText n).toList = some n := by
  obtain ⟨digits, areDigits, isNumber⟩ := exists_digits_of_decimalDigits n.natAbs
  have nonempty : (decimalDigits n.natAbs).isEmpty = false :=
    List.isEmpty_eq_false_iff.mpr Nat.toDigits_ne_nil
  have leads : ((decimalDigits n.natAbs).head? == some '0' &&
      decide ((decimalDigits n.natAbs).length ≠ 1)) = false := by
    rcases Nat.eq_zero_or_pos n.natAbs with isZero | positive
    · rw [isZero]
      decide
    · rw [beq_eq_false_iff_ne.mpr (head?_decimalDigits_ne positive), Bool.false_and]
  simp only [strictInteger?, splitMinus_intText, nonempty, leads, areDigits, Bool.or_false,
    Bool.false_eq_true, if_false, Option.map_some, isNumber, Double.signed, Option.some.injEq,
    decide_eq_true_eq]
  split <;> omega

theorem isOversized_intText (n : Int) :
    isOversized (intText n).toList = decide (mostCharacters < (intText n).length) := by
  have run : (decimalDigits n.natAbs).takeWhile (fun c => (Iso.asciiDigit? c).isSome) =
      decimalDigits n.natAbs := by
    rw [List.takeWhile_eq_self_iff]
    intro c written
    rw [asciiDigit?_of_isDigit (isDigit_of_mem_decimalDigits written)]
    rfl
  have longer : (decimalDigits n.natAbs).length ≤ (intText n).length := by
    rw [← String.length_toList, toList_intText]
    split <;> simp
  simp only [isOversized, splitMinus_intText, run, String.length_toList]
  rw [Nat.add_sub_cancel' longer]
  rcases Nat.eq_zero_or_pos n.natAbs with isZero | positive
  · obtain rfl := Int.natAbs_eq_zero.mp isZero
    decide
  · rw [bne_iff_ne.mpr (head?_decimalDigits_ne positive), Bool.true_and]

theorem integerOfText_intText {n : Int} (short : (intText n).length ≤ mostCharacters) :
    integerOfText (intText n).toList = .ok n := by
  have fits : isOversized (intText n).toList = false := by
    rw [isOversized_intText, decide_eq_false_iff_not, Nat.not_lt]
    exact short
  rw [integerOfText, shortInteger?, fits, strictInteger?_intText]
  rfl

theorem integer_of_long {n : Int} (long : mostCharacters < (intText n).length) :
    integer (.str (intText n)) = .error .integerSize := by
  have oversized : isOversized (intText n).toList = true := by
    rw [isOversized_intText]
    exact decide_eq_true long
  have isRead : integer (.str (intText n)) = (integerOfText (intText n).toList >>= fun n =>
      lenient (.int n)) := rfl
  rw [isRead, integerOfText, shortInteger?, oversized]
  rfl

end Loose

end TypedReply
