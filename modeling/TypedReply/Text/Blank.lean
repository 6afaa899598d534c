/-!
# Blank characters and trimming

Blank are the characters of Unicode's white space property together with the four information
separators U+001C to U+001F.
-/

namespace TypedReply.Text

/-- Whether trimming removes the character. -/
def isBlank (c : Char) : Bool :=
  let code := c.toNat
  (9 ≤ code && code ≤ 13) || (0x1C ≤ code && code ≤ 0x20) || code == 0x85 || code == 0xA0 ||
    code == 0x1680 || (0x2000 ≤ code && code ≤ 0x200A) || code == 0x2028 || code == 0x2029 ||
    code == 0x202F || code == 0x205F || code == 0x3000

/-- Removes the characters of a class from both ends of a text. -/
def trimBy (drop : Char → Bool) (cs : List Char) : List Char :=
  ((cs.dropWhile drop).reverse.dropWhile drop).reverse

/-- Removes blank characters from both ends of a text. -/
def trim (cs : List Char) : List Char := trimBy isBlank cs

theorem isBlank_of_isDigit {c : Char} (isDigit : c.isDigit = true) : isBlank c = false := by
  simp only [Char.isDigit, Bool.and_eq_true, decide_eq_true_eq, UInt32.le_iff_toNat_le] at isDigit
  obtain ⟨least, greatest⟩ : 48 ≤ c.toNat ∧ c.toNat ≤ 57 := isDigit
  simp only [isBlank, Bool.or_eq_false_iff, Bool.and_eq_false_iff, decide_eq_false_iff_not,
    beq_eq_false_iff_ne]
  omega

theorem trim_eq_self {cs : List Char} (each : ∀ c ∈ cs, isBlank c = false) : trim cs = cs := by
  have undropped {ds : List Char} (each : ∀ c ∈ ds, isBlank c = false) : ds.dropWhile isBlank = ds := by
    cases ds with
    | nil => rfl
    | cons d ds => simp [each d List.mem_cons_self]
  rw [trim, trimBy, undropped each, undropped (by simpa using each), List.reverse_reverse]

end TypedReply.Text
