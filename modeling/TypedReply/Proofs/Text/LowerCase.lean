import TypedReply.Text.LowerCase

/-!
# Lower-cased text

What is written for a character in lower case is not changed by lower-casing any more: no image of a run
of capitals meets a run, and the capitals outside of the runs are written as characters that no run
holds. A text is therefore lower-cased once and for all, and no capital of ASCII is left in it.
-/

namespace TypedReply.Text

def CaseRun.holds (run : CaseRun) (code : Nat) : Bool :=
  run.first ≤ code && code ≤ run.last && (code - run.first) % run.step == 0

def CaseRun.low (run : CaseRun) : Nat := (run.first + run.offset).toNat

def CaseRun.high (run : CaseRun) : Nat := (run.last + run.offset).toNat

/-- Whether the images of a run are code points of characters. -/
def CaseRun.hasImages (run : CaseRun) : Bool :=
  decide (0 ≤ run.first + run.offset) &&
    (Nat.blt run.high 0xD800 || Nat.blt 0xDFFF run.low && Nat.blt run.high 0x110000)

/-- Whether the images of a run stay out of another: they lie before or behind it, or between the code
points of a run that takes every second one. -/
def CaseRun.staysOut (run other : CaseRun) : Bool :=
  Nat.blt run.high other.first || Nat.blt other.last run.low ||
    other.step == 2 && (run.step == 2 || run.first == run.last) && (run.low + other.first) % 2 == 1

/-- The code points that lower-casing changes; U+0130 goes to two characters. -/
def changingRuns : List CaseRun := ⟨0x41, 0x5A, 1, 32⟩ :: ⟨0x130, 0x130, 1, 0⟩ :: lowerRuns

def IsLowered (c : Char) : Prop := ∀ run ∈ changingRuns, run.holds c.toNat = false

instance (c : Char) : Decidable (IsLowered c) :=
  inferInstanceAs (Decidable (∀ run ∈ changingRuns, run.holds c.toNat = false))

variable {c : Char} {cs before : List Char}

theorem CaseRun.hasImages_iff {run : CaseRun} : run.hasImages = true ↔ 0 ≤ run.first + run.offset ∧
    (run.high < 0xD800 ∨ 0xDFFF < run.low ∧ run.high < 0x110000) := by
  simp only [hasImages, Bool.and_eq_true, Bool.or_eq_true, decide_eq_true_eq, Nat.blt_eq]

theorem CaseRun.exists_image {run : CaseRun} (hasImages : run.hasImages = true) {code : Nat}
    (isHeld : run.holds code = true) : ∃ image : Nat, (image : Int) = code + run.offset ∧
      run.low ≤ image ∧ image ≤ run.high := by
  have bounds := (hasImages_iff.mp hasImages).1
  simp only [holds, Bool.and_eq_true, decide_eq_true_eq] at isHeld
  refine ⟨(code + run.offset).toNat, by omega, ?_, ?_⟩
  · rw [low]
    omega
  · rw [high]
    omega

theorem CaseRun.not_holds_of_staysOut {run other : CaseRun} (hasImages : run.hasImages = true)
    (apart : run.staysOut other = true) {code image : Nat} (isHeld : run.holds code = true)
    (isImage : (image : Int) = code + run.offset) : other.holds image = false := by
  have bounds := (hasImages_iff.mp hasImages).1
  simp only [holds, Bool.and_eq_true, decide_eq_true_eq, beq_iff_eq] at isHeld
  simp only [staysOut, low, high, Bool.or_eq_true, Bool.and_eq_true, Nat.blt_eq, beq_iff_eq] at apart
  simp only [holds, Bool.and_eq_false_iff, decide_eq_false_iff_not, beq_eq_false_iff_ne]
  obtain ⟨⟨least, greatest⟩, inStep⟩ := isHeld
  rcases apart with (isBefore | isBehind) | ⟨⟨everySecond, ofRun⟩, isBetween⟩
  · omega
  · omega
  · rw [everySecond]
    rcases ofRun with ofRun | ofRun
    · rw [ofRun] at inStep
      omega
    · omega

theorem images_lowered :
    ∀ run ∈ lowerRuns, run.hasImages = true ∧ ∀ other ∈ changingRuns, run.staysOut other = true := by
  have table : (lowerRuns.all fun run => run.hasImages && changingRuns.all run.staysOut) = true := by
    decide +kernel
  simpa only [List.all_eq_true, Bool.and_eq_true] using table

theorem not_ascii_lowerRuns : ∀ run ∈ lowerRuns, 0x80 ≤ run.first := by decide +kernel

theorem ascii_toLower : ∀ code < 0x80, (Char.ofNat code).toLower.toNat < 0x80 ∧
    ¬(0x41 ≤ (Char.ofNat code).toLower.toNat ∧ (Char.ofNat code).toLower.toNat ≤ 0x5A) := by decide

/-! ## Characters -/

theorem isUpper_iff : c.isUpper = true ↔ 0x41 ≤ c.toNat ∧ c.toNat ≤ 0x5A := decide_eq_true_iff

theorem isLower_iff : c.isLower = true ↔ 0x61 ≤ c.toNat ∧ c.toNat ≤ 0x7A :=
  Bool.and_eq_true_iff.trans (and_congr decide_eq_true_iff decide_eq_true_iff)

theorem isLowered_iff : IsLowered c ↔ c.isUpper = false ∧ c ≠ 'İ' ∧
    ∀ run ∈ lowerRuns, run.holds c.toNat = false := by
  have upper : CaseRun.holds ⟨0x41, 0x5A, 1, 32⟩ c.toNat = c.isUpper := by
    rw [Bool.eq_iff_iff, isUpper_iff]
    simp [CaseRun.holds, Nat.mod_one]
  have dotted : CaseRun.holds ⟨0x130, 0x130, 1, 0⟩ c.toNat = false ↔ c ≠ 'İ' := by
    have isDotted : c = 'İ' ↔ c.toNat = 0x130 := Char.toNat_inj.symm
    rw [ne_eq, isDotted]
    simp only [CaseRun.holds, Bool.and_eq_false_iff, decide_eq_false_iff_not, Nat.mod_one,
      beq_self_eq_true, Bool.true_eq_false, or_false]
    omega
  rw [IsLowered, changingRuns, List.forall_mem_cons, List.forall_mem_cons, upper, dotted]

theorem lowerChar_eq (c : Char) : lowerChar c = if c.toNat < 0x80 then c.toLower else
    match lowerRuns.find? fun run => run.holds c.toNat with
    | some run => Char.ofNat (c.toNat + run.offset).toNat
    | none => c := rfl

theorem lowerChar_of_isLowered (isLowered : IsLowered c) : lowerChar c = c := by
  obtain ⟨notUpper, -, unheld⟩ := isLowered_iff.mp isLowered
  have absent : (lowerRuns.find? fun run => run.holds c.toNat) = none :=
    List.find?_eq_none.mpr fun run isRun => by simp [unheld run isRun]
  rw [lowerChar_eq, absent]
  split
  · exact dif_neg (Bool.eq_false_iff.mp notUpper ∘ isUpper_iff.mpr)
  · rfl

theorem toNat_ofNat {code : Nat} (isScalar : code < 0xD800 ∨ 0xDFFF < code ∧ code < 0x110000) :
    (Char.ofNat code).toNat = code := by
  have isValid : code.isValidChar := by
    unfold Nat.isValidChar
    omega
  rw [Char.ofNat, dif_pos isValid]
  rfl

theorem isLowered_toLower (isAscii : c.toNat < 0x80) : IsLowered c.toLower := by
  have lowered := ascii_toLower c.toNat isAscii
  rw [Char.ofNat_toNat] at lowered
  refine isLowered_iff.mpr ⟨?_, ?_, fun run isRun => ?_⟩
  · rw [Bool.eq_false_iff, ne_eq, isUpper_iff]
    exact lowered.2
  · intro same
    rw [same] at lowered
    exact absurd lowered.1 (by decide)
  · have beyond := not_ascii_lowerRuns run isRun
    simp only [CaseRun.holds, Bool.and_eq_false_iff, decide_eq_false_iff_not]
    omega

theorem isLowered_lowerChar (single : c ≠ 'İ') : IsLowered (lowerChar c) := by
  rw [lowerChar_eq]
  split
  next isAscii => exact isLowered_toLower isAscii
  next notAscii =>
    split
    next run found =>
      have isHeld : run.holds c.toNat = true := by simpa using List.find?_some found
      obtain ⟨hasImages, staysOut⟩ := images_lowered run (List.mem_of_find?_eq_some found)
      obtain ⟨image, isImage, least, greatest⟩ := CaseRun.exists_image hasImages isHeld
      have isScalar := (CaseRun.hasImages_iff.mp hasImages).2
      intro other isOther
      rw [← isImage, Int.toNat_natCast, toNat_ofNat (by omega)]
      exact CaseRun.not_holds_of_staysOut hasImages (staysOut other isOther) isHeld isImage
    next none =>
      refine isLowered_iff.mpr ⟨?_, single, by simpa using List.find?_eq_none.mp none⟩
      rw [Bool.eq_false_iff, ne_eq, isUpper_iff]
      omega

/-! ## Texts -/

theorem isLowered_of_mem_lowerFrom (isWritten : c ∈ lowerFrom before cs) : IsLowered c := by
  induction cs generalizing before with
  | nil => cases isWritten
  | cons first rest ih =>
      rw [lowerFrom, List.mem_append] at isWritten
      refine isWritten.elim (fun isFirst => ?_) ih
      have sigmas : IsLowered 'ς' ∧ IsLowered 'σ' := by decide +kernel
      have dotted : IsLowered 'i' ∧ IsLowered (Char.ofNat 0x307) := by decide +kernel
      split at isFirst
      · rw [List.mem_singleton.mp isFirst]
        split
        · exact sigmas.1
        · exact sigmas.2
      next notSigma =>
        split at isFirst
        · simp only [List.mem_cons, List.not_mem_nil, or_false] at isFirst
          rcases isFirst with rfl | rfl
          · exact dotted.1
          · exact dotted.2
        next single =>
          rw [List.mem_singleton.mp isFirst]
          exact isLowered_lowerChar single

theorem lowerFrom_of_isLowered (lowered : ∀ c ∈ cs, IsLowered c) : lowerFrom before cs = cs := by
  have capitals : ¬IsLowered 'Σ' ∧ ¬IsLowered 'İ' := by decide +kernel
  induction cs generalizing before with
  | nil => rfl
  | cons c cs ih =>
      obtain ⟨isLowered, others⟩ := List.forall_mem_cons.mp lowered
      have notSigma : c ≠ 'Σ' := fun same => capitals.1 (same ▸ isLowered)
      have single : c ≠ 'İ' := fun same => capitals.2 (same ▸ isLowered)
      simp only [lowerFrom, notSigma, single, if_false, lowerChar_of_isLowered isLowered, ih others,
        List.singleton_append]

theorem lower_lower (cs : List Char) : lower (lower cs) = lower cs :=
  lowerFrom_of_isLowered fun _ => isLowered_of_mem_lowerFrom

end TypedReply.Text
