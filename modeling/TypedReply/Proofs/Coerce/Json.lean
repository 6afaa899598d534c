import TypedReply.Proofs.Schema.Meaning
import TypedReply.Coerce.Enum
import Mathlib.Algebra.Group.Nat.Defs

/-!
# Coercion of JSON scalars

A value that has the JSON type of a scalar kind is read as that kind, and a text among the choices of
an enumeration is read as that choice. Integers well inside the floating point range have a nearest
floating point number.
-/

namespace TypedReply

namespace Value.IsJson

variable {bound : Nat}

theorem item {items : List Value} (json : IsJson bound (.list items)) {item : Value}
    (isItem : item ∈ items) : IsJson bound item := by
  cases json with
  | list each => exact each item isItem

theorem entries {value : Value} (json : IsJson bound value) {entries : Entries}
    (isObject : value.entries? = some entries) :
    ∀ entry ∈ entries, IsJson bound entry.1 ∧ IsJson bound entry.2 := by
  cases json with
  | object distinct each =>
      cases isObject
      intro entry isEntry
      obtain ⟨field, isField, rfl⟩ := List.mem_map.mp isEntry
      exact ⟨.str field.1, each field isField⟩
  | _ => cases isObject

theorem part {value part : Value} (json : IsJson bound value) {name : String}
    (found : value.get? name = some part) : IsJson bound part := by
  cases json with
  | object distinct each =>
      rw [get?_ofFields] at found
      exact each _ (Fields.mem_of_get? found)
  | _ => cases found

end Value.IsJson

namespace Double

theorem roundDiv_le (num den : Nat) : roundDiv num den ≤ num / den + 1 := by
  simp only [roundDiv]
  split
  · omega
  · split <;> omega

theorem nearestCode_lt {num bits : Nat} (small : num < 2 ^ bits) (few : bits ≤ 2074) :
    nearestCode num 1 < codeCount := by
  simp only [nearestCode, Nat.div_one, Nat.one_mul]
  have exponentSmall : num.log2 - 52 ≤ 2021 := by
    by_cases zero : num = 0
    · simp [zero]
    · have := (Nat.log2_lt zero).mpr small
      omega
  have quotientSmall : num / 2 ^ (num.log2 - 52) < 2 ^ 53 := by
    refine Nat.div_lt_of_lt_mul ?_
    rw [← Nat.pow_add]
    exact Nat.lt_of_lt_of_le Nat.lt_log2_self (Nat.pow_le_pow_right (by omega) (by omega))
  have rounded := roundDiv_le num (2 ^ (num.log2 - 52))
  have scaled := Nat.mul_le_mul_right binade exponentSmall
  have twice : 2 ^ 53 = 2 * binade := rfl
  have positive : 0 < binade := by decide
  simp only [codeCount, Nat.pow_eq]
  omega

theorem exists_ofCode {code : Nat} (inRange : code < codeCount) (negative : Bool) :
    ∃ found, ofCode negative code = .finite negative found :=
  ⟨⟨code, inRange⟩, dif_pos inRange⟩

theorem ofRatio_eq (negative : Bool) (num den : Nat) :
    ofRatio negative num den = ofCode negative (nearestCode (num * unitsPerOne) den) := rfl

theorem exists_units : ∃ more, unitsPerOne = Nat.pow 2 more ∧ more = 1074 := by
  unfold unitsPerOne
  exact ⟨_, rfl, rfl⟩

theorem isSome_ofInt? {n : Int} {bits : Nat} (small : n.natAbs < 2 ^ bits) (few : bits ≤ 1000) :
    (ofInt? n).isSome = true := by
  obtain ⟨more, isUnits, isMore⟩ := exists_units
  have scaled : n.natAbs * unitsPerOne < 2 ^ (bits + more) := by
    rw [isUnits, Nat.pow_eq, Nat.pow_add]
    exact Nat.mul_lt_mul_of_pos_right small (Nat.pow_pos Nat.two_pos)
  have inRange := nearestCode_lt scaled (Nat.add_le_add few (Nat.le_of_eq isMore))
  obtain ⟨code, isFinite⟩ := exists_ofCode inRange (decide (n < 0))
  rw [ofInt?, ofRatio_eq, isFinite]
  rfl

end Double

/-- The kinds of scalar that JSON has. -/
def ScalarKind.isPlain : ScalarKind → Bool
  | .date => false
  | .datetime => false
  | _ => true

/-- A JSON value with the type of a plain scalar kind is read as that kind. -/
theorem exists_coerceScalar {kind : ScalarKind} (plain : kind.isPlain = true) {value : Value}
    {bits : Nat} (json : value.IsJson (2 ^ bits)) (few : bits ≤ 1000)
    (typed : value.hasType kind.jsonType = true) :
    ∃ result, ∀ path, coerceScalar kind value path = .ok result := by
  cases kind with
  | string =>
      obtain ⟨text, rfl⟩ := (Value.hasType_string value).mp typed
      exact ⟨.str text, fun _ => rfl⟩
  | int =>
      cases json with
      | int n => exact ⟨.int n, fun _ => rfl⟩
      | float negative code =>
          have whole : (Double.finite negative code).toInt?.isSome = true := by
            simpa [Value.hasType, ScalarKind.jsonType] using typed
          obtain ⟨n, isWhole⟩ := Option.isSome_iff_exists.mp whole
          refine ⟨.int n, fun path => ?_⟩
          simp [coerceScalar, matchesScalar, Value.integer?, Coerce.isScalar, Coerce.convert,
            Coerce.toInteger, isWhole, Except.map]
      | _ => simp [Value.hasType, ScalarKind.jsonType, Value.ofFields] at typed
  | float =>
      cases json with
      | int n small =>
          obtain ⟨x, nearest⟩ := Option.isSome_iff_exists.mp (Double.isSome_ofInt? small few)
          refine ⟨.float x, fun path => ?_⟩
          simp [coerceScalar, matchesScalar, Coerce.isScalar, Coerce.convert, Coerce.toDouble,
            Value.integer?, nearest, Except.map]
      | float negative code => exact ⟨.float (.finite negative code), fun _ => rfl⟩
      | _ => simp [Value.hasType, ScalarKind.jsonType, Value.ofFields] at typed
  | bool =>
      cases json with
      | bool b => exact ⟨.bool b, fun _ => rfl⟩
      | _ => simp [Value.hasType, ScalarKind.jsonType, Value.ofFields] at typed
  | date => cases plain
  | datetime => cases plain

namespace EnumType

@[simp]
theorem values_ofTexts (texts : List String) : (ofTexts texts).values = texts.map .str := by
  have allTexts : allTexts (texts.map .str) = true := by
    simp [allTexts, Value.text?]
  simp [ofTexts, values, allTexts]

@[simp]
theorem literals_ofTexts (texts : List String) : (ofTexts texts).literals = [] := by
  simp [ofTexts, literals, allTexts, Value.text?]

@[simp]
theorem labels_ofTexts (texts : List String) : (ofTexts texts).labels = texts := by
  simp [labels, Value.text?, Function.comp_def]

end EnumType

theorem coerceEnum_of_mem {texts : List String} {text : String} (isChoice : text ∈ texts)
    (path : Path) : coerceEnum (.ofTexts texts) (.str text) path = .ok (.str text) := by
  have has : (EnumType.ofTexts texts).has (.str text) = true := by
    simp only [EnumType.ofTexts, EnumType.has, List.any_map, List.any_eq_true]
    exact ⟨text, isChoice, by
      simp [Value.sameType, Value.same, Value.sameScalar, Value.number?, Value.integer?,
        Value.text?]⟩
  simp [coerceEnum, has]

end TypedReply
