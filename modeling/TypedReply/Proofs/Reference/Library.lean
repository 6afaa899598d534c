import TypedReply.Proofs.Reference.Validation
import TypedReply.Reference.Library

/-!
# The library to run with obeys the laws

What is assumed of a library of record classes holds of the one that programs are run with, so that
theorems with such an assumption apply to it.
-/

namespace TypedReply

namespace Validate

variable {catalog : Catalog} {field : ClassField} {given value : Value} {fields : List ClassField}
variable {record : Value} {parts : Parts Checker}

/-! ## Fields -/

theorem isListed_of_single {members : List TypeExpr} {inner : TypeExpr}
    (others : members.filter (!·.isNone) = [inner])
    (listed : (TypeExpr.union members).isListed = true) : inner.isListed = true := by
  have isInner {other : TypeExpr} (listed : other.isListed = true)
    (same : [other].filter (!·.isNone) = [inner]) :
      inner.isListed = true := by
    have notNone : other.isNone = false := by
      cases other <;> first | rfl | cases listed
    rw [List.filter_cons_of_pos (by simp [notNone])] at same
    cases same
    exact listed
  unfold TypeExpr.isListed at listed
  split at listed
  next same => cases same
  next same => cases same
  next same => cases same
  next same =>
    cases same
    exact isInner listed (by simpa [List.filter_cons, TypeExpr.isNone] using others)
  next same =>
    cases same
    exact isInner listed (by simpa [List.filter_cons, TypeExpr.isNone] using others)
  · cases listed

theorem length_of_takes {expr : TypeExpr} (takes : expr.Takes given value)
    (listed : expr.isListed = true) :
    (given.items?.getD []).length = (value.items?.getD []).length := by
  induction takes with
  | @bare collection => cases collection <;> first | rfl | cases listed
  | @collection collection _ _ _ sameLength =>
      cases collection <;> first | exact sameLength | cases listed
  | absent => rfl
  | present others _ ih => exact ih (isListed_of_single others listed)
  | variant => rfl
  | _ => cases listed

theorem overfull?_of_takes (takes : field.type.Takes given value) :
    overfull? field given = overfull? field value := by
  unfold overfull?
  cases listed : field.type.isListed with
  | false => rfl
  | true => rw [length_of_takes takes listed]

/-- A field whose type takes what is given for it holds what is taken, if it permits that. -/
theorem exists_fieldValue_of_takes {part : Part Checker}
    (isGiven : parts.get? field.wireName = some part)
    (isPart : part = Value.toPart (check catalog) given)
    (takes : field.type.Takes given value) (permits : ClassLibrary.reference.Permits field value) :
    ∃ count, fieldValue record parts field = .ok (value, count) := by
  obtain ⟨fit, count, isMade⟩ := @makes_of_takes catalog _ _ _ takes
  subst isPart
  have allowed : overfull? field value = none ∧
      (if value.isNull = true then none else broken? field.limits value) = none := by
    rcases permits with unlimited | allowed
    · simp [overfull?, broken?, unlimited, Limits.none]
    · simp only [ClassLibrary.reference, Bool.and_eq_true, Option.isNone_iff_eq_none,
        Bool.or_eq_true] at allowed
      refine ⟨allowed.1, ?_⟩
      rcases allowed.2 with isNull | unbroken
      · rw [if_pos isNull]
      · rw [unbroken, ite_self]
  refine ⟨addCounts (some 1) count, ?_⟩
  simp only [fieldValue, isGiven, checkField, Value.toPart, overfull?_of_takes takes, allowed.1, isMade,
    bind, Except.bind, allowed.2, Except.map, below]

theorem makes_of_fieldValue {part : Part Checker} (isGiven : parts.get? field.wireName = some part)
    (isPart : part = Value.toPart (check catalog) given) {count : Option Nat}
    (isValue : fieldValue record parts field = .ok (value, count)) :
    Makes catalog field.type given value := by
  subst isPart
  rw [fieldValue, below_eq_ok_iff, isGiven] at isValue
  obtain ⟨taken, isChecked, same⟩ := map_eq_ok_iff.mp isValue
  cases same
  unfold checkField at isChecked
  split at isChecked
  · cases isChecked
  · obtain ⟨checked, isTaken, isChecked⟩ := bind_eq_ok_iff.mp isChecked
    split at isChecked
    · cases isChecked
    · cases isChecked
      exact ⟨_, _, isTaken⟩

/-- The values that are given for fields are found under their names. -/
def AreGiven (catalog : Catalog) (parts : Parts Checker) (fields : List ClassField)
    (given : List Value) :
    Prop :=
  List.Forall₂ (fun field value => ∃ part, parts.get? field.wireName = some part ∧
    part = Value.toPart (check catalog) value) fields given

theorem areGiven_offering {cls : RecordClass} {given : List Value}
    (names : (cls.fields.map (·.wireName)).Nodup) (complete : given.length = cls.fields.length) :
    AreGiven catalog ((cls.offering given).parts (check catalog)) cls.fields given := by
  have sameLength : (cls.fields.map (·.wireName)).length ≤ given.length := by
    simp [complete]
  have distinct : (((cls.fields.map (·.wireName)).zip given).map Prod.fst).Nodup := by
    rwa [List.map_fst_zip sameLength]
  refine List.forall₂_iff_zip.mpr ⟨complete.symm, fun {field value} isEntry => ?_⟩
  have isNamed : (field.wireName, value) ∈ (cls.fields.map (·.wireName)).zip given := by
    rw [List.zip_map_left]
    exact List.mem_map.mpr ⟨(field, value), isEntry, rfl⟩
  refine ⟨Value.toPart (check catalog) value, ?_, rfl⟩
  rw [RecordClass.offering, Value.ofFields_eq, Value.get?_parts]
  exact congrArg (Option.map _) ((Value.get?_ofFields _ field.wireName).trans
    (Fields.get?_of_mem distinct isNamed))

/-- Fields whose types take what is given for them hold what is taken. -/
theorem exists_fieldValues_of_takes {given held : List Value}
    (areGiven : AreGiven catalog parts fields given)
    (sameLength : held.length = fields.length)
    (takes : List.Forall₂ (fun given (slot : ClassField × Value) => slot.1.type.Takes given slot.2) given
      (fields.zip held))
    (permits : ∀ slot ∈ fields.zip held, ClassLibrary.reference.Permits slot.1 slot.2) :
    ∃ results, fieldValues record parts fields = .ok results ∧ results.map Prod.fst = held := by
  induction areGiven generalizing held with
  | nil => exact ⟨[], rfl, (List.length_eq_zero_iff.mp sameLength).symm⟩
  | @cons field value _ _ isGiven _ ih =>
      cases held with
      | nil => cases sameLength
      | cons first held =>
          obtain ⟨part, isGiven, isPart⟩ := isGiven
          obtain ⟨firstTakes, restTakes⟩ := List.forall₂_cons.mp takes
          obtain ⟨firstPermits, restPermits⟩ := List.forall_mem_cons.mp permits
          obtain ⟨count, isFirst⟩ :=
            @exists_fieldValue_of_takes _ _ _ _ record _ _ isGiven isPart firstTakes firstPermits
          obtain ⟨results, areRest, rfl⟩ := ih (Nat.succ.inj sameLength) restTakes restPermits
          refine ⟨(first, count) :: results, ?_, rfl⟩
          rw [fieldValues, isFirst, areRest]
          rfl

/-- What fields hold was made of the values that are given for them. -/
theorem makes_of_fieldValues {given : List Value} (areGiven : AreGiven catalog parts fields given)
    {results : List (Value × Option Nat)} (areValues : fieldValues record parts fields = .ok results) :
    results.length = fields.length ∧
      List.Forall₂ (fun given (slot : ClassField × Value) => Makes catalog slot.1.type given slot.2)
        given (fields.zip (results.map Prod.fst)) := by
  induction areGiven generalizing results with
  | nil =>
      cases areValues
      exact ⟨rfl, .nil⟩
  | cons isGiven _ ih =>
      obtain ⟨part, isGiven, isPart⟩ := isGiven
      obtain ⟨⟨⟨first, count⟩, rest⟩, both, done⟩ := bind_eq_ok_iff.mp areValues
      obtain ⟨isFirst, areRest⟩ := both_eq_ok_iff.mp both
      cases done
      obtain ⟨sameLength, makes⟩ := ih areRest
      exact ⟨congrArg Nat.succ sameLength, .cons (makes_of_fieldValue isGiven isPart isFirst) makes⟩

theorem eq_null_of_makes {expr : TypeExpr} (unchosen : expr.Unchosen)
    (makes : Makes catalog expr .null value) : value = .null := by
  obtain ⟨fit, count, isTaken⟩ := makes
  rw [Value.fold_eq] at isTaken
  induction unchosen with
  | scalar kind =>
      obtain ⟨problem, fails⟩ := Loose.scalar_null kind
      rw [check, fails] at isTaken
      cases isTaken
  | collection => rw [check] at isTaken; cases isTaken
  | dict => rw [check] at isTaken; cases isTaken
  | bareDict => rw [check] at isTaken; cases isTaken
  | record key =>
      rw [check, ofClass] at isTaken
      split at isTaken
      next isInstance => cases isInstance
      split at isTaken <;> cases isTaken
  | optional others _ ih =>
      rw [check] at isTaken
      split at isTaken
      · cases isTaken
        rfl
      · rw [checks_eq, others] at isTaken
        exact ih isTaken

/-- The instance that is made of an object is of the class asked for, and holds the values of its
fields. -/
theorem exists_fieldValues_of_instantiate {key : ClassKey} {cls : RecordClass}
    (found : catalog.get? key = some cls) {entries : Value.Entries} {taken : Taken}
    (made : instantiate catalog key (.object entries) = .ok taken) :
    ∃ results, fieldValues (.object entries) ((Value.object entries).parts (check catalog)) cls.fields =
      .ok results ∧ taken.value = cls.holding (results.map Prod.fst) := by
  unfold instantiate at made
  split at made
  · cases made
  rw [Value.fold_eq, check, ofClass, found] at made
  obtain ⟨results, areValues, done⟩ := bind_eq_ok_iff.mp made
  cases done
  exact ⟨results, areValues, rfl⟩

end Validate

/-! ## Laws -/

namespace ClassLibrary

open Validate

theorem reference_validate_eq_ok_iff {catalog : Catalog} {key : ClassKey} {given value : Value} :
    reference.validate catalog key given = .ok value ↔
      ∃ taken, instantiate catalog key given = .ok taken ∧ taken.value = value := by
  simp only [reference]
  split
  next taken isTaken => simp [isTaken]
  next isRefused => simp [isRefused]
  next isFault => simp [isFault]

theorem reference_makesInstances : reference.MakesInstances := by
  intro catalog key entries value made
  obtain ⟨taken, isMade, rfl⟩ := reference_validate_eq_ok_iff.mp made
  cases found : catalog.get? key with
  | none =>
      unfold instantiate at isMade
      rw [found] at isMade
      rw [Value.fold_eq, check, ofClass, found] at isMade
      cases isMade
  | some cls =>
      obtain ⟨results, -, isRecord⟩ := exists_fieldValues_of_instantiate found isMade
      exact ⟨cls.tag, _, isRecord, Catalog.key_of_get? found⟩

theorem reference_objectsToUnderscores : reference.ObjectsToUnderscores := by
  intro fields field isField underscored unobjected
  simp only [reference, referenceObjection?] at unobjected
  split at unobjected
  · cases unobjected
  next unfound =>
    have plain := List.find?_eq_none.mp unfound field isField
    exact plain (by rw [underscored]; rfl)

theorem reference_takesValues : reference.TakesValues where
  holds {catalog key cls given value} found names complete made := by
    obtain ⟨taken, isMade, rfl⟩ := reference_validate_eq_ok_iff.mp made
    obtain ⟨results, areValues, isRecord⟩ := exists_fieldValues_of_instantiate found isMade
    obtain ⟨sameLength, makes⟩ := makes_of_fieldValues (areGiven_offering names complete) areValues
    refine ⟨results.map Prod.fst, isRecord, by rw [List.length_map, sameLength], makes.imp ?_⟩
    intro given slot isMade
    refine ⟨fun taken takes => isMade.unique (makes_of_takes takes), ?_⟩
    rintro rfl unchosen
    exact eq_null_of_makes unchosen isMade
  makes {catalog key cls given held} _ found settled names complete takes permits := by
    have isComplete : given.length = cls.fields.length := by
      rw [takes.length_eq, List.length_zip, complete, min_self]
    have makesFields : ∃ results, fieldValues (cls.offering given)
        ((cls.offering given).parts (check catalog)) cls.fields = .ok results ∧
          results.map Prod.fst = held :=
      exists_fieldValues_of_takes (areGiven_offering names isComplete) complete takes permits
    obtain ⟨results, areValues, rfl⟩ := makesFields
    refine reference_validate_eq_ok_iff.mpr ?_
    rw [instantiate, settled, found]
    have notInstance : (cls.offering given).isInstance key = false := rfl
    have isObject : (cls.offering given).isObject = true := rfl
    simp only [Value.fold_eq, check, ofClass, notInstance, found, isObject, if_true, Bool.false_eq_true,
      if_false, construct, areValues, bind, Except.bind]
    exact ⟨_, rfl, rfl⟩

theorem reference_refusesValues : reference.RefusesValues := by
  rintro catalog key cls given value found names complete ⟨slot, isSlot, refuses⟩ made
  obtain ⟨taken, isMade, rfl⟩ := reference_validate_eq_ok_iff.mp made
  obtain ⟨results, areValues, -⟩ := exists_fieldValues_of_instantiate found isMade
  obtain ⟨sameLength, makes⟩ := makes_of_fieldValues (areGiven_offering names complete) areValues
  have areMade : List.Forall₂ (fun field given => ∃ result, Makes catalog field.type given result)
      cls.fields given :=
    (aligned_fst_iff (by simp [sameLength])).mp (makes.flip.imp fun _ _ isMade => ⟨_, isMade⟩)
  obtain ⟨result, isMade⟩ := (List.forall₂_iff_zip.mp areMade).2 isSlot
  exact not_makes_of_refuses refuses result isMade

end ClassLibrary

end TypedReply
