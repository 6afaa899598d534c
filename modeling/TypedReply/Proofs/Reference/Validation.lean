import TypedReply.Proofs.Record.Taking
import TypedReply.Proofs.Reference.Scalars
import TypedReply.Proofs.Value.Parts
import TypedReply.Reference.Validate

/-!
# What is taken is made

Where a type takes a value, a check of the value succeeds and makes of it what the type takes. Parts are
checked by themselves, so there is one lemma for each way in which a type is built.
-/

namespace TypedReply

namespace Validate

/-! ## Checks -/

def Keeps (check : Check) (value : Value) : Prop :=
  ∃ fit count, check = .ok ⟨value, fit, count⟩

theorem gather_keeps {checks : List (Unit → Check)} {values : List Value}
    (each : List.Forall₂ (fun check value => Keeps (check ()) value) checks values)
    (position : Nat) : ∃ fit count, gather position checks = .ok ⟨values, fit, count⟩ := by
  induction each generalizing position with
  | nil => exact ⟨.exact, none, rfl⟩
  | cons keeps _ ih =>
      obtain ⟨fit, count, isFirst⟩ := keeps
      obtain ⟨restFit, restCount, areRest⟩ := ih (position + 1)
      refine ⟨fit.worse restFit, addCounts count restCount, ?_⟩
      simp only [gather, isFirst, below, areRest, both]
      rfl

theorem below_eq_ok_iff {α : Type} {step : Value} {outcome : Except Rejection α} {result : α} :
    below step outcome = .ok result ↔ outcome = .ok result := by
  unfold below
  split <;> simp

variable {catalog : Catalog} {collection : Collection} {expr key element : TypeExpr}
variable {given value : Value} {items taken : List Value}

-- Generates the equations of `check` once, for all lemmas that rewrite by them.
attribute [local simp] check

/-- A class makes a value of what is given where a type is demanded. -/
def Makes (catalog : Catalog) (expr : TypeExpr) (given value : Value) : Prop :=
  Keeps (given.fold (check catalog) expr) value

theorem Makes.unique (makes : Makes catalog expr given value) {other : Value}
    (makesOther : Makes catalog expr given other) : value = other := by
  obtain ⟨fit, count, isMade⟩ := makes
  obtain ⟨_, _, isOther⟩ := makesOther
  cases isMade.symm.trans isOther
  rfl

theorem makes_of_fitted {fitted : Loose.Fitted} {fit : Fit} (isTaken : fitted = .ok (value, fit)) :
    Keeps (ofFitted given fitted) value :=
  ⟨fit, none, by rw [isTaken]; rfl⟩

theorem makes_scalar {kind : ScalarKind} {fit : Fit}
    (isTaken : Loose.scalar kind given = .ok (value, fit)) : Makes catalog
    (.scalar kind) given value := by
  rw [Makes, Value.fold_eq, check]
  exact makes_of_fitted isTaken

/-! ## Containers -/

theorem keeps_hashable {received : Value} {item : Check} (keeps : Keeps item value)
    (usable : collection.isUnique = true → value.unhashable? = none) :
    Keeps (hashable collection received item) value := by
  obtain ⟨fit, count, rfl⟩ := keeps
  refine ⟨fit, count, ?_⟩
  cases unique : collection.isUnique with
  | false => simp [hashable, unique, bind, Except.bind]
  | true => simp [hashable, usable unique, bind, Except.bind]

/-- What is built of gathered values is built of what is kept. -/
theorem keeps_gathered {checks : List (Unit → Check)} {build : List Value → Value} {worsen : Fit → Fit}
    (kept : List.Forall₂ (fun check value => Keeps (check ()) value) checks taken) :
    Keeps (do
      let items ← gather 0 checks
      .ok ⟨build items.values, worsen items.fit, items.fieldCount⟩) (build taken) := by
  obtain ⟨fit, count, areGathered⟩ := gather_keeps kept 0
  exact ⟨_, _, bind_eq_ok_iff.mpr ⟨_, areGathered, rfl⟩⟩

theorem makes_collection (notAny : items ≠ [] → element.isAny = false)
    (each : List.Forall₂ (Makes catalog element) items taken)
    (usable : collection.isUnique = true → ∀ item ∈ taken, item.unhashable? = none) :
    Makes catalog (.collection collection element) (.list items) (collection.collect taken) := by
  have kept : List.Forall₂ (fun check value => Keeps (check ()) value)
      (items.map fun item => fun (_ : Unit) => hashable collection item <|
        if (decide (collection = .list) && element.isAny) = true then takeAs .exact item
        else item.fold (check catalog) element) taken := by
    rw [List.forall₂_map_left_iff]
    refine (aligned_of_mem each.flip fun item isItem received makes => ?_).flip
    obtain ⟨received, isReceived, -⟩ := exists_left_of_mem each isItem
    simp only [flip, notAny (List.ne_nil_of_mem isReceived), Bool.and_false,
      Bool.false_eq_true, if_false]
    exact keeps_hashable makes fun unique => usable unique item isItem
  rw [Makes, Value.fold_list, check]
  simp only [collectionFit?, List.map_map, Function.comp_def, Value.toPart]
  exact keeps_gathered kept

theorem makes_bare (usable : collection.isUnique = true → ∀ item ∈ items, item.unhashable? = none) :
    Makes catalog (.bare collection) (.list items) (collection.collect items) := by
  have kept : List.Forall₂ (fun check value => Keeps (check ()) value)
      (items.map fun item => fun (_ : Unit) => hashable collection item
        (takeAs (if collection = .list then .exact else .strict) item)) items := by
    rw [List.forall₂_map_left_iff, List.forall₂_same]
    exact fun item isItem => keeps_hashable ⟨_, _, rfl⟩ fun unique => usable unique item isItem
  rw [Makes, Value.fold_list, check]
  simp only [collectionFit?, List.map_map, Function.comp_def, Value.toPart]
  exact keeps_gathered kept

theorem makes_tuple {exprs : List TypeExpr} (sameLength : items.length = taken.length)
    (complete : exprs.length = taken.length)
    (each : ∀ slot ∈ items.zip (exprs.zip taken), Makes catalog slot.2.1 slot.1 slot.2.2) :
    Makes catalog (.tuple exprs) (.list items) (.tuple taken) := by
  have made : List.Forall₂ (fun item (pair : TypeExpr × Value) => Makes catalog pair.1 item pair.2) items
      (exprs.zip taken) :=
    List.forall₂_iff_zip.mpr ⟨by simp [sameLength, complete], fun isSlot => each _ isSlot⟩
  have kept : List.Forall₂ (fun check value => Keeps (check ()) value)
      ((items.zip exprs).map fun pair => fun (_ : Unit) =>
        pair.1.fold (check catalog) pair.2) taken := by
    rw [List.forall₂_map_left_iff]
    exact ((@aligned_zip_iff _ _ _ (fun item expr result => Makes catalog expr item result) _ _ _
      complete).mpr made).2
  obtain ⟨fit, count, areGathered⟩ := gather_keeps kept 0
  have notMany : ¬exprs.length < items.length := by omega
  have notFew : ¬items.length < exprs.length := by omega
  rw [Makes, Value.fold_list, check]
  simp only [collectionFit?, List.length_map, List.zip_map_left, List.map_map, notMany, notFew, if_false]
  exact ⟨_, _, bind_eq_ok_iff.mpr
    ⟨_, both_eq_ok_iff.mpr ⟨rfl, both_eq_ok_iff.mpr ⟨areGathered, rfl⟩⟩, rfl⟩⟩

theorem checkEntry_of_taken (received : Value) {checkKey checkValue : Unit → Check}
    {newKey newValue : Taken} (isKey : checkKey () = .ok newKey) (isValue : checkValue () = .ok newValue)
    (usable : newKey.value.unhashable? = none) :
    checkEntry received checkKey checkValue = .ok (newKey, newValue) := by
  simp only [checkEntry, isKey, isValue, below, both, bind, Except.bind, usable]

theorem gatherEntries_keeps {entries : List (Value × (Unit → Check) × (Unit → Check))}
    {pairs : Value.Entries} (each : List.Forall₂ (fun entry pair => Keeps (entry.2.1 ()) pair.1 ∧
      Keeps (entry.2.2 ()) pair.2 ∧ pair.1.unhashable? = none) entries pairs) :
    ∃ fit count, gatherEntries entries = .ok (pairs, fit, count) := by
  induction each with
  | nil => exact ⟨.exact, none, rfl⟩
  | @cons entry _ _ _ isEntry _ ih =>
      obtain ⟨received, checkKey, checkValue⟩ := entry
      obtain ⟨⟨_, _, isKey⟩, ⟨_, _, isValue⟩, usable⟩ := isEntry
      obtain ⟨restFit, restCount, areRest⟩ := ih
      have isChecked := checkEntry_of_taken received isKey isValue usable
      exact ⟨_, _, bind_eq_ok_iff.mpr ⟨_, both_eq_ok_iff.mpr ⟨isChecked, areRest⟩, rfl⟩⟩

theorem makes_dict {entries pairs : Value.Entries} (apart : Value.Apart pairs.keys)
    (each : List.Forall₂ (fun entry pair => Makes catalog key entry.1 pair.1 ∧
      Makes catalog element entry.2 pair.2 ∧ pair.1.unhashable? = none) entries pairs) :
    Makes catalog (.dict key element) (.object entries) (.object pairs) := by
  have isObject : (Value.object entries).isObject = true := rfl
  have gathers : ∃ fit count, gatherEntries (entries.map fun entry =>
      (entry.1, (fun _ => entry.1.fold (check catalog) key), fun _ =>
        entry.2.fold (check catalog) element)) = .ok (pairs, fit, count) := by
    apply gatherEntries_keeps
    rw [List.forall₂_map_left_iff]
    exact each
  obtain ⟨fit, count, areGathered⟩ := gathers
  rw [Makes, Value.fold_object, check, if_pos isObject, List.map_map]
  refine ⟨fit, count, bind_eq_ok_iff.mpr ⟨_, areGathered, ?_⟩⟩
  dsimp only
  rw [Value.Entries.ofPairs_eq_self apart]

/-! ## Unions -/

/-- The checks of a union's members are those of its members other than null. -/
theorem checks_eq (catalog : Catalog) (value : Value) (parts : Parts Checker)
    (members : List TypeExpr) :
    checks catalog value parts members = (members.filter (!·.isNone)).map fun member =>
      (label catalog member, fun _ => check catalog value parts member) := by
  induction members with
  | nil => simp [checks]
  | cons member rest ih =>
      cases member with
      | none => simpa [checks, TypeExpr.isNone] using ih
      | _ => simp [checks, TypeExpr.isNone, ih]

/-- Where every member takes a value exactly or refuses it, the value is taken if one does. -/
theorem best_of_exact {checks : List (Unit → Check)} {value : Value} (found : Option Taken)
    (each : ∀ check ∈ checks, check () = takeAs .exact value ∨
      ∃ refusal, check () = .error (.refused refusal))
    (taken : ∃ check ∈ checks, check () = takeAs .exact value) :
    best found checks = .ok (some ⟨value, .exact, none⟩) := by
  induction checks generalizing found with
  | nil =>
      obtain ⟨check, none, -⟩ := taken
      cases none
  | cons check rest ih =>
      rcases each check List.mem_cons_self with isTaken | ⟨refusal, isRefused⟩
      · simp [best, isTaken, takeAs]
      · rw [best, isRefused]
        refine ih found (fun other isLater => each other (List.mem_cons_of_mem _ isLater)) ?_
        obtain ⟨other, isOther, isTaken⟩ := taken
        rcases List.mem_cons.mp isOther with rfl | isLater
        · rw [isRefused] at isTaken
          cases isTaken
        · exact ⟨other, isLater, isTaken⟩

/-- An instance is taken exactly by its own class and those it extends, and refused by others. -/
theorem check_record (catalog : Catalog) (tag : RecordTag) (fields : List (FieldTag × Value))
    (parts : Parts Checker) (key : ClassKey) :
    (tag.key = key → check catalog (.record tag fields) parts (.record key) =
      takeAs .exact (.record tag fields)) ∧
    (check catalog (.record tag fields) parts (.record key) =
        takeAs .exact (.record tag fields) ∨
      ∃ refusal, check catalog (.record tag fields) parts (.record key) =
        .error (.refused refusal)) := by
  simp only [check, ofClass]
  split
  next isInstance => exact ⟨fun _ => rfl, .inl rfl⟩
  next notInstance =>
    constructor
    · rintro rfl
      simp [Value.isInstance] at notInstance
    · right
      cases catalog.get? key with
      | none => exact ⟨_, rfl⟩
      | some cls => exact ⟨_, rfl⟩

theorem makes_variant {members : List TypeExpr} {keys : List ClassKey}
    (others : members.filter (!·.isNone) = keys.map .record) {tag : RecordTag}
    (isMember : tag.key ∈ keys) (fields : List (FieldTag × Value)) :
    Makes catalog (.union members) (.record tag fields) (.record tag fields) := by
  rw [Makes, Value.fold_eq, check]
  simp only [Value.isNull, Bool.false_and, Bool.false_eq_true, if_false]
  generalize (Value.record tag fields).parts (check catalog) = parts
  have own := (check_record catalog tag fields parts tag.key).1 rfl
  rw [checks_eq, others]
  rcases keys with _ | ⟨first, _ | ⟨second, rest⟩⟩
  · cases isMember
  · obtain rfl := List.mem_singleton.mp isMember
    exact ⟨.exact, none, own⟩
  · have taken : best none (((first :: second :: rest).map fun key => fun (_ : Unit) =>
        check catalog (.record tag fields) parts (.record key))) =
        .ok (some ⟨.record tag fields, .exact, none⟩) := by
      apply best_of_exact
      · intro check isCheck
        obtain ⟨key, -, rfl⟩ := List.mem_map.mp isCheck
        exact (check_record catalog tag fields parts key).2
      · exact ⟨_, List.mem_map.mpr ⟨tag.key, isMember, rfl⟩, own⟩
    refine ⟨.exact, none, ?_⟩
    simp only [List.map_cons, List.map_map, Function.comp_def, ofMembers] at taken ⊢
    rw [taken]
    rfl

/-! ## All types -/

theorem isAny_of_takes (takes : expr.Takes given value) : expr.isAny = false := by
  cases takes <;> rfl

theorem eq_null_of_takes (takes : expr.Takes given value) (isNull : given = .null) : value = .null := by
  induction takes with
  | present _ _ ih => exact ih isNull
  | enum | variant => cases isNull
  | _ => first | exact isNull | cases isNull

theorem makes_of_takes (takes : expr.Takes given value) : Makes catalog expr given value := by
  induction takes with
  | scalar isKind => exact makes_scalar (Loose.scalar_of_scalarKind? isKind)
  | @member tag name n isInteger =>
      obtain ⟨_, _, _⟩ := tag
      cases isInteger
      exact makes_scalar rfl
  | @digits n short =>
      refine @makes_scalar _ _ _ .int .lenient ?_
      show (Loose.integerOfText _ >>= _) = _
      rw [Loose.integerOfText_intText short]
      rfl
  | word b => exact makes_scalar (Loose.bool_word b)
  | bit b => exact makes_scalar rfl
  | @enum cls entry =>
      rw [Makes, Value.fold_eq, check]
      exact makes_of_fitted (Loose.member_toValue cls entry)
  | literal primitive isChoice =>
      rw [Makes, Value.fold_eq, check]
      exact makes_of_fitted (Loose.choice_of_mem primitive isChoice)
  | bare usable => exact makes_bare usable
  | @collection _ _ items taken sameLength each usable ih =>
      have made := List.forall₂_iff_zip.mpr ⟨sameLength, fun isPair => ih _ isPair⟩
      refine makes_collection (fun nonempty => ?_) made usable
      obtain ⟨item, isItem⟩ := List.exists_mem_of_ne_nil _ nonempty
      have aligned := List.forall₂_iff_zip.mpr ⟨sameLength, fun isPair => each _ isPair⟩
      obtain ⟨result, -, takes⟩ := exists_right_of_mem aligned isItem
      exact isAny_of_takes takes
  | tuple sameLength complete _ ih => exact makes_tuple sameLength complete ih
  | bareDict entries =>
      have isObject : (Value.object entries).isObject = true := rfl
      rw [Makes, Value.fold_eq, check, if_pos isObject]
      exact ⟨_, _, rfl⟩
  | dict sameLength _ _ usable apart ihKeys ihValues =>
      refine makes_dict apart (List.forall₂_iff_zip.mpr ⟨sameLength, fun isPair => ?_⟩)
      exact ⟨ihKeys _ isPair, ihValues _ isPair, usable _ (List.of_mem_zip isPair).2⟩
  | absent nullable =>
      rw [Makes, Value.fold_eq, check, nullable]
      exact ⟨_, _, rfl⟩
  | @present _ inner given taken others takes ih =>
      rw [Makes, Value.fold_eq, check]
      split
      next isAbsent =>
        have isNull : given = .null := by
          simp only [Bool.and_eq_true, Value.isNull_iff] at isAbsent
          exact isAbsent.1
        rw [eq_null_of_takes takes isNull, isNull]
        exact ⟨_, _, rfl⟩
      next =>
        rw [checks_eq, others]
        exact Value.fold_eq (check catalog) given ▸ ih
  | @record tag fields =>
      rw [Makes, Value.fold_eq]
      exact ⟨.exact, none, (check_record catalog tag fields _ tag.key).1 rfl⟩
  | variant others isMember fields => exact makes_variant others isMember fields

/-! ## What is refused -/

theorem aligned_of_gather {checks : List (Unit → Check)} {position : Nat} {gathered : Gathered}
    (areGathered : gather position checks = .ok gathered) :
    List.Forall₂ (fun check value => Keeps (check ()) value) checks gathered.values := by
  induction checks generalizing position gathered with
  | nil =>
      cases areGathered
      exact .nil
  | cons check checks ih =>
      obtain ⟨⟨first, rest⟩, both, done⟩ := bind_eq_ok_iff.mp areGathered
      obtain ⟨isFirst, areRest⟩ := both_eq_ok_iff.mp both
      cases done
      exact .cons ⟨first.fit, first.fieldCount, below_eq_ok_iff.mp isFirst⟩ (ih areRest)

/-- A collection is only made of a list each item of which is checked successfully. -/
theorem exists_keeps_of_gathered {α : Type} {parts : List α} {checkOf : α → Unit → Check}
    {build : List Value → Value} {worsen : Fit → Fit}
    (keeps : Keeps (do
      let items ← gather 0 (parts.map checkOf)
      .ok ⟨build items.values, worsen items.fit, items.fieldCount⟩) value) :
    ∀ part ∈ parts, ∃ result, Keeps (checkOf part ()) result := by
  obtain ⟨fit, count, isBuilt⟩ := keeps
  obtain ⟨gathered, areGathered, -⟩ := bind_eq_ok_iff.mp isBuilt
  have aligned := List.forall₂_map_left_iff.mp (aligned_of_gather areGathered)
  intro part isPart
  obtain ⟨result, -, keeps⟩ := exists_right_of_mem aligned isPart
  exact ⟨result, keeps⟩

theorem keeps_of_hashable {received : Value} {item : Check}
    (keeps : Keeps (hashable collection received item) value) :
    Keeps item value ∧ (collection.isUnique = true → value.unhashable? = none) := by
  obtain ⟨fit, count, isKept⟩ := keeps
  obtain ⟨taken, isTaken, isUsable⟩ := bind_eq_ok_iff.mp isKept
  split at isUsable
  · cases isUsable
  next usable =>
    cases isUsable
    refine ⟨⟨fit, count, isTaken⟩, fun unique => ?_⟩
    simpa [unique] using usable

theorem exists_makes_of_collection (notAny : element.isAny = false)
    (makes : Makes catalog (.collection collection element) (.list items) value) :
    ∀ item ∈ items, ∃ result, Makes catalog element item result ∧
      (collection.isUnique = true → result.unhashable? = none) := by
  rw [Makes, Value.fold_list, check] at makes
  simp only [collectionFit?, List.map_map, Function.comp_def, Value.toPart, notAny, Bool.and_false,
    Bool.false_eq_true, if_false] at makes
  intro item isItem
  obtain ⟨result, keeps⟩ := exists_keeps_of_gathered makes item isItem
  exact ⟨result, keeps_of_hashable keeps⟩

theorem usable_of_makes_bare (makes : Makes catalog (.bare collection) (.list items) value)
    (unique : collection.isUnique = true) : ∀ item ∈ items, item.unhashable? = none := by
  rw [Makes, Value.fold_list, check] at makes
  simp only [collectionFit?, List.map_map, Function.comp_def, Value.toPart] at makes
  intro item isItem
  obtain ⟨result, keeps⟩ := exists_keeps_of_gathered makes item isItem
  obtain ⟨⟨_, _, isTaken⟩, usable⟩ := keeps_of_hashable keeps
  cases isTaken
  exact usable unique

theorem exists_makes_of_tuple {exprs : List TypeExpr}
    (makes : Makes catalog (.tuple exprs) (.list items) value) :
    ∀ slot ∈ items.zip exprs, ∃ result, Makes catalog slot.2 slot.1 result := by
  rw [Makes, Value.fold_list, check] at makes
  simp only [collectionFit?, List.length_map, List.zip_map_left, List.map_map] at makes
  obtain ⟨fit, count, isMade⟩ := makes
  obtain ⟨⟨_, gathered, _⟩, both, -⟩ := bind_eq_ok_iff.mp isMade
  obtain ⟨-, both⟩ := both_eq_ok_iff.mp both
  obtain ⟨areGathered, -⟩ := both_eq_ok_iff.mp both
  have aligned := List.forall₂_map_left_iff.mp (aligned_of_gather areGathered)
  intro slot isSlot
  obtain ⟨result, -, keeps⟩ := exists_right_of_mem aligned isSlot
  exact ⟨result, keeps⟩

theorem exists_keeps_of_gatherEntries {entries : List (Value × (Unit → Check) × (Unit → Check))}
    {gathered : Value.Entries × Fit × Option Nat} (areGathered : gatherEntries entries = .ok gathered) :
    ∀ entry ∈ entries, (∃ key, Keeps (entry.2.1 ()) key) ∧ ∃ value, Keeps (entry.2.2 ()) value := by
  induction entries generalizing gathered with
  | nil => exact List.forall_mem_nil _
  | cons entry entries ih =>
      obtain ⟨⟨first, rest⟩, entriesBoth, -⟩ := bind_eq_ok_iff.mp areGathered
      obtain ⟨isEntry, areRest⟩ := both_eq_ok_iff.mp entriesBoth
      obtain ⟨⟨key, value⟩, areTaken, -⟩ := bind_eq_ok_iff.mp isEntry
      obtain ⟨isKey, isValue⟩ := both_eq_ok_iff.mp areTaken
      rw [below_eq_ok_iff, below_eq_ok_iff] at isKey
      rw [below_eq_ok_iff] at isValue
      exact List.forall_mem_cons.mpr ⟨⟨⟨_, _, _, isKey⟩, ⟨_, _, _, isValue⟩⟩, ih areRest⟩

theorem exists_makes_of_dict {entries : Value.Entries}
    (makes : Makes catalog (.dict key element) (.object entries) value) :
    ∀ entry ∈ entries, (∃ result, Makes catalog key entry.1 result) ∧
      ∃ result, Makes catalog element entry.2 result := by
  have isObject : (Value.object entries).isObject = true := rfl
  rw [Makes, Value.fold_object, check, if_pos isObject, List.map_map] at makes
  obtain ⟨fit, count, isMade⟩ := makes
  obtain ⟨gathered, areGathered, -⟩ := bind_eq_ok_iff.mp isMade
  exact List.forall_mem_map.mp (exists_keeps_of_gatherEntries areGathered)

theorem isAny_of_refuses (refuses : expr.Refuses given) : expr.isAny = false := by
  cases refuses <;> rfl

theorem not_makes_of_refuses (refuses : expr.Refuses given) (value : Value) :
    ¬Makes catalog expr given value := by
  intro makes
  induction refuses generalizing value with
  | number n =>
      obtain ⟨_, _, isMade⟩ := makes
      cases isMade
  | truth b =>
      obtain ⟨_, _, isMade⟩ := makes
      cases isMade
  | digits long =>
      rw [Makes, Value.fold_eq, check] at makes
      obtain ⟨_, _, isMade⟩ := makes
      have isRefused := Loose.integer_of_long long
      rw [Loose.scalar, isRefused] at isMade
      cases isMade
  | bareItem unique isItem unusable =>
      exact unusable (usable_of_makes_bare makes unique _ isItem)
  | item isItem refuses ih =>
      obtain ⟨result, isMade, -⟩ := exists_makes_of_collection (isAny_of_refuses refuses) makes _ isItem
      exact ih result isMade
  | unusable unique isItem takes unusable =>
      obtain ⟨result, isMade, usable⟩ := exists_makes_of_collection (isAny_of_takes takes) makes _ isItem
      obtain rfl := isMade.unique (makes_of_takes takes)
      exact unusable (usable unique)
  | place isSlot _ ih =>
      obtain ⟨result, isMade⟩ := exists_makes_of_tuple makes _ isSlot
      exact ih result isMade
  | key isEntry _ ih =>
      obtain ⟨⟨result, isMade⟩, -⟩ := exists_makes_of_dict makes _ isEntry
      exact ih result isMade
  | value isEntry _ ih =>
      obtain ⟨-, result, isMade⟩ := exists_makes_of_dict makes _ isEntry
      exact ih result isMade

end Validate

end TypedReply
