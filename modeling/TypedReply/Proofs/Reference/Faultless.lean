import TypedReply.Proofs.Record.Dependable
import TypedReply.Proofs.Reference.Library

/-!
# The library to run with raises no faults

For a dependable class, the library that programs are run with takes a tame value or refuses it. A safe
type takes what serves, and what it takes serves again.
-/

namespace TypedReply

/-! ## Scalars -/

namespace Loose

/-- A result that can be a key, unless there is a problem. -/
def YieldsKey (fitted : Fitted) : Prop := Meets fitted (fun result => result.1.IsKey) fun _ => True

theorem yieldsKey_elim {α : Type} {found : Option α} {problem : Problem} {next : α → Fitted}
    (each : ∀ value, YieldsKey (next value)) :
    YieldsKey (found.elim (.error problem) next) := by
  cases found with
  | none => trivial
  | some value => exact each value

theorem yieldsKey_bind {α : Type} (outcome : Except Problem α) {next : α → Fitted}
    (each : ∀ value, YieldsKey (next value)) : YieldsKey (outcome >>= next) := by
  cases outcome with
  | error problem => trivial
  | ok value => exact each value

theorem yieldsKey_text (value : Value) : YieldsKey (text value) := by
  unfold text
  split
  · exact ⟨rfl, trivial⟩
  · exact yieldsKey_elim fun text => ⟨rfl, trivial⟩
  · exact ⟨rfl, trivial⟩
  · exact ⟨rfl, trivial⟩
  · trivial

theorem yieldsKey_bytes (value : Value) : YieldsKey (bytes value) := by
  unfold bytes
  split
  · exact ⟨rfl, trivial⟩
  · exact ⟨rfl, trivial⟩
  · trivial

theorem isKey_int {n : Int} (short : Numeral.IsShort n) : (Value.int n).IsKey := ⟨rfl, short⟩

theorem isShort_bit (b : Bool) : Numeral.IsShort (if b then 1 else 0) := by
  cases b <;> exact Numeral.isShort_iff.mpr (by decide)

theorem isShort_of_integer? {value : Value} (tame : value.IsTame) {n : Int}
    (isInteger : value.integer? = some n) : Numeral.IsShort n := by
  unfold Value.integer? at isInteger
  split at isInteger <;> cases isInteger
  next b => exact isShort_bit b
  next => exact tame
  next => exact tame.2

theorem isShort_of_strictInteger? {cs : List Char} (fits : isOversized cs = false) {n : Int}
    (isRead : strictInteger? cs = some n) : Numeral.IsShort n := by
  obtain ⟨shape, isRead⟩ := Option.ite_none_left_eq_some.mp isRead
  obtain ⟨values, areValues, rfl⟩ := Option.map_eq_some_iff.mp isRead
  have aligned := mapM_eq_some_iff.mp areValues
  have each : ∀ value ∈ values, value < 10 := by
    intro value isValue
    obtain ⟨c, -, isDigit⟩ := exists_left_of_mem aligned isValue
    obtain ⟨⟨-, small⟩, rfl⟩ := Option.ite_some_none_eq_some.mp isDigit
    have small : c.toNat ≤ 57 := small
    omega
  have run : (splitMinus cs).2.takeWhile (fun c => (Iso.asciiDigit? c).isSome) = (splitMinus cs).2 := by
    rw [List.takeWhile_eq_self_iff]
    intro c isChar
    obtain ⟨value, -, isDigit⟩ := exists_right_of_mem aligned isChar
    rw [isDigit]
    rfl
  refine Numeral.isShort_signed each ?_
  rw [← aligned.length_eq]
  show (splitMinus cs).2.length ≤ mostCharacters
  by_cases zero : (splitMinus cs).2.head? = some '0'
  · have single : (splitMinus cs).2.length = 1 := by
      have leads : ¬((splitMinus cs).2.isEmpty || ((splitMinus cs).2.head? == some '0' &&
        decide ((splitMinus cs).2.length ≠ 1))) = true := shape
      simp only [zero, beq_self_eq_true, Bool.true_and, Bool.or_eq_true, decide_eq_true_eq, not_or,
        not_not] at leads
      exact leads.2
    rw [single]
    decide
  · have few : (splitMinus cs).2.length + (cs.length - (splitMinus cs).2.length) ≤ mostCharacters := by
      simpa [isOversized, run, zero] using fits
    omega

theorem meets_integerOfText (cs : List Char) :
    Meets (integerOfText cs) Numeral.IsShort fun _ => True := by
  have strict (cs : List Char) :
      Meets (shortInteger? cs) (fun found => ∀ n, found = some n → Numeral.IsShort n) fun _ => True := by
    unfold shortInteger?
    split
    · trivial
    next fits => exact fun n isRead => isShort_of_strictInteger? (Bool.not_eq_true _ ▸ fits) isRead
  refine Meets.bind (strict cs) fun found short => ?_
  split
  next n => exact short n rfl
  next cleaned =>
    refine Meets.bind (strict _) fun found short => ?_
    cases found with
    | none => trivial
    | some n => exact short n rfl
  next => trivial

theorem meets_integerOfDouble (x : Double) :
    Meets (integerOfDouble x) Numeral.IsShort fun _ => True := by
  unfold integerOfDouble
  split
  next n whole =>
    split
    · exact Double.isShort_of_toInt? whole
    · trivial
  · trivial
  · trivial

theorem yieldsKey_integer {value : Value} (tame : value.IsTame) : YieldsKey (integer value) := by
  unfold integer
  split
  · exact isKey_int tame
  · exact isKey_int (isShort_bit _)
  · exact Meets.map (meets_integerOfDouble _) fun n short => isKey_int short
  next n _ _ _ _ isInteger => exact isKey_int (isShort_of_integer? tame isInteger)
  · exact yieldsKey_bind _ fun text => Meets.bind (meets_integerOfText _) fun n short => isKey_int short
  · exact Value.isTame_member.mp tame
  · trivial

theorem yieldsKey_double (value : Value) : YieldsKey (double value) := by
  unfold double
  split
  · exact ⟨rfl, trivial⟩
  · exact ⟨rfl, trivial⟩
  · exact yieldsKey_elim fun x => ⟨rfl, trivial⟩
  · exact yieldsKey_bind _ fun text => yieldsKey_elim fun x => ⟨rfl, trivial⟩
  · trivial

theorem yieldsKey_boolOfInteger (n : Int) : YieldsKey (boolOfInteger n) := by
  unfold boolOfInteger
  split
  · exact ⟨rfl, trivial⟩
  split
  · exact ⟨rfl, trivial⟩
  · trivial

theorem yieldsKey_bool (value : Value) : YieldsKey (bool value) := by
  unfold bool
  split
  · exact ⟨rfl, trivial⟩
  · split
    · exact yieldsKey_boolOfInteger _
    · trivial
  · split
    · exact yieldsKey_boolOfInteger _
    · trivial
  · exact yieldsKey_bind _ fun text => yieldsKey_elim fun b => ⟨rfl, trivial⟩
  · trivial

theorem yieldsKey_date (value : Value) : YieldsKey (date value) := by
  have dated (date : Option Date) : YieldsKey (date.elim (.error (.dateText .yearZero))
      fun date => lenient (.date date)) := yieldsKey_elim fun date => ⟨rfl, trivial⟩
  unfold date
  dsimp only
  split
  · exact ⟨rfl, trivial⟩
  · exact dated _
  split
  · trivial
  · trivial
  split
  · exact dated _
  · trivial

theorem yieldsKey_dateTime (value : Value) : YieldsKey (dateTime value) := by
  have stamped (t : Option DateTime) : YieldsKey (t.elim (.error (.dateTimeText .yearZero))
      fun t => lenient (.datetime t)) := yieldsKey_elim fun t => ⟨rfl, trivial⟩
  unfold dateTime
  dsimp only
  split
  · exact ⟨rfl, trivial⟩
  · exact stamped _
  · exact stamped _
  · trivial
  · trivial
  · trivial

theorem yieldsKey_scalar (kind : ScalarKind) {value : Value} (tame : value.IsTame) :
    YieldsKey (scalar kind value) := by
  cases kind with
  | string => exact yieldsKey_text value
  | int => exact yieldsKey_integer tame
  | float => exact yieldsKey_double value
  | bool => exact yieldsKey_bool value
  | date => exact yieldsKey_date value
  | datetime => exact yieldsKey_dateTime value

theorem mem_of_named? {α : Type} {choices : List (Value × α)} {value : Value} {named : α}
    (found : named? choices value = some named) : ∃ choice, (choice, named) ∈ choices := by
  unfold named? at found
  obtain ⟨⟨choice, _⟩, hit, rfl⟩ := Option.map_eq_some_iff.mp found
  refine ⟨choice, ?_⟩
  simp only [Option.orElse_eq_orElse, Option.orElse_eq_or, Option.or_eq_some_iff] at hit
  rcases hit with own | ⟨-, eager | ⟨-, keyless | ⟨-, primitive⟩⟩⟩
  · exact List.mem_of_mem_filter (List.mem_of_find?_eq_some own)
  · exact List.mem_of_mem_filter (List.mem_reverse.mp (List.mem_of_find?_eq_some eager))
  · exact List.mem_of_mem_filter (List.mem_of_find?_eq_some keyless)
  · exact List.mem_of_mem_filter (List.mem_reverse.mp (List.mem_of_find?_eq_some primitive))

theorem yieldsKey_choice {values : List Value} (keys : ∀ value ∈ values, value.IsKey)
    (value : Value) : YieldsKey (choice values value) := by
  unfold choice
  split
  next named found =>
    obtain ⟨choice, isPair⟩ := mem_of_named? found
    obtain ⟨other, isOther, same⟩ := List.mem_map.mp isPair
    cases same
    exact keys _ isOther
  · trivial

theorem yieldsKey_member {cls : EnumClass} (keys : cls.CarriesKeys) {value : Value}
    (tame : value.IsTame) : YieldsKey (member cls value) := by
  unfold member
  split
  next has =>
    cases value with
    | member tag name carried => exact ⟨rfl, tame⟩
    | _ => cases has
  dsimp only
  split
  next named found =>
    obtain ⟨wanted, -, found⟩ := Option.bind_eq_some_iff.mp found
    obtain ⟨carried, isPair⟩ := mem_of_named? found
    obtain ⟨entry, isEntry, same⟩ := List.mem_map.mp isPair
    cases same
    exact ⟨rfl, keys entry isEntry⟩
  · trivial

end Loose

/-! ## Collections and objects -/

namespace Validate

/-- A rejection that refuses a tame value. -/
def Rejection.IsTame : Rejection → Prop
  | .refused refusal => refusal.received.IsTame
  | .fault _ => False

/-- What a check takes meets a demand, and whatever it rejects is tame and refused. -/
def Takes {α : Type} (check : Except Rejection α) (demand : α → Prop) : Prop :=
  Meets check demand Rejection.IsTame

def Passes (asKey : Bool) (check : Check) : Prop :=
  Takes check fun taken => taken.value.Serves asKey

theorem takes_refuse {α : Type} {received : Value} (tame : received.IsTame) (problem : Problem)
    (demand : α → Prop) : Takes (refuse received problem) demand := tame

theorem takes_unless {condition : Prop} [Decidable condition] {refused : Except Rejection Unit}
    (takes : Takes refused fun _ => True) :
    Takes (if condition then refused else .ok ()) fun _ => True := by
  split
  · exact takes
  · trivial

theorem Takes.below {α : Type} {check : Except Rejection α} {demand : α → Prop}
    (takes : Takes check demand) (step : Value) : Takes (below step check) demand := by
  rcases check with (refusal | fault) | value <;> exact takes

theorem Takes.both {α β : Type} {first : Except Rejection α} {second : Except Rejection β}
    {demand : α → Prop} {other : β → Prop} (takesFirst : Takes first demand)
    (takesSecond : Takes second other) :
    Takes (both first second) fun pair => demand pair.1 ∧ other pair.2 := by
  rcases first with (refusal | fault) | a
  · rcases second with (refusal | fault) | b
    · exact takesFirst
    · exact takesSecond
    · exact takesFirst
  · cases takesFirst
  · rcases second with (refusal | fault) | b
    · exact takesSecond
    · exact takesSecond
    · exact ⟨takesFirst, takesSecond⟩

theorem passes_ofFitted {fitted : Loose.Fitted} (yields : Loose.YieldsKey fitted) {received : Value}
    (tame : received.IsTame) (asKey : Bool) : Passes asKey (ofFitted received fitted) := by
  cases fitted with
  | error problem => exact tame
  | ok result => exact Value.IsKey.serves yields asKey

theorem takes_gather {demand : Value → Prop} {checks : List (Unit → Check)}
    (each : ∀ check ∈ checks, Takes (check ()) fun taken => demand taken.value) (position : Nat) :
    Takes (gather position checks) fun gathered => ∀ value ∈ gathered.values, demand value := by
  induction checks generalizing position with
  | nil => exact fun _ isValue => nomatch isValue
  | cons check checks ih =>
      obtain ⟨first, others⟩ := List.forall_mem_cons.mp each
      refine Meets.bind ((first.below _).both (ih others (position + 1))) fun pair isTaken => ?_
      exact List.forall_mem_cons.mpr isTaken

theorem takes_hashable {asKey : Bool} {item : Check} (passes : Passes asKey item)
    (collection : Collection) {received : Value} (tame : received.IsTame) :
    Takes (hashable collection received item) fun taken => taken.value.Serves asKey ∧
      (collection.isUnique = true → taken.value.unhashable? = none) := by
  refine Meets.bind passes fun taken serves => ?_
  split
  next => exact tame
  next usable =>
    refine ⟨serves, fun unique => ?_⟩
    simpa [unique] using usable

theorem serves_collect {asKey : Bool} {kind : Collection}
    (usable : asKey = true → kind.isHashable = true) {values : List Value}
    (each : ∀ value ∈ values, value.Serves asKey ∧
      (kind.isUnique = true → value.unhashable? = none)) : (kind.collect values).Serves asKey := by
  have keys (unique : kind.isUnique = true) : ∀ value ∈ Value.distinct values, value.IsKey := by
    intro value isValue
    obtain ⟨serves, hashable⟩ := each value (Value.mem_of_mem_distinct isValue)
    exact ⟨hashable unique, serves.isTame⟩
  cases kind with
  | list =>
      cases asKey with
      | true => cases usable rfl
      | false => exact Value.isTame_list.mpr fun value isValue => (each value isValue).1
  | tuple => exact Value.serves_tuple.mpr fun value isValue => (each value isValue).1
  | set =>
      cases asKey with
      | true => cases usable rfl
      | false => exact Value.isTame_set.mpr (keys rfl)
  | frozenset => exact Value.IsKey.serves ⟨rfl, Value.isTame_frozenset.mpr (keys rfl)⟩ asKey

/-- The items of a collection, checked one by one, make a collection. -/
theorem passes_collection {asKey : Bool} {kind : Collection}
    (usable : asKey = true → kind.isHashable = true) {value : Value}
    {step : Value → Parts Checker → Checker} {checkItem : Part Checker → Check}
    (areTame : ∀ item ∈ value.iterated, item.IsTame)
    (each : ∀ item ∈ value.iterated, Passes asKey (checkItem (Value.toPart step item)))
    {next : Gathered → Taken} (collects : ∀ gathered, (next gathered).value =
      kind.collect gathered.values) :
    Passes asKey (gather 0 ((value.parts step).items.map fun part => fun _ =>
      hashable kind part.value (checkItem part)) >>= fun gathered => .ok (next gathered)) := by
  have gathers : Takes (gather 0 ((value.parts step).items.map fun part => fun _ =>
      hashable kind part.value (checkItem part))) fun gathered => ∀ value ∈ gathered.values,
        value.Serves asKey ∧ (kind.isUnique = true → value.unhashable? = none) := by
    refine takes_gather (fun check isCheck => ?_) 0
    obtain ⟨part, isPart, rfl⟩ := List.mem_map.mp isCheck
    rw [Value.parts_items] at isPart
    obtain ⟨item, isItem, rfl⟩ := List.mem_map.mp isPart
    exact takes_hashable (each item isItem) kind (areTame item isItem)
  refine Meets.bind gathers fun gathered isTaken => ?_
  rw [meets_ok, collects]
  exact serves_collect usable isTaken

theorem takes_checkEntry (key : Value) {checkKey checkValue : Unit → Check}
    (passesKey : Passes true (checkKey ())) (passesValue : Passes false (checkValue ())) :
    Takes (checkEntry key checkKey checkValue) fun entry =>
      entry.1.value.IsKey ∧ entry.2.value.IsTame := by
  refine Meets.bind ((passesKey.below _).below _ |>.both (passesValue.below _)) ?_
  rintro ⟨newKey, newValue⟩ ⟨isKey, isTame⟩
  simp only [isKey.1]
  exact ⟨isKey, isTame⟩

theorem takes_gatherEntries {entries : List (Value × (Unit → Check) × (Unit → Check))}
    (each : ∀ entry ∈ entries, Passes true (entry.2.1 ()) ∧ Passes false (entry.2.2 ())) :
    Takes (gatherEntries entries) fun gathered =>
      ∀ pair ∈ gathered.1, pair.1.IsKey ∧ pair.2.IsTame := by
  induction entries with
  | nil => exact fun _ isPair => nomatch isPair
  | cons entry entries ih =>
      obtain ⟨⟨passesKey, passesValue⟩, others⟩ := List.forall_mem_cons.mp each
      refine Meets.bind ((takes_checkEntry _ passesKey passesValue).both (ih others)) ?_
      rintro ⟨_, _, _, _⟩ isTaken
      exact List.forall_mem_cons.mpr isTaken

/-! ## Unions -/

theorem takes_best {asKey : Bool} {checks : List (Unit → Check)}
    (each : ∀ check ∈ checks, Passes asKey (check ())) {found : Option Taken}
    (known : ∀ taken, found = some taken → taken.value.Serves asKey) :
    Takes (best found checks) fun result => ∀ taken, result = some taken →
      taken.value.Serves asKey := by
  induction checks generalizing found with
  | nil => exact known
  | cons check checks ih =>
      obtain ⟨passes, others⟩ := List.forall_mem_cons.mp each
      rw [best]
      rcases result : check () with (refusal | fault) | taken
      · exact ih others known
      · rw [result] at passes
        cases passes
      · rw [result] at passes
        dsimp only
        split
        · rintro _ ⟨⟩
          exact passes
        · refine ih others ?_
          rintro better ⟨⟩
          split
          · exact passes
          · split
            · exact passes
            · exact known _ rfl

theorem passes_ofMembers {asKey : Bool} {received : Value} (tame : received.IsTame)
    {members : List (String × (Unit → Check))}
    (each : ∀ member ∈ members, Passes asKey (member.2 ())) :
    Passes asKey (ofMembers received members) := by
  unfold ofMembers
  split
  · exact tame
  · exact each _ List.mem_cons_self
  · refine Meets.bind (@takes_best asKey _ (fun check isCheck => ?_) none (by simp)) ?_
    · obtain ⟨member, isMember, rfl⟩ := List.mem_map.mp isCheck
      exact each member isMember
    intro result isTaken
    split
    · exact isTaken _ rfl
    · exact (each _ List.mem_cons_self).below _

/-! ## Records -/

def PartPasses (part : Part Checker) (expr : TypeExpr) : Prop :=
  part.value.IsTame ∧ Passes false (part.result expr)

theorem passes_checkField {field : ClassField} {given : Part Checker}
    (passes : PartPasses given field.type) : Passes false (checkField field given) := by
  unfold checkField
  split
  · exact passes.1
  refine Meets.bind passes.2 fun taken tame => ?_
  split
  · exact passes.1
  · exact tame

theorem takes_fieldValue {cls : RecordClass} (safe : cls.IsSafe) {field : ClassField}
    (isField : field ∈ cls.fields) {record : Value} (tameRecord : record.IsTame) {parts : Parts Checker}
    (given : ∀ name part, parts.get? name = some part → PartPasses part field.type) :
    Takes (fieldValue record parts field) fun result => result.1.IsTame := by
  refine Takes.below ?_ _
  split
  next part isGiven =>
    exact Meets.map (passes_checkField (given _ part isGiven)) fun taken tame => tame
  next =>
    obtain ⟨default, isMade, tame⟩ := safe.defaults field isField
    rw [isMade]
    cases default with
    | none => exact tameRecord
    | some value => exact tame value rfl

theorem takes_fieldValues {cls : RecordClass} (safe : cls.IsSafe) {record : Value}
    (tame : record.IsTame) {parts : Parts Checker} {fields : List ClassField}
    (areFields : ∀ field ∈ fields, field ∈ cls.fields)
    (given : ∀ name part, parts.get? name = some part → ∀ field ∈ cls.fields,
      PartPasses part field.type) :
    Takes (fieldValues record parts fields) fun results => ∀ result ∈ results, result.1.IsTame := by
  induction fields with
  | nil => exact fun _ isResult => nomatch isResult
  | cons field fields ih =>
      obtain ⟨isField, others⟩ := List.forall_mem_cons.mp areFields
      have first := takes_fieldValue safe isField tame fun name part isGiven =>
        given name part isGiven field isField
      exact Meets.bind (first.both (ih others)) fun pair isTaken => List.forall_mem_cons.mpr isTaken

theorem passes_construct {cls : RecordClass} (safe : cls.IsSafe) {record : Value}
    (tameRecord : record.IsTame) {parts : Parts Checker} (given : ∀ name part,
      parts.get? name = some part → ∀ field ∈ cls.fields, PartPasses part field.type) :
    Passes false (construct cls record parts) := by
  refine Meets.bind (takes_fieldValues safe tameRecord (fun _ isField => isField) given) ?_
  intro results tame
  dsimp only
  rw [meets_ok, Value.serves_false, Value.isTame_record]
  intro field isField
  obtain ⟨result, isResult, same⟩ := List.mem_map.mp (List.of_mem_zip isField).2
  exact same ▸ tame result isResult

/-! ## All type expressions -/

theorem passes_tuple {catalog : Catalog} {asKey : Bool} {exprs : List TypeExpr} {value : Value}
    (serves : value.Serves asKey)
    (each : ∀ item ∈ value.iterated, ∀ expr ∈ exprs, Passes asKey (item.fold (check catalog) expr)) :
    Passes asKey (check catalog value (value.parts (check catalog)) (.tuple exprs)) := by
  rw [check]
  split
  next =>
    refine Meets.bind ((takes_unless (takes_refuse serves.isTame ..)).both <|
      (takes_gather (fun checked isChecked => ?_) 0).both <|
        takes_unless <| (takes_refuse serves.isTame ..).below _) fun _ isTaken =>
          Value.serves_tuple.mpr isTaken.2.1
    obtain ⟨⟨part, expr⟩, isPair, rfl⟩ := List.mem_map.mp isChecked
    obtain ⟨isPart, isExpr⟩ := List.of_mem_zip isPair
    rw [Value.parts_items] at isPart
    obtain ⟨item, isItem, rfl⟩ := List.mem_map.mp isPart
    exact each item isItem expr isExpr
  next => exact serves.isTame

theorem passes_dict {catalog : Catalog} {key element : TypeExpr} {value : Value} (tame : value.IsTame)
    (each : ∀ entries, value.entries? = some entries → ∀ entry ∈ entries,
      Passes true (entry.1.fold (check catalog) key) ∧
        Passes false (entry.2.fold (check catalog) element)) :
    Passes false (check catalog value (value.parts (check catalog)) (.dict key element)) := by
  rw [check]
  split
  next =>
    refine Meets.bind (takes_gatherEntries fun entry isEntry => ?_) fun _ isTaken =>
      Value.isTame_ofPairs isTaken
    obtain ⟨pair, isPair, rfl⟩ := List.mem_map.mp isEntry
    obtain ⟨entries, key, part, isObject, isHeld, rfl⟩ := Value.exists_entry_of_mem_parts _ isPair
    exact each entries isObject (key, part) isHeld
  next => exact tame

/-- A class that can be depended on passes tame values, once the parts of the value are passed. -/
theorem passes_ofClass {catalog : Catalog} {key : ClassKey} (dependable : catalog.Dependable key)
    {value : Value} (tame : value.IsTame) {parts : Parts Checker}
    (given : ∀ name part, parts.get? name = some part → ∀ expr : TypeExpr, expr.IsSafe false →
      (∀ other ∈ expr.classKeys, catalog.Dependable other) → PartPasses part expr) :
    Passes false (ofClass catalog key value parts) := by
  unfold ofClass
  split
  · exact tame
  split
  · exact tame
  next cls found =>
    split
    next =>
      have safe : cls.IsSafe := dependable key cls .refl found
      refine passes_construct safe tame fun name part isGiven field isField => ?_
      refine given name part isGiven field.type (safe.types field isField) fun other mentioned => ?_
      refine dependable.of_mentions ⟨cls, found, ?_⟩
      exact TypeExpr.mem_classKeysOf_of_mem (List.mem_map_of_mem isField) mentioned
    next => exact tame

theorem passes_check {catalog : Catalog} (value : Value) : ∀ {asKey : Bool} {expr : TypeExpr},
    value.Serves asKey → expr.IsSafe asKey → (∀ key ∈ expr.classKeys, catalog.Dependable key) →
    Passes asKey (value.fold (check catalog) expr) := by
  induction value using Value.induction_parts with
  | step value items entries =>
      intro asKey expr serves safe dependable
      rw [Value.fold_eq]
      induction safe with
      | none =>
          rw [check]
          split
          · exact serves
          · exact serves.isTame
      | any | complex | object => exact serves
      | bytes => exact passes_ofFitted (Loose.yieldsKey_bytes value) serves.isTame _
      | scalar kind =>
          exact passes_ofFitted (Loose.yieldsKey_scalar kind serves.isTame) serves.isTame _
      | bare usable =>
          rw [check]
          split
          · refine passes_collection usable (fun item isItem => ?_) (fun item isItem => ?_) fun _ => rfl
            · exact (serves.iterated item isItem).isTame
            · exact serves.iterated item isItem
          · exact serves.isTame
      | collection usable safe =>
          rw [check]
          split
          · refine passes_collection usable (fun item isItem => ?_) (fun item isItem => ?_) fun _ => rfl
            · exact (serves.iterated item isItem).isTame
            have serves := serves.iterated item isItem
            split
            · exact serves
            · exact items item isItem serves safe dependable
          · exact serves.isTame
      | @tuple asKey exprs each =>
          refine passes_tuple serves fun item isItem expr isExpr => ?_
          exact items item isItem (serves.iterated item isItem) (each expr isExpr) fun key mentioned =>
            dependable key (TypeExpr.mem_classKeysOf_of_mem isExpr mentioned)
      | bareDict =>
          rw [check]
          split
          · exact serves
          · exact serves.isTame
      | @dict key item safeKey safeValue =>
          refine passes_dict serves.isTame fun found isObject entry isEntry => ?_
          obtain ⟨isKey, isTame⟩ := serves.isTame.entries isObject entry isEntry
          obtain ⟨passesKey, passesValue⟩ := entries found isObject entry isEntry
          exact ⟨passesKey isKey safeKey fun other mentioned =>
              dependable other (List.mem_append_left _ mentioned),
            passesValue isTame safeValue fun other mentioned =>
              dependable other (List.mem_append_right _ mentioned)⟩
      | union _ ih =>
          rw [check]
          split
          · exact serves
          · refine passes_ofMembers serves.isTame fun checked isChecked => ?_
            rw [checks_eq] at isChecked
            obtain ⟨member, isMember, rfl⟩ := List.mem_map.mp isChecked
            have isMember := List.mem_of_mem_filter isMember
            exact ih member isMember serves fun key mentioned =>
              dependable key (TypeExpr.mem_classKeysOf_of_mem isMember mentioned)
      | literal keys => exact passes_ofFitted (Loose.yieldsKey_choice keys value) serves.isTame _
      | annotated safe ih => exact ih serves dependable
      | enum keys =>
          exact passes_ofFitted (Loose.yieldsKey_member keys serves.isTame) serves.isTame _
      | record key =>
          refine passes_ofClass (dependable key (List.mem_singleton.mpr rfl)) serves.isTame ?_
          intro name part isGiven expr safe classes
          obtain ⟨pair, isPair, rfl⟩ := Option.map_eq_some_iff.mp isGiven
          obtain ⟨found, key, held, isObject, isEntry, rfl⟩ :=
            Value.exists_entry_of_mem_parts _ (List.mem_of_find?_eq_some isPair)
          have tame := (serves.isTame.entries isObject _ isEntry).2
          exact ⟨tame, (entries found isObject _ isEntry).2 tame safe classes⟩

end Validate

theorem ClassLibrary.reference_takesOrRefuses : ClassLibrary.reference.TakesOrRefuses := by
  intro catalog key value _ dependable tame
  have passes : Validate.Passes false (value.fold (Validate.check catalog) (.record key)) := by
    refine Validate.passes_check value tame (.record key) fun other mentioned => ?_
    exact List.mem_singleton.mp mentioned ▸ dependable
  have instantiates : Validate.Passes false (Validate.instantiate catalog key value) := by
    unfold Validate.instantiate
    split
    next missing =>
      rw [dependable.undeclared?] at missing
      cases missing
    next => exact passes
  simp only [reference]
  split
  next made =>
    rw [made] at instantiates
    exact instantiates
  next made =>
    rw [made] at instantiates
    exact instantiates
  next made =>
    rw [made] at instantiates
    exact instantiates

end TypedReply
