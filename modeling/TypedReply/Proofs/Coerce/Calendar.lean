import TypedReply.Proofs.Calendar.IsoText
import TypedReply.Proofs.Numeric.Numerals
import TypedReply.Plain

/-!
# Calendar values in plain form

The plain form of a calendar value is its ISO text, which both calendar kinds read: a date as itself or
as the first moment of its day, a datetime as itself or as its day. Only an offset of less than a second
is lost, for it is read as that of UTC. No other kind takes the text, for it is neither a numeral nor a
word for true or false.
-/

namespace TypedReply

namespace Numeral

theorem integer?_run_minus {run rest : List Char} {digits : List Nat} (isRun : IsRun run digits) :
    integer? (run ++ '-' :: rest) = none := by
  have stops : Stops ('-' :: rest) := stops_cons.mpr (by decide)
  have whole := digitRun_run isRun stops
  cases digits with
  | nil => exact absurd rfl isRun.ne_nil
  | cons digit digits =>
      simp only [integer?, signedRun?, splitSign_of_isUnsigned isRun.isUnsigned, whole,
        Option.bind_eq_bind, Option.bind_none]

theorem double?_run_minus {run rest : List Char} {digits : List Nat} (isRun : IsRun run digits) :
    double? (run ++ '-' :: rest) = none := by
  have stops : Stops ('-' :: rest) := stops_cons.mpr (by decide)
  have whole := digitRun_run isRun stops
  have noWord {first : Char} {word : List Char} (letter : first.isAlpha = true) :
      (run ++ '-' :: rest).map Char.toLower ≠ first :: word :=
    (IsMantissa.whole isRun).map_toLower_ne _ letter
  have none : decimal? false (run ++ '-' :: rest) = none := by
    simp [decimal?, whole, fractionRun, exponent?]
  simp only [double?, fractional?, splitSign_of_isUnsigned isRun.isUnsigned, none, Option.map_none,
    noWord (show 'i'.isAlpha = true by decide), noWord (show 'n'.isAlpha = true by decide), or_self,
    if_false]

end Numeral

/-- The kinds of calendar values. -/
def ScalarKind.isCalendar : ScalarKind → Bool
  | .date => true
  | .datetime => true
  | _ => false

namespace Text

theorem length_le_length_lower (cs : List Char) : cs.length ≤ (lower cs).length := by
  suffices each : ∀ before, cs.length ≤ (lowerFrom before cs).length from each []
  induction cs with
  | nil => exact fun _ => Nat.le_refl _
  | cons c cs ih =>
      intro before
      have rest := ih (c :: before)
      rw [lowerFrom, List.length_append, List.length_cons]
      split
      · simp only [List.length_singleton]
        omega
      · split <;> simp only [List.length_cons, List.length_nil] <;> omega

end Text

namespace Iso

theorem digitValue?_ofNat : ∀ digit < 10, Text.digitValue? (Char.ofNat (48 + digit)) = some digit := by
  decide

theorem exists_isRun_padded (width n : Nat) :
    ∃ digits, Numeral.IsRun (padded (width + 1) n) digits := by
  suffices each : ∀ {rest : List Char} {digits : List Nat}, Numeral.IsRun rest digits →
      ∀ m, ∃ digits, Numeral.IsRun (padded width m ++ rest) digits from
    each (.last (digitValue?_ofNat (n % 10) (Nat.mod_lt n (by decide)))) (n / 10)
  induction width with
  | zero => exact fun isRest _ => ⟨_, isRest⟩
  | succ width ih =>
      intro rest digits isRest m
      have isDigit := digitValue?_ofNat (m % 10) (Nat.mod_lt m (by decide))
      rw [padded, List.append_assoc]
      exact ih (.next isDigit isRest) (m / 10)

theorem exists_isRun_dateText (date : Date) (rest : List Char) :
    ∃ run digits more, dateText date ++ rest = run ++ '-' :: more ∧ Numeral.IsRun run digits := by
  obtain ⟨digits, isRun⟩ := exists_isRun_padded 3 date.year
  refine ⟨padded 4 date.year, digits, ?_⟩
  simp only [dateText, List.append_assoc, List.cons_append, List.append_cancel_left_eq, isRun,
    and_true]
  exact ⟨_, rfl⟩

end Iso

/-! ## Texts of dates and datetimes -/

/-- A text that begins with that of a date, with more of the same characters after it. -/
structure IsCalendarText (text : List Char) : Prop where
  marked : ∀ c ∈ text, c ∈ Iso.marks
  dated : ∃ date rest, text = Iso.dateText date ++ rest

theorem isCalendarText_dateText (date : Date) : IsCalendarText (Iso.dateText date) where
  marked _ := Iso.mem_marks_dateText
  dated := ⟨date, [], (List.append_nil _).symm⟩

theorem isCalendarText_dateTimeText (t : DateTime) : IsCalendarText (Iso.dateTimeText 'T' t) where
  marked _ := Iso.mem_marks_dateTimeText
  dated := ⟨t.date, _, by rw [Iso.dateTimeText, List.append_assoc, List.cons_append]⟩

namespace IsCalendarText

variable {text : List Char} (isCalendar : IsCalendarText text)
include isCalendar

theorem trim_eq : Text.trim text = text := Iso.trim_eq_self isCalendar.marked

theorem exists_isRun : ∃ run digits more, text = run ++ '-' :: more ∧ Numeral.IsRun run digits := by
  obtain ⟨date, rest, rfl⟩ := isCalendar.dated
  exact Iso.exists_isRun_dateText date rest

theorem lower_notMem {words : List String} (short : ∀ word ∈ words, word.length < 10) :
    String.ofList (Text.lower text) ∉ words := by
  intro isWord
  obtain ⟨date, rest, rfl⟩ := isCalendar.dated
  have long := Text.length_le_length_lower (Iso.dateText date ++ rest)
  rw [List.length_append, Iso.length_dateText] at long
  have few := short _ isWord
  rw [String.length_ofList] at few
  omega

/-- Only text and the calendar kinds take the text of a date or a datetime. -/
theorem refused {kind : ScalarKind} (notText : kind ≠ .string) (notCalendar : kind.isCalendar = false)
    (path : Path) : ∃ error, coerceScalar kind (.str (String.ofList text)) path =
      .error (.reply error) := by
  obtain ⟨run, digits, more, isText, isRun⟩ := isCalendar.exists_isRun
  cases kind with
  | string => exact absurd rfl notText
  | int =>
      have none : Coerce.integerOfText text = .error .notNumber := by
        simp [Coerce.integerOfText, isText, Numeral.integer?_run_minus isRun,
          Numeral.double?_run_minus isRun]
      simp [coerceScalar, matchesScalar, Value.integer?, Coerce.isScalar, Coerce.convert,
        Coerce.toInteger, Value.text?, isCalendar.trim_eq, none, Except.map, unconvertible]
  | float =>
      have none : Numeral.double? text = none := by
        simp [isText, Numeral.double?_run_minus isRun]
      simp [coerceScalar, matchesScalar, Value.integer?, Coerce.isScalar, Coerce.convert,
        Coerce.toDouble, Value.text?, isCalendar.trim_eq, none, Except.map, unconvertible]
  | bool =>
      have notTrue := isCalendar.lower_notMem (show ∀ word ∈ Coerce.trueWords, _ by decide)
      have notFalse := isCalendar.lower_notMem (show ∀ word ∈ Coerce.falseWords, _ by decide)
      simp [coerceScalar, matchesScalar, Value.integer?, Coerce.isScalar, Coerce.convert,
        Coerce.toBool, Value.text?, isCalendar.trim_eq, notTrue, notFalse, Except.map, unconvertible]
  | date => cases notCalendar
  | datetime => cases notCalendar

end IsCalendarText

/-! ## Values -/

namespace Value

/-- The kind of a scalar. -/
def scalarKind? : Value → Option ScalarKind
  | .str _ => some .string
  | .int _ => some .int
  | .float _ => some .float
  | .bool _ => some .bool
  | .date _ => some .date
  | .datetime _ => some .datetime
  | _ => none

/-- What a kind makes of the plain form of a calendar value; a value of another kind stays as it is. -/
def recast : ScalarKind → Value → Value
  | .date, .datetime t => .date t.date
  | .datetime, .date d => .datetime (.startOf d)
  | .datetime, .datetime t => .datetime t.asRead
  | _, value => value

end Value

/-- The plain form of a calendar value is a text that either calendar kind reads. -/
theorem exists_calendarText {kind : ScalarKind} (isCalendar : kind.isCalendar = true) {value : Value}
    (isKind : value.scalarKind? = some kind) :
    ∃ text, IsCalendarText text ∧ Plain.plain value = .ok (.str (String.ofList text)) ∧
      ∀ reader : ScalarKind, reader.isCalendar = true → ∀ path,
        coerceScalar reader (.str (String.ofList text)) path = .ok (value.recast reader) := by
  have readings (text : List Char) {date : Date} {t : DateTime}
      (isDate : Coerce.dateOfText? text = some date) (isMoment : Coerce.dateTimeOfText? text = some t)
      (path : Path) :
      coerceScalar .date (.str (String.ofList text)) path = .ok (.date date) ∧
        coerceScalar .datetime (.str (String.ofList text)) path = .ok (.datetime t) := by
    simp [coerceScalar, matchesScalar, Coerce.isScalar, Coerce.convert, Coerce.toDate,
      Coerce.toDateTime, Value.text?, isDate, isMoment, Except.map]
  cases value with
  | date d =>
      refine ⟨_, isCalendarText_dateText d, rfl, fun reader isReader path => ?_⟩
      have each := readings _ (Coerce.dateOfText?_dateText d) (Coerce.dateTimeOfText?_dateText d) path
      cases reader with
      | date => exact each.1
      | datetime => exact each.2
      | _ => cases isReader
  | datetime t =>
      refine ⟨_, isCalendarText_dateTimeText t, rfl, fun reader isReader path => ?_⟩
      have each := readings _ (Coerce.dateOfText?_dateTimeText t)
        (Coerce.dateTimeOfText?_dateTimeText t) path
      cases reader with
      | date => exact each.1
      | datetime => exact each.2
      | _ => cases isReader
  | _ => cases isKind <;> cases isCalendar

/-- The plain form of a value is coerced to a result, wherever it stands. -/
def ComesBackAs (kind : ScalarKind) (value result : Value) : Prop :=
  ∃ wire, Plain.plain value = .ok wire ∧ ∀ path, coerceScalar kind wire path = .ok result

theorem ComesBackAs.unique {kind : ScalarKind} {value result other : Value}
    (isResult : ComesBackAs kind value result) (isOther : ComesBackAs kind value other) :
    result = other := by
  obtain ⟨wire, isWire, reads⟩ := isResult
  obtain ⟨_, isSame, readsOther⟩ := isOther
  obtain rfl := Except.ok.inj (isWire.symm.trans isSame)
  exact Except.ok.inj ((reads []).symm.trans (readsOther []))

theorem comesBackAs_recast {kind : ScalarKind} (isCalendar : kind.isCalendar = true) {value : Value}
    (isKind : value.scalarKind? = some kind) : ComesBackAs kind value (value.recast kind) := by
  obtain ⟨text, -, isPlain, reads⟩ := exists_calendarText isCalendar isKind
  exact ⟨_, isPlain, reads kind isCalendar⟩

/-- Every date comes back from its plain form. A datetime comes back if it is naive or its offset is
zero or at least a second; with an offset in between it comes back as the same date and time in UTC. -/
theorem calendar_values_come_back :
    (∀ date, ComesBackAs .date (.date date) (.date date)) ∧
      ∀ t : DateTime, (ComesBackAs .datetime (.datetime t) (.datetime t) ↔ t.IsLegible) ∧
        (¬t.IsLegible →
          ComesBackAs .datetime (.datetime t) (.datetime ⟨t.date, t.time, some .utc⟩)) := by
  refine ⟨fun date => comesBackAs_recast rfl rfl, fun t => ?_⟩
  have asRead : ComesBackAs .datetime (.datetime t) (.datetime t.asRead) := comesBackAs_recast rfl rfl
  refine ⟨⟨fun comesBack => ?_, fun legible => ?_⟩, fun illegible => ?_⟩
  · exact t.asRead_eq_self_iff.mp (Value.datetime.inj (asRead.unique comesBack))
  · rwa [t.asRead_eq_self_iff.mpr legible] at asRead
  · rwa [DateTime.asRead_of_not_isLegible illegible] at asRead

def firstDay : Date := ⟨2024, 1, 1, by decide⟩

def microsecondAhead : DateTime := ⟨firstDay, .midnight, some ⟨1, by decide⟩⟩

/-- A datetime whose offset is a microsecond comes back as one in UTC. -/
theorem microsecondAhead_lost :
    ComesBackAs .datetime (.datetime microsecondAhead)
        (.datetime { microsecondAhead with offset := some .utc }) ∧
      ¬ComesBackAs .datetime (.datetime microsecondAhead) (.datetime microsecondAhead) := by
  have asRead : ComesBackAs .datetime (.datetime microsecondAhead)
      (.datetime { microsecondAhead with offset := some .utc }) := comesBackAs_recast rfl rfl
  have other : { microsecondAhead with offset := some .utc } ≠ microsecondAhead := by decide
  exact ⟨asRead, fun comesBack => other (Value.datetime.inj (asRead.unique comesBack))⟩

end TypedReply
