import TypedReply.Coerce.Scalar
import Mathlib.Algebra.Group.Nat.Defs
import Mathlib.Data.Option.Basic

/-!
# Calendar values read back from their texts

Of the many forms of ISO 8601 that are read, the form that is written gives back what was written.
The one exception is an offset of less than a second, which is read as that of UTC.
-/

namespace TypedReply

namespace Iso

/-! ## Digits -/

theorem asciiDigit?_ofNat : ∀ digit < 10, asciiDigit? (Char.ofNat (48 + digit)) = some digit := by
  decide

theorem digits?_add (first second start : Nat) (cs : List Char) :
    digits? (first + second) start cs =
      (digits? first start cs).bind fun (n, rest) => digits? second n rest := by
  induction first generalizing start cs with
  | zero => simp [digits?]
  | succ first ih =>
      rw [Nat.add_right_comm]
      cases cs with
      | nil => rfl
      | cons c cs =>
          simp only [digits?]
          cases asciiDigit? c with
          | none => rfl
          | some digit => exact ih _ _

theorem digits?_padded_append (width start n : Nat) (rest : List Char) :
    digits? width start (padded width n ++ rest) =
      some (start * 10 ^ width + n % 10 ^ width, rest) := by
  induction width generalizing start n rest with
  | zero => simp [digits?, padded, Nat.mod_one]
  | succ width ih =>
      have last : asciiDigit? (Char.ofNat (48 + n % 10)) = some (n % 10) :=
        asciiDigit?_ofNat _ (Nat.mod_lt _ (by decide))
      rw [digits?_add, padded, List.append_assoc, ih]
      simp only [Option.bind_some, List.singleton_append, digits?, last]
      rw [Nat.pow_succ, Nat.mul_comm (10 ^ width) 10, Nat.mod_mul, Nat.mul_add,
        Nat.mul_left_comm]
      congr 2
      omega

theorem digits?_padded {width n : Nat} (fits : n < 10 ^ width) (rest : List Char) :
    digits? width 0 (padded width n ++ rest) = some (n, rest) := by
  rw [digits?_padded_append, Nat.mod_eq_of_lt fits]
  simp

theorem digits?_padded_self {width n : Nat} (fits : n < 10 ^ width) :
    digits? width 0 (padded width n) = some (n, []) := by
  simpa using digits?_padded fits []

/-! ## Characters -/

def digits : List Char := "0123456789".toList

def clockMarks : List Char := ':' :: '.' :: digits

/-- The characters of the texts of dates and datetimes. -/
def marks : List Char := '-' :: '+' :: 'T' :: clockMarks

theorem ofNat_mem_digits : ∀ digit < 10, Char.ofNat (48 + digit) ∈ digits := by
  decide

theorem mem_digits_of_mem_padded {width n : Nat} {c : Char} (written : c ∈ padded width n) :
    c ∈ digits := by
  induction width generalizing n with
  | zero => cases written
  | succ width ih =>
      rw [padded, List.mem_append, List.mem_singleton] at written
      rcases written with earlier | rfl
      · exact ih earlier
      · exact ofNat_mem_digits _ (Nat.mod_lt _ (by decide))

theorem exists_padded_eq_cons (width n : Nat) :
    ∃ first rest, first ∈ digits ∧ padded (width + 1) n = first :: rest := by
  cases shape : padded (width + 1) n with
  | nil => simpa [shape] using length_padded (width + 1) n
  | cons first rest =>
      have isDigit : first ∈ digits :=
        mem_digits_of_mem_padded (shape ▸ List.mem_cons_self : first ∈ padded (width + 1) n)
      exact ⟨first, rest, isDigit, rfl⟩

theorem byteCount_eq_length {cs : List Char} (each : ∀ c ∈ cs, c.utf8Size = 1) :
    byteCount cs = cs.length := by
  have counted (start : Nat) :
      cs.foldl (fun count c => count + c.utf8Size) start = start + cs.length := by
    induction cs generalizing start with
    | nil => rfl
    | cons c cs ih =>
        rw [List.foldl_cons, ih fun d isLater => each d (List.mem_cons_of_mem _ isLater),
          each c List.mem_cons_self, List.length_cons]
        omega
  simpa [byteCount] using counted 0

theorem utf8Size_of_mem_marks : ∀ c ∈ marks, c.utf8Size = 1 := by
  intro c isMark
  have each : marks.all (·.utf8Size == 1) = true := by decide
  exact beq_iff_eq.mp (List.all_eq_true.mp each c isMark)

theorem not_isBlank_of_mem_marks : ∀ c ∈ marks, Text.isBlank c = false := by
  intro c isMark
  have each : marks.all (!Text.isBlank ·) = true := by decide
  simpa using List.all_eq_true.mp each c isMark

theorem trim_eq_self {cs : List Char} (each : ∀ c ∈ cs, c ∈ marks) : Text.trim cs = cs :=
  Text.trim_eq_self fun c isWritten => not_isBlank_of_mem_marks c (each c isWritten)

theorem mem_marks_of_mem_clockMarks {c : Char} (isMark : c ∈ clockMarks) : c ∈ marks := by
  simp [marks, isMark]

theorem mem_clockMarks_of_mem_padded {width n : Nat} {c : Char} (written : c ∈ padded width n) :
    c ∈ clockMarks := by
  simp [clockMarks, mem_digits_of_mem_padded written]

theorem mem_clockMarks_microsText {micros : Nat} {c : Char} (written : c ∈ microsText micros) :
    c ∈ clockMarks := by
  unfold microsText at written
  split at written
  · cases written
  · rcases List.mem_cons.mp written with rfl | isDigit
    · decide
    · exact mem_clockMarks_of_mem_padded isDigit

theorem mem_clockMarks_timeText {time : Time} {c : Char} (written : c ∈ timeText time) :
    c ∈ clockMarks := by
  simp only [timeText, List.mem_append, List.mem_cons] at written
  rcases written with ((isHour | rfl | isMinute) | rfl | isSecond) | isMicros
  · exact mem_clockMarks_of_mem_padded isHour
  · decide
  · exact mem_clockMarks_of_mem_padded isMinute
  · decide
  · exact mem_clockMarks_of_mem_padded isSecond
  · exact mem_clockMarks_microsText isMicros

theorem mem_marks_of_mem_padded {width n : Nat} {c : Char} (written : c ∈ padded width n) :
    c ∈ marks :=
  mem_marks_of_mem_clockMarks (mem_clockMarks_of_mem_padded written)

theorem mem_marks_dateText {date : Date} {c : Char} (written : c ∈ dateText date) :
    c ∈ marks := by
  simp only [dateText, List.mem_append, List.mem_cons] at written
  rcases written with (isYear | rfl | isMonth) | rfl | isDay
  · exact mem_marks_of_mem_padded isYear
  · decide
  · exact mem_marks_of_mem_padded isMonth
  · decide
  · exact mem_marks_of_mem_padded isDay

theorem mem_marks_offsetText {offset : Offset} {c : Char} (written : c ∈ offsetText offset) :
    c ∈ marks := by
  simp only [offsetText, List.mem_append, List.mem_cons] at written
  rcases written with isSign | (isHour | rfl | isMinute) | isRest
  · split at isSign <;> subst isSign <;> decide
  · exact mem_marks_of_mem_padded isHour
  · decide
  · exact mem_marks_of_mem_padded isMinute
  · split at isRest
    · cases isRest
    · simp only [List.mem_append, List.mem_cons] at isRest
      rcases isRest with (rfl | isSecond) | isMicros
      · decide
      · exact mem_marks_of_mem_padded isSecond
      · exact mem_marks_of_mem_clockMarks (mem_clockMarks_microsText isMicros)

theorem mem_marks_dateTimeText {t : DateTime} {c : Char} (written : c ∈ dateTimeText 'T' t) :
    c ∈ marks := by
  simp only [dateTimeText, List.mem_append, List.mem_cons] at written
  rcases written with (isDate | rfl | isTime) | isOffset
  · exact mem_marks_dateText isDate
  · decide
  · exact mem_marks_of_mem_clockMarks (mem_clockMarks_timeText isTime)
  · cases hasOffset : t.offset with
    | none => simp [hasOffset] at isOffset
    | some offset => exact mem_marks_offsetText (by simpa [hasOffset] using isOffset)

/-! ## Dates -/

theorem length_dateText (date : Date) : (dateText date).length = 10 := by
  simp [dateText]

theorem date?_dateText (date : Date) : date? (dateText date) = some date := by
  obtain ⟨_, yearSmall, _, monthSmall, _, daySmall⟩ := date.inRange
  have bytes : byteCount (dateText date) = 10 := by
    rw [byteCount_eq_length fun c written => utf8Size_of_mem_marks c (mem_marks_dateText written),
      length_dateText]
  have days : date.day ≤ 31 := by
    unfold Calendar.daysInMonth at daySmall
    split at daySmall
    · split at daySmall <;> omega
    · split at daySmall <;> omega
  obtain ⟨first, more, isDigit, month⟩ := exists_padded_eq_cons 1 date.month
  have notWeek : 'W' ∉ digits := by decide
  have readsMonth (rest : List Char) :
      digits? 2 0 (first :: (more ++ rest)) = some (date.month, rest) := by
    rw [← List.cons_append, ← month]
    exact digits?_padded (by omega) rest
  have readsDay := digits?_padded_self (show date.day < 10 ^ 2 by omega)
  rw [date?, bytes]
  simp only [dateText, List.append_assoc, digits?_padded (show date.year < 10 ^ 4 by omega), month,
    List.cons_append, Option.bind_eq_bind, Option.bind_some]
  have firstNotWeek : first ≠ 'W' := fun same => notWeek (same ▸ isDigit)
  simp [guard, firstNotWeek, readsMonth, hyphen?, readsDay, Date.of?, date.inRange]

/-! ## Clocks -/

theorem byteCount_of_marks {cs : List Char} (each : ∀ c ∈ cs, c ∈ marks) :
    byteCount cs = cs.length :=
  byteCount_eq_length fun c written => utf8Size_of_mem_marks c (each c written)

theorem fraction?_padded (stop : Char) {micros : Nat} (small : micros < 10 ^ 6) :
    fraction? stop (padded 6 micros) = some (micros, stop != endMark) := by
  have six := length_padded 6 micros
  have all : (padded 6 micros).take 6 = padded 6 micros := List.take_of_length_le (by omega)
  have none : (padded 6 micros).drop 6 = [] := List.drop_eq_nil_of_le (by omega)
  simp [fraction?, all, none, digits?_padded_self small]

/-- A component and the colon after it are read before the components that follow. -/
theorem clockFrom?_colon (stop : Char) (count : Nat) {colons? : Option Bool}
    (used : colons?.getD true = true) {value : Nat} (small : value < 10 ^ 2) {rest : List Char}
    (written : ∀ c ∈ rest, c ∈ marks) (more : rest ≠ []) {components : List Nat} {micros : Nat}
    {leftover : Bool}
    (reads : clockFrom? stop count (some true) rest = some ⟨components, micros, leftover⟩) :
    clockFrom? stop (count + 1) colons? (padded 2 value ++ ':' :: rest) =
      some ⟨value :: components, micros, leftover⟩ := by
  have bytes : byteCount (':' :: rest) = rest.length + 1 := by
    rw [byteCount_of_marks, List.length_cons]
    intro c isMark
    rcases List.mem_cons.mp isMark with rfl | isLater
    · decide
    · exact written c isLater
  have several : 0 < rest.length := List.length_pos_iff.mpr more
  have notFew : ¬rest.length + 1 ≤ 1 := by omega
  rw [clockFrom?]
  simp [digits?_padded small, used, bytes, notFew, reads]

theorem clockFrom?_last (stop : Char) (count : Nat) {value micros : Nat} (small : value < 10 ^ 2)
    (few : micros < 10 ^ 6) :
    clockFrom? stop (count + 1) (some true) (padded 2 value ++ microsText micros) =
      some ⟨[value], micros, stop != endMark⟩ := by
  rw [clockFrom?, digits?_padded small]
  unfold microsText
  split
  next zero =>
    subst zero
    simp [byteCount]
  next =>
    have bytes : byteCount ('.' :: padded 6 micros) = 7 := by
      rw [byteCount_of_marks, List.length_cons, length_padded]
      intro c isMark
      rcases List.mem_cons.mp isMark with rfl | isLater
      · decide
      · exact mem_marks_of_mem_padded isLater
    simp [bytes, fraction?_padded stop few]

theorem clock?_full (stop : Char) {hour minute second micros : Nat} (hourSmall : hour < 10 ^ 2)
    (minuteSmall : minute < 10 ^ 2) (secondSmall : second < 10 ^ 2) (few : micros < 10 ^ 6) :
    clock? stop (padded 2 hour ++ ':' :: (padded 2 minute ++ ':' :: (padded 2 second ++
      microsText micros))) = some ⟨[hour, minute, second], micros, stop != endMark⟩ := by
  have last := clockFrom?_last stop 0 secondSmall few
  have secondMarks (c) (written : c ∈ padded 2 second ++ microsText micros) : c ∈ marks := by
    rcases List.mem_append.mp written with isSecond | isMicros
    · exact mem_marks_of_mem_padded isSecond
    · exact mem_marks_of_mem_clockMarks (mem_clockMarks_microsText isMicros)
  have minuteMarks (c)
      (written : c ∈ padded 2 minute ++ ':' :: (padded 2 second ++ microsText micros)) :
      c ∈ marks := by
    rcases List.mem_append.mp written with isMinute | isLater
    · exact mem_marks_of_mem_padded isMinute
    · rcases List.mem_cons.mp isLater with rfl | isSecond
      · decide
      · exact secondMarks c isSecond
  have minutes := @clockFrom?_colon stop 1 (some true) rfl _ minuteSmall _ secondMarks
    (by simp [padded]) _ _ _ last
  exact clockFrom?_colon stop 2 rfl hourSmall minuteMarks (by simp) minutes

theorem clock?_short (stop : Char) {hour minute : Nat} (hourSmall : hour < 10 ^ 2)
    (minuteSmall : minute < 10 ^ 2) :
    clock? stop (padded 2 hour ++ ':' :: padded 2 minute) =
      some ⟨[hour, minute], 0, stop != endMark⟩ := by
  have minutes := clockFrom?_last stop 1 minuteSmall (show 0 < 10 ^ 6 by decide)
  rw [microsText, if_pos rfl, List.append_nil] at minutes
  exact clockFrom?_colon stop 2 rfl hourSmall (fun c => mem_marks_of_mem_padded) (by simp [padded])
    minutes

theorem time?_timeText (stop : Char) (time : Time) :
    ∃ clock, clock? stop (timeText time) = some clock ∧
      clock.leftover = (stop != endMark) ∧ clock.time? = some time := by
  obtain ⟨hourSmall, minuteSmall, secondSmall, few⟩ := time.inRange
  refine ⟨⟨[time.hour, time.minute, time.second], time.microsecond, stop != endMark⟩, ?_, rfl, ?_⟩
  · rw [← clock?_full stop (by omega) (by omega) (by omega) (by omega)]
    simp [timeText]
  · simp [Clock.time?, Clock.component, Time.of?, time.inRange]

end Iso

/-! ## Offsets -/

namespace Offset

/-- What the text of an offset is read as: of less than a second, the offset of UTC. -/
def asRead (offset : Offset) : Offset := if offset.micros.natAbs < 1000000 then .utc else offset

/-- An offset that is told from that of UTC by whole seconds, or is that of UTC. -/
def IsLegible (offset : Offset) : Prop := offset.micros = 0 ∨ 1000000 ≤ offset.micros.natAbs

theorem asRead_eq_self_iff (offset : Offset) : offset.asRead = offset ↔ offset.IsLegible := by
  obtain ⟨micros, inRange⟩ := offset
  simp only [asRead, IsLegible]
  split
  next less =>
    have notMore : ¬1000000 ≤ micros.natAbs := by omega
    simp [utc, notMore, eq_comm]
  next notLess =>
    have more : 1000000 ≤ micros.natAbs := by omega
    simp [more]

end Offset

namespace Iso

/-- The components of an offset, of either sign, make up the offset as it is read. -/
theorem offset?_components {offset : Offset} {clock : Clock}
    (whole : clock.component 0 * 3600 + clock.component 1 * 60 + clock.component 2 =
      offset.micros.natAbs / 1000000)
    (part : clock.microsecond = offset.micros.natAbs % 1000000) :
    clock.offset? (decide (offset.micros < 0)) = some offset.asRead := by
  have magnitude := Nat.div_add_mod' offset.micros.natAbs 1000000
  unfold Clock.offset? Offset.asRead
  simp only [whole, part, magnitude]
  by_cases less : offset.micros.natAbs < 1000000
  · rw [if_pos (Nat.div_eq_of_lt less), if_pos less]
  · have seconds : offset.micros.natAbs / 1000000 ≠ 0 := by omega
    have signed : Double.signed (decide (offset.micros < 0)) offset.micros.natAbs =
        offset.micros := by
      rw [Double.signed]
      simp only [decide_eq_true_eq]
      split <;> omega
    rw [if_neg seconds, if_neg less]
    simp [signed, Offset.of?, offset.inRange]

/-- The text of an offset begins with its sign, and what follows is read as its magnitude. -/
theorem clock?_offsetText (offset : Offset) :
    ∃ rest clock, offsetText offset = (if offset.micros < 0 then '-' else '+') :: rest ∧
      clock? endMark rest = some clock ∧ clock.leftover = false ∧
      clock.component 0 * 3600 + clock.component 1 * 60 + clock.component 2 =
        offset.micros.natAbs / 1000000 ∧
      clock.microsecond = offset.micros.natAbs % 1000000 := by
  have short : offset.micros.natAbs < 86400000000 := offset.inRange
  have hourSmall : offset.micros.natAbs / 1000000 / 3600 < 10 ^ 2 := by omega
  have minuteSmall : offset.micros.natAbs / 1000000 / 60 % 60 < 10 ^ 2 := by omega
  have secondSmall : offset.micros.natAbs / 1000000 % 60 < 10 ^ 2 := by omega
  have few : offset.micros.natAbs % 1000000 < 10 ^ 6 := by omega
  by_cases round : offset.micros.natAbs / 1000000 % 60 = 0 ∧ offset.micros.natAbs % 1000000 = 0
  · refine ⟨_, _, ?_, clock?_short endMark hourSmall minuteSmall, rfl, ?_, round.2.symm⟩
    · simp [offsetText, round]
    · simp only [Clock.component, List.getD_cons_zero, List.getD_cons_succ, List.getD_nil]
      omega
  · refine ⟨_, _, ?_, clock?_full endMark hourSmall minuteSmall secondSmall few, rfl, ?_, rfl⟩
    · simp [offsetText, round]
    · simp only [Clock.component, List.getD_cons_zero, List.getD_cons_succ]
      omega

/-! ## Datetimes -/

theorem not_beginsOffset_of_mem_clockMarks : ∀ c ∈ clockMarks, beginsOffset c = false := by
  intro c isMark
  have each : clockMarks.all (!beginsOffset ·) = true := by decide
  simpa using List.all_eq_true.mp each c isMark

theorem timeAndOffset?_text (time : Time) (offset : Option Offset) :
    timeAndOffset? (timeText time ++ (offset.map offsetText).getD []) =
      some (time, offset.map (·.asRead)) := by
  have inTime (c) (written : c ∈ timeText time) : (!beginsOffset c) = true := by
    simp [not_beginsOffset_of_mem_clockMarks c (mem_clockMarks_timeText written)]
  unfold timeAndOffset?
  rw [List.takeWhile_append_of_pos inTime, List.dropWhile_append_of_pos inTime]
  cases offset with
  | none =>
      obtain ⟨clock, reads, whole, isTime⟩ := time?_timeText endMark time
      simp [reads, whole, isTime, guard]
  | some given =>
      obtain ⟨rest, read, isText, reads, whole, seconds, micros⟩ := clock?_offsetText given
      have isOffset := offset?_components seconds micros
      by_cases negative : given.micros < 0
      · rw [if_pos negative] at isText
        obtain ⟨clock, readsTime, -, isTime⟩ := time?_timeText '-' time
        simp only [negative, decide_true] at isOffset
        simp [isText, beginsOffset, readsTime, isTime, reads, whole, isOffset, guard]
      · rw [if_neg negative] at isText
        obtain ⟨clock, readsTime, -, isTime⟩ := time?_timeText '+' time
        simp only [negative, decide_false] at isOffset
        simp [isText, beginsOffset, readsTime, isTime, reads, whole, isOffset, guard]

end Iso

namespace DateTime

def asRead (t : DateTime) : DateTime := { t with offset := t.offset.map (·.asRead) }

/-- A datetime whose offset, if it has one, is legible. -/
def IsLegible (t : DateTime) : Prop := ∀ offset, t.offset = some offset → offset.IsLegible

theorem asRead_eq_self_iff (t : DateTime) : t.asRead = t ↔ t.IsLegible := by
  obtain ⟨date, time, offset⟩ := t
  cases offset with
  | none => simp [asRead, IsLegible]
  | some given => simp [asRead, IsLegible, Offset.asRead_eq_self_iff]

theorem asRead_of_not_isLegible {t : DateTime} (illegible : ¬t.IsLegible) :
    t.asRead = ⟨t.date, t.time, some .utc⟩ := by
  obtain ⟨date, time, offset⟩ := t
  cases offset with
  | none => exact absurd (fun _ isOffset => nomatch isOffset) illegible
  | some given =>
      have short : given.micros.natAbs < 1000000 := by
        by_contra long
        exact illegible fun _ isOffset => Option.some.inj isOffset ▸ .inr (Nat.le_of_not_lt long)
      simp [asRead, Offset.asRead, short]

end DateTime

namespace Iso

theorem dateLength?_dateText (date : Date) (rest : List Char) :
    dateLength? (dateText date ++ rest) = some 10 := by
  have long : (dateText date ++ rest).length ≠ 7 := by
    rw [List.length_append, length_dateText]
    omega
  have hyphen : (dateText date ++ rest)[4]? = some '-' := by
    simp [dateText, padded]
  have month : (dateText date ++ rest)[5]? = some (Char.ofNat (48 + date.month / 10 % 10)) := by
    simp [dateText, padded]
  have notWeek : ∀ digit < 10, Char.ofNat (48 + digit) ≠ 'W' := by
    decide
  have notWeek := notWeek (date.month / 10 % 10) (Nat.mod_lt _ (by decide))
  simp only [dateLength?, long, hyphen, month, Option.some.injEq, notWeek, if_false, if_true]

/-- Of a text that begins with that of a date, the date is read, and the time of day after the mark that
follows, if there is one. -/
theorem dateTime?_dateText_append (date : Date) (rest : List Char) :
    dateTime? (dateText date ++ rest) = match rest with
      | [] => some (.startOf date)
      | _ :: text => (timeAndOffset? text).map fun read => ⟨date, read.1, read.2⟩ := by
  have ten := length_dateText date
  have long : 7 ≤ (dateText date ++ rest).length := by
    rw [List.length_append]
    omega
  have isDate : (dateText date ++ rest).take 10 = dateText date := by
    rw [← ten, List.take_left]
  have isRest : (dateText date ++ rest).drop 10 = rest := by
    rw [← ten, List.drop_left]
  simp only [dateTime?, long, guard, if_true, dateLength?_dateText, isDate, isRest, date?_dateText,
    Option.bind_eq_bind, Option.bind_some, Option.pure_def]
  cases rest with
  | nil => rfl
  | cons mark text =>
      simp only
      rw [Option.map_eq_bind]
      rfl

theorem dateTime?_dateText (date : Date) : dateTime? (dateText date) = some (.startOf date) := by
  simpa using dateTime?_dateText_append date []

theorem dateTime?_dateTimeText (t : DateTime) :
    dateTime? (dateTimeText 'T' t) = some t.asRead := by
  have split : dateTimeText 'T' t =
      dateText t.date ++ 'T' :: (timeText t.time ++ (t.offset.map offsetText).getD []) := by
    simp [dateTimeText]
  rw [split, dateTime?_dateText_append]
  simp [timeAndOffset?_text t.time, DateTime.asRead]

theorem date?_dateTimeText (t : DateTime) : date? (dateTimeText 'T' t) = none := by
  have long : 19 ≤ byteCount (dateTimeText 'T' t) := by
    rw [byteCount_of_marks fun c => mem_marks_dateTimeText]
    simp only [dateTimeText, timeText, List.length_append, List.length_cons, length_dateText,
      length_padded]
    omega
  have unfit : ¬(byteCount (dateTimeText 'T' t) = 7 ∨ byteCount (dateTimeText 'T' t) = 8 ∨
      byteCount (dateTimeText 'T' t) = 10) := by
    omega
  simp [date?, guard, unfit]

end Iso

namespace Coerce

open Iso

theorem dateTimeOfText?_of_marks {cs : List Char} (each : ∀ c ∈ cs, c ∈ marks) :
    dateTimeOfText? cs = dateTime? cs := by
  have upper : 'Z' ∉ marks := by decide
  have lower : 'z' ∉ marks := by decide
  unfold dateTimeOfText?
  simp only [trim_eq_self each]
  split
  next last before reversed =>
    have isMark : last ∈ marks := by
      apply each
      rw [← List.mem_reverse, reversed]
      exact List.mem_cons_self
    have notZ : ¬(last = 'Z' ∨ last = 'z') := by
      rintro (rfl | rfl)
      · exact upper isMark
      · exact lower isMark
    rw [if_neg notZ]
  next => rfl

theorem dateOfText?_dateText (date : Date) : dateOfText? (dateText date) = some date := by
  rw [dateOfText?, trim_eq_self fun c => mem_marks_dateText, date?_dateText]
  rfl

theorem dateTimeOfText?_dateText (date : Date) :
    dateTimeOfText? (dateText date) = some (.startOf date) :=
  (dateTimeOfText?_of_marks fun _ => mem_marks_dateText).trans (dateTime?_dateText date)

theorem dateTimeOfText?_dateTimeText (t : DateTime) :
    dateTimeOfText? (dateTimeText 'T' t) = some t.asRead :=
  (dateTimeOfText?_of_marks fun _ => mem_marks_dateTimeText).trans (dateTime?_dateTimeText t)

theorem dateOfText?_dateTimeText (t : DateTime) : dateOfText? (dateTimeText 'T' t) = some t.date := by
  rw [dateOfText?, trim_eq_self fun c => mem_marks_dateTimeText, date?_dateTimeText,
    dateTimeOfText?_dateTimeText]
  rfl

end Coerce

end TypedReply
