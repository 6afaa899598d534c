import TypedReply.Proofs.Coerce.Calendar
import TypedReply.Proofs.Reply.Flattening
import TypedReply.Reference.Library

/-!
# Unions of scalars

The plain form of a number or a Boolean still has its kind, so a union of scalars without text reads it
as it was. That of a calendar value is a text, which has the shape of no such member; the numbers and
Booleans refuse it, and each calendar kind takes it. So the first calendar kind of the union decides:
the other one of the two does not come back.
-/

namespace TypedReply

open Read Descriptor

namespace Descriptor

/-- A member of a union of scalars without text. -/
inductive IsTextless : Descriptor → Prop where
  | null : IsTextless .null
  | scalar {kind : ScalarKind} (notText : kind ≠ .string) : IsTextless (.scalar kind)

/-- The values of null and of a scalar. -/
inductive HoldsScalar : Descriptor → Value → Prop where
  | null : HoldsScalar .null .null
  | scalar {kind : ScalarKind} {value : Value} (isKind : value.scalarKind? = some kind) :
      HoldsScalar (.scalar kind) value

/-- The calendar kind that a descriptor is. -/
def calendarKind? : Descriptor → Option ScalarKind
  | .scalar kind => if kind.isCalendar then some kind else none
  | _ => none

theorem calendarKind?_eq_some_iff {descriptor : Descriptor} {kind : ScalarKind} :
    descriptor.calendarKind? = some kind ↔ descriptor = .scalar kind ∧ kind.isCalendar = true := by
  cases descriptor with
  | scalar other =>
      simp only [calendarKind?, Option.ite_none_right_eq_some, Option.some.injEq, scalar.injEq]
      constructor
      · rintro ⟨isCalendar, rfl⟩
        exact ⟨rfl, isCalendar⟩
      · rintro ⟨rfl, isCalendar⟩
        exact ⟨isCalendar, rfl⟩
  | _ => simp [calendarKind?]

/-- A member has no calendar kind, or that of the first member that has one. -/
def Leads (members : List Descriptor) (member : Descriptor) : Prop :=
  ∀ kind, member.calendarKind? = some kind → members.findSome? calendarKind? = some kind

end Descriptor

def Value.IsLegible (value : Value) : Prop := ∀ t, value = .datetime t → t.IsLegible

/-- A value as the first calendar kind of a union makes it, if it is a calendar value. -/
def Value.recastBy (members : List Descriptor) (value : Value) : Value :=
  (members.findSome? calendarKind?).elim value fun kind => value.recast kind

variable {registry : Registry} {members : List Descriptor} {member : Descriptor} {value : Value}

theorem readAt_union_matched {kind : ScalarKind} (isMember : .scalar kind ∈ members)
    (shaped : matchesScalar kind value = true) (plain : value.isObject = false)
    (notList : value.items? = none) (present : value.isNull = false) (path : Path) :
    readAt registry value (.union members) path = .ok value := by
  have isCandidate : .scalar kind ∈ nonNull members := List.mem_filter.mpr ⟨isMember, rfl⟩
  rw [readAt_union_plain plain (by simp [present])]
  cases found : (nonNull members).find? (exactMatch value) with
  | none => exact absurd shaped (List.find?_eq_none.mp found _ isCandidate)
  | some chosen =>
      rcases @readAt_of_exactMatch registry value chosen (List.find?_some found) path with
        isRead | ⟨_, _, _, isList⟩
      · exact isRead
      · cases notList.symm.trans isList

/-- The text of a calendar value is read by the first calendar kind of a union. -/
theorem readAt_union_calendarText (scalars : ∀ member ∈ members, member.IsTextless) {text : List Char}
    (isCalendar : IsCalendarText text) {reader : ScalarKind}
    (first : members.findSome? calendarKind? = some reader) {result : Value}
    (reads : ∀ path, coerceScalar reader (.str (String.ofList text)) path = .ok result) (path : Path) :
    readAt registry (.str (String.ofList text)) (.union members) path = .ok result := by
  obtain ⟨before, leader, after, rfl, isReader, earlier⟩ := List.findSome?_eq_some_iff.mp first
  obtain ⟨rfl, -⟩ := calendarKind?_eq_some_iff.mp isReader
  have scalar (kind : ScalarKind) (path : Path) : readAt registry (.str (String.ofList text))
      (.scalar kind) path = coerceScalar kind (.str (String.ofList text)) path := by
    rw [readAt_eq, Read.read]
  -- A text has the shape of no member, so the members are tried in turn, and those before the reader
  -- are numbers and Booleans.
  have shapeless : (nonNull (before ++ .scalar reader :: after)).find?
      (exactMatch (.str (String.ofList text))) = none := by
    refine List.find?_eq_none.mpr fun other isOther shaped => ?_
    cases scalars other (List.mem_of_mem_filter isOther) with
    | null => cases shaped
    | @scalar kind notText => cases kind <;> first | exact notText rfl | cases shaped
  have refused (other) (isOther : other ∈ before) :
      Refuses registry (.str (String.ofList text)) other := by
    cases scalars other (List.mem_append_left _ isOther) with
    | null => exact refuses_null rfl
    | @scalar kind notText =>
        have notCalendar : kind.isCalendar = false := by
          simpa [calendarKind?] using earlier _ isOther
        obtain ⟨error, isRefused⟩ := isCalendar.refused notText notCalendar []
        exact ⟨error, (scalar kind []).trans isRefused⟩
  have accepted : ¬Refuses registry (.str (String.ofList text)) (.scalar reader) := by
    rintro ⟨error, isRefused⟩
    cases (reads []).symm.trans ((scalar reader []).symm.trans isRefused)
  rw [readAt_union_tried rfl rfl shapeless refused rfl accepted, scalar, reads]

theorem exists_findSome?_calendarKind? {kind : ScalarKind} (isMember : .scalar kind ∈ members)
    (isCalendar : kind.isCalendar = true) :
    ∃ reader, members.findSome? calendarKind? = some reader ∧ reader.isCalendar = true := by
  have isSome : (members.findSome? calendarKind?).isSome = true :=
    List.findSome?_isSome_iff.mpr ⟨_, isMember, by simp [calendarKind?, isCalendar]⟩
  obtain ⟨reader, first⟩ := Option.isSome_iff_exists.mp isSome
  obtain ⟨leader, -, isReader⟩ := List.exists_of_findSome?_eq_some first
  exact ⟨reader, first, (calendarKind?_eq_some_iff.mp isReader).2⟩

theorem recast_eq_self_iff {kind reader : ScalarKind} (isKind : value.scalarKind? = some kind)
    (isCalendar : kind.isCalendar = true) (isReader : reader.isCalendar = true) :
    value.recast reader = value ↔ reader = kind ∧ value.IsLegible := by
  cases value with
  | date d =>
      obtain rfl := Option.some.inj isKind
      cases reader with
      | date => simp [Value.recast, Value.IsLegible]
      | datetime => simp [Value.recast]
      | _ => cases isReader
  | datetime t =>
      obtain rfl := Option.some.inj isKind
      cases reader with
      | date => simp [Value.recast]
      | datetime => simp [Value.recast, Value.IsLegible, DateTime.asRead_eq_self_iff]
      | _ => cases isReader
  | _ => cases isKind <;> cases isCalendar

theorem recastBy_of_not_calendar (notCalendar : ∀ kind, value.scalarKind? = some kind →
    kind.isCalendar = false) (members : List Descriptor) :
    value.recastBy members = value ∧ value.IsLegible := by
  have stays (kind : ScalarKind) : value.recast kind = value := by
    cases value with
    | date => cases notCalendar .date rfl
    | datetime => cases notCalendar .datetime rfl
    | _ => cases kind <;> rfl
  refine ⟨?_, fun t same => ?_⟩
  · rw [Value.recastBy]
    cases members.findSome? calendarKind? with
    | none => rfl
    | some kind => exact stays kind
  · subst same
    cases notCalendar .datetime rfl

/-- A number or a Boolean comes back as it is. -/
theorem readAt_union_number (scalars : ∀ member ∈ members, member.IsTextless) {kind : ScalarKind}
    (isMember : .scalar kind ∈ members) (isKind : value.scalarKind? = some kind)
    (notCalendar : kind.isCalendar = false) :
    Plain.plain value = .ok value ∧
      ∀ path, readAt registry value (.union members) path = .ok value := by
  cases value with
  | int =>
      cases isKind
      exact ⟨rfl, readAt_union_matched isMember rfl rfl rfl rfl⟩
  | float =>
      cases isKind
      exact ⟨rfl, readAt_union_matched isMember rfl rfl rfl rfl⟩
  | bool =>
      cases isKind
      exact ⟨rfl, readAt_union_matched isMember rfl rfl rfl rfl⟩
  | str =>
      cases isKind
      cases scalars _ isMember with
      | scalar notText => exact absurd rfl notText
  | date | datetime => cases isKind; cases notCalendar
  | _ => cases isKind

/-- A value of a member of a union of scalars without text is read back as what the first calendar kind
of the union makes of it. So it comes back exactly if it is legible and, in case it is a calendar value,
its kind stands before the other calendar kind. The datetimes are naive or have a fixed offset. -/
theorem scalar_union_comes_back_iff (scalars : ∀ member ∈ members, member.IsTextless)
    (isMember : member ∈ members) (isHeld : member.HoldsScalar value) :
    ∃ wire, Plain.plain value = .ok wire ∧
      (∀ path, readAt registry wire (.union members) path = .ok (value.recastBy members)) ∧
      (value.recastBy members = value ↔ Leads members member ∧ value.IsLegible) := by
  cases isHeld with
  | null =>
      obtain ⟨stays, legible⟩ :=
        @recastBy_of_not_calendar .null (fun _ isKind => nomatch isKind) members
      have nilable : nilable members = true := List.any_eq_true.mpr ⟨.null, isMember, rfl⟩
      have leads : Leads members .null := fun _ isKind => nomatch isKind
      rw [stays]
      exact ⟨.null, rfl, readAt_union_null nilable, iff_of_true rfl ⟨leads, legible⟩⟩
  | @scalar kind _ isKind =>
      cases isCalendar : kind.isCalendar with
      | true =>
          obtain ⟨reader, first, isReader⟩ := exists_findSome?_calendarKind? isMember isCalendar
          obtain ⟨text, isText, isPlain, reads⟩ := exists_calendarText isCalendar isKind
          have recast : value.recastBy members = value.recast reader := by
            rw [Value.recastBy, first, Option.elim_some]
          have leads : Leads members (.scalar kind) ↔ reader = kind := by
            simp [Leads, calendarKind?, isCalendar, first]
          rw [recast, leads]
          exact ⟨_, isPlain, readAt_union_calendarText scalars isText first (reads reader isReader),
            recast_eq_self_iff isKind isCalendar isReader⟩
      | false =>
          have notCalendar (other) (isOther : value.scalarKind? = some other) :
              other.isCalendar = false := by
            rwa [← Option.some.inj (isKind.symm.trans isOther)]
          obtain ⟨stays, legible⟩ := recastBy_of_not_calendar notCalendar members
          obtain ⟨isPlain, reads⟩ := readAt_union_number scalars isMember isKind isCalendar
          have leads : Leads members (.scalar kind) := by
            simp [Leads, calendarKind?, isCalendar]
          rw [stays]
          exact ⟨value, isPlain, reads, iff_of_true rfl ⟨leads, legible⟩⟩

/-! ### Appointments -/

def firstMorning : DateTime := ⟨firstDay, ⟨10, 0, 0, 0, by decide⟩, none⟩

/-- A moment comes back from a union that lists datetimes before dates. -/
theorem firstMorning_comes_back :
    let appointments : List Descriptor := [.scalar .int, .scalar .datetime, .null, .scalar .date]
    (∀ member ∈ appointments, member.IsTextless) ∧ .scalar .datetime ∈ appointments ∧
      HoldsScalar (.scalar .datetime) (.datetime firstMorning) ∧
      ∃ wire, Plain.plain (.datetime firstMorning) = .ok wire ∧
        ∀ path, readAt Registry.empty wire (.union appointments) path =
          .ok (.datetime firstMorning) := by
  intro appointments
  have scalars : ∀ member ∈ appointments, member.IsTextless := by
    simp only [appointments, List.forall_mem_cons]
    exact ⟨.scalar (by decide), .scalar (by decide), .null, .scalar (by decide), List.forall_mem_nil _⟩
  have isMember : .scalar .datetime ∈ appointments := .tail _ (.head _)
  have isHeld : HoldsScalar (.scalar .datetime) (.datetime firstMorning) := .scalar rfl
  have leads : Leads appointments (.scalar .datetime) := fun _ isKind => isKind
  have legible : (Value.datetime firstMorning).IsLegible := by
    rintro _ ⟨⟩ _ isOffset
    cases isOffset
  refine ⟨scalars, isMember, isHeld, ?_⟩
  obtain ⟨wire, isPlain, reads, comesBack⟩ := scalar_union_comes_back_iff scalars isMember isHeld
  rw [comesBack.mpr ⟨leads, legible⟩] at reads
  exact ⟨wire, isPlain, reads⟩

/-- A union that lists dates first reads a moment as its day, and one that lists datetimes first reads a
day as its first moment. -/
theorem calendar_kinds_confused :
    (∃ wire, Plain.plain (.datetime firstMorning) = .ok wire ∧
      read Registry.empty wire (.union [.scalar .date, .scalar .datetime]) = .ok (.date firstDay)) ∧
    ∃ wire, Plain.plain (.date firstDay) = .ok wire ∧
      read Registry.empty wire (.union [.scalar .datetime, .scalar .date]) =
        .ok (.datetime (.startOf firstDay)) :=
  ⟨⟨_, rfl, rfl⟩, ⟨_, rfl, rfl⟩⟩

end TypedReply
