import TypedReply.Proofs.Reply.Discriminators
import TypedReply.Proofs.Reply.Idempotence
import TypedReply.Proofs.Value.Distinct
import TypedReply.Proofs.Value.IntText
import TypedReply.Plain

/-!
# Members and the texts that name them

A text names the first member whose value has it. If there is none, it names the first member whose
value or name has it ignoring case: a name may come before a value here. The plain form of a member is
its value. It is taken for the member again unless it has blanks around it or is written like the value
of a member that comes before.
-/

namespace TypedReply

/-! ## The first of a list -/

section First

variable {α : Type} {property other : α → Prop} {values : List α} {value next : α}

/-- A value is the first of a list that has a property. -/
def IsFirst (property : α → Prop) (values : List α) (value : α) : Prop :=
  ∃ before after, values = before ++ value :: after ∧ property value ∧
    ∀ earlier ∈ before, ¬property earlier

theorem find?_eq_some_iff_isFirst {test : α → Bool} :
    values.find? test = some value ↔ IsFirst (fun value => test value = true) values value := by
  rw [List.find?_eq_some_iff_append]
  constructor
  · rintro ⟨holds, before, after, same, others⟩
    refine ⟨before, after, same, holds, fun earlier isEarlier => ?_⟩
    simpa using others earlier isEarlier
  · rintro ⟨before, after, same, holds, others⟩
    refine ⟨holds, before, after, same, fun earlier isEarlier => ?_⟩
    simpa using others earlier isEarlier

namespace IsFirst

theorem holds (first : IsFirst property values value) : property value := by
  obtain ⟨_, _, -, holds, -⟩ := first
  exact holds

theorem mem (first : IsFirst property values value) : value ∈ values := by
  obtain ⟨before, after, rfl, -⟩ := first
  exact List.mem_append_right _ List.mem_cons_self

theorem unique (first : IsFirst property values value) (again : IsFirst property values next) :
    value = next := by
  classical
  have found {value : α} : IsFirst property values value ↔
      values.find? (fun value => decide (property value)) = some value := by
    simp only [find?_eq_some_iff_isFirst, decide_eq_true_eq]
  exact Option.some.inj ((found.mp first).symm.trans (found.mp again))

theorem of_iff (first : IsFirst property values value)
    (alike : ∀ value ∈ values, property value ↔ other value) : IsFirst other values value := by
  obtain ⟨before, after, rfl, holds, none⟩ := first
  refine ⟨before, after, rfl, (alike value (by simp)).mp holds, fun earlier isEarlier isOther => ?_⟩
  exact none earlier isEarlier ((alike earlier (List.mem_append_left _ isEarlier)).mpr isOther)

theorem strengthen (first : IsFirst other values value) (holds : property value)
    (weaker : ∀ value, property value → other value) : IsFirst property values value := by
  obtain ⟨before, after, same, -, none⟩ := first
  exact ⟨before, after, same, holds, fun earlier isEarlier isOwn =>
    none earlier isEarlier (weaker earlier isOwn)⟩

end IsFirst

theorem exists_isFirst_iff : (∃ value, IsFirst property values value) ↔
    ∃ value ∈ values, property value := by
  constructor
  · rintro ⟨value, first⟩
    exact ⟨value, first.mem, first.holds⟩
  · rintro ⟨value, isValue, holds⟩
    classical
    have isFound : (values.find? fun value => decide (property value)).isSome = true :=
      List.find?_isSome.mpr ⟨value, isValue, decide_eq_true holds⟩
    obtain ⟨found, same⟩ := Option.isSome_iff_exists.mp isFound
    rw [find?_eq_some_iff_isFirst] at same
    exact ⟨found, by simpa only [decide_eq_true_eq] using same⟩

/-- A value is the first of a list that has one property or, if none has it, the first that has another
one. -/
inductive IsPreferred (property other : α → Prop) (values : List α) (value : α) : Prop where
  | best (first : IsFirst property values value)
  | good (none : ∀ value ∈ values, ¬property value) (first : IsFirst other values value)

theorem orElse_find?_eq_some_iff {test retest : α → Bool} :
    (values.find? test <|> values.find? retest) = some value ↔
      IsPreferred (fun value => test value = true) (fun value => retest value = true) values value := by
  rw [Option.orElse_eq_orElse, Option.orElse_eq_or, Option.or_eq_some_iff, List.find?_eq_none,
    find?_eq_some_iff_isFirst, find?_eq_some_iff_isFirst]
  constructor
  · rintro (best | ⟨none, good⟩)
    · exact .best best
    · exact .good none good
  · rintro (best | ⟨none, good⟩)
    · exact .inl best
    · exact .inr ⟨none, good⟩

end First

/-! ## What a text is taken for -/

def bare (text : String) : String := String.ofList (Text.trim text.toList)

/-- Choices are looked for by their labels, and then by all their names ignoring case. -/
theorem EnumType.choose?_of_named {α : Type} {type : EnumType} {items : List α} {label : α → String}
    {names : α → List String} {choice : α → Value}
    (named : type.named = items.map fun item => (label item, names item, choice item))
    (text : String) : type.choose? text =
      (items.find? (label · == text) <|>
        items.find? fun item => (names item).any (folded · == folded text)).map choice := by
  simp only [choose?, named, List.find?_map, Function.comp_def]
  cases items.find? (label · == text) with
  | some item => rfl
  | none => simp [Option.map_map, Function.comp_def]

namespace EnumClass

variable {cls : EnumClass} {text : String} {entry : String × Value}

def ValueIs (text : String) (entry : String × Value) : Prop := entry.2.display = text

/-- The value of a member has a text, ignoring case. -/
def ValueIsLike (text : String) (entry : String × Value) : Prop :=
  folded entry.2.display = folded text

/-- The name of a member is a text, ignoring case. -/
def NameIsLike (text : String) (entry : String × Value) : Prop := folded entry.1 = folded text

/-- The value or the name of a member has a text, ignoring case. -/
def IsLike (text : String) (entry : String × Value) : Prop :=
  ValueIsLike text entry ∨ NameIsLike text entry

instance : Decidable (ValueIs text entry) := inferInstanceAs (Decidable (_ = _))

instance : Decidable (ValueIsLike text entry) := inferInstanceAs (Decidable (_ = _))

instance : Decidable (NameIsLike text entry) := inferInstanceAs (Decidable (_ = _))

instance : Decidable (IsLike text entry) := inferInstanceAs (Decidable (_ ∨ _))

theorem ValueIs.like (isValue : ValueIs text entry) : ValueIsLike text entry :=
  congrArg folded isValue

/-- A text is taken for a member: the first whose value has it or, if there is none, the first whose
value or name has it ignoring case. -/
def IsTaken (cls : EnumClass) (text : String) (entry : String × Value) : Prop :=
  IsPreferred (ValueIs text) (IsLike text) cls.members entry

/-- A text stands for a member if values go before names: the first whose value has it; if there is
none, the first whose value has it ignoring case; if there is none either, the first whose name is the
text ignoring case. -/
inductive StandsFor (cls : EnumClass) (text : String) (entry : String × Value) : Prop where
  | exactly (first : IsFirst (ValueIs text) cls.members entry)
  | byValue (none : ∀ other ∈ cls.members, ¬ValueIs text other)
      (first : IsFirst (ValueIsLike text) cls.members entry)
  | byName (none : ∀ other ∈ cls.members, ¬ValueIsLike text other)
      (first : IsFirst (NameIsLike text) cls.members entry)

/-- A text that is no value is the name of a member, ignoring case, but not its value, and before this
member there is none that the text is like. Still it is the value of another member, ignoring case. -/
structure NameGoesFirst (cls : EnumClass) (text : String) (named valued : String × Value) : Prop where
  none : ∀ other ∈ cls.members, ¬ValueIs text other
  first : IsFirst (IsLike text) cls.members named
  notValue : ¬ValueIsLike text named
  isMember : valued ∈ cls.members
  isValue : ValueIsLike text valued

theorem choose?_eq_some_iff {value : Value} : (EnumType.ofClass cls).choose? text = some value ↔
    ∃ entry, cls.IsTaken text entry ∧ value = cls.toValue entry := by
  have named : (EnumType.ofClass cls).named = cls.members.map fun entry =>
    (entry.2.display, [entry.2.display, entry.1], cls.toValue entry) := rfl
  simp only [EnumType.choose?_of_named named, Option.map_eq_some_iff, orElse_find?_eq_some_iff,
    beq_iff_eq, List.any_cons, List.any_nil, Bool.or_false, Bool.or_eq_true]
  exact exists_congr fun entry => and_congr_right fun _ => eq_comm

theorem choose?_eq_toValue_iff : (EnumType.ofClass cls).choose? text = some (cls.toValue entry) ↔
    cls.IsTaken text entry := by
  rw [choose?_eq_some_iff]
  constructor
  · rintro ⟨other, isTaken, same⟩
    rwa [toValue_inj same]
  · intro isTaken
    exact ⟨entry, isTaken, rfl⟩

theorem exists_isTaken_iff : (∃ entry, cls.IsTaken text entry) ↔
    ∃ entry ∈ cls.members, IsLike text entry := by
  constructor
  · rintro ⟨entry, first | ⟨-, first⟩⟩
    · exact ⟨entry, first.mem, .inl first.holds.like⟩
    · exact ⟨entry, first.mem, first.holds⟩
  · intro isLike
    by_cases isValue : ∃ entry ∈ cls.members, ValueIs text entry
    · obtain ⟨entry, first⟩ := exists_isFirst_iff.mpr isValue
      exact ⟨entry, .best first⟩
    · obtain ⟨entry, first⟩ := exists_isFirst_iff.mpr isLike
      exact ⟨entry, .good (fun other isMember same => isValue ⟨other, isMember, same⟩) first⟩

theorem exists_standsFor_iff : (∃ entry, cls.StandsFor text entry) ↔
    ∃ entry ∈ cls.members, IsLike text entry := by
  constructor
  · rintro ⟨entry, first | ⟨-, first⟩ | ⟨-, first⟩⟩
    · exact ⟨entry, first.mem, .inl first.holds.like⟩
    · exact ⟨entry, first.mem, .inl first.holds⟩
    · exact ⟨entry, first.mem, .inr first.holds⟩
  · rintro ⟨entry, isMember, isLike⟩
    by_cases isValue : ∃ entry ∈ cls.members, ValueIsLike text entry
    · by_cases isExact : ∃ entry ∈ cls.members, ValueIs text entry
      · obtain ⟨found, first⟩ := exists_isFirst_iff.mpr isExact
        exact ⟨found, .exactly first⟩
      · obtain ⟨found, first⟩ := exists_isFirst_iff.mpr isValue
        exact ⟨found, .byValue (fun other isOther same => isExact ⟨other, isOther, same⟩) first⟩
    · have notValue : ∀ other ∈ cls.members, ¬ValueIsLike text other :=
        fun other isOther same => isValue ⟨other, isOther, same⟩
      obtain ⟨found, first⟩ := exists_isFirst_iff.mpr
        ⟨entry, isMember, isLike.resolve_left (notValue entry isMember)⟩
      exact ⟨found, .byName notValue first⟩

/-- A text is taken for what it stands for, unless the name of one member goes before the value of
another. -/
theorem isTaken_of_standsFor_iff :
    (∀ entry, cls.StandsFor text entry → cls.IsTaken text entry) ↔
      ¬∃ named valued, cls.NameGoesFirst text named valued := by
  constructor
  · rintro taken ⟨named, valued, none, first, notValue, isMember, isValue⟩
    obtain ⟨entry, isEntry⟩ := exists_isFirst_iff.mpr ⟨valued, isMember, isValue⟩
    cases taken entry (.byValue none isEntry) with
    | best isExact => exact none entry isExact.mem isExact.holds
    | good _ again => exact notValue (first.unique again ▸ isEntry.holds)
  · rintro noName entry (first | ⟨none, first⟩ | ⟨none, first⟩)
    · exact .best first
    · have isLike : IsLike text entry := .inl first.holds
      obtain ⟨named, isNamed⟩ := exists_isFirst_iff.mpr ⟨entry, first.mem, isLike⟩
      -- The first member that the text is like has it as its value, or else its name goes first.
      by_cases isValue : ValueIsLike text named
      · have isOwn : IsFirst (ValueIsLike text) cls.members named :=
          isNamed.strengthen isValue fun _ => .inl
        rw [first.unique isOwn]
        exact .good none isNamed
      · exact absurd ⟨named, entry, none, isNamed, isValue, first.mem, first.holds⟩ noName
    · refine .good (fun other isMember isValue => none other isMember isValue.like) ?_
      refine first.of_iff fun other isMember => ⟨.inr, fun isLike => ?_⟩
      exact isLike.resolve_left (none other isMember)

end EnumClass

open EnumClass

variable {cls : EnumClass} {entry : String × Value} {text : String} {path : Path}

/-! ## Reading a text -/

def unnamed (type : EnumType) (value : Value) (text : String) (path : Path) : ReplyError :=
  ⟨path, type.kind, value, .noChoice (bare text) type.values⟩

theorem coerceEnum_of_tag {type : EnumType} {value : Value} (notChoice : type.has value = false)
    (isTag : EnumType.tagText? (memberValue value) = some text) (path : Path) :
    coerceEnum type value path = (type.choose? (bare text)).elim
      (.error (.reply (unnamed type (memberValue value) text path))) .ok := by
  simp only [coerceEnum, notChoice, isTag, ← bare.eq_1, Bool.false_eq_true, if_false]
  cases type.choose? (bare text) <;> rfl

theorem coerceEnum_tag_eq_ok_iff {type : EnumType} {value result : Value}
    (notChoice : type.has value = false)
    (isTag : EnumType.tagText? (memberValue value) = some text) :
    coerceEnum type value path = .ok result ↔ type.choose? (bare text) = some result := by
  rw [coerceEnum_of_tag notChoice isTag]
  cases type.choose? (bare text) <;> simp

theorem coerceEnum_text_eq_ok_iff {value : Value} :
    coerceEnum (.ofClass cls) (.str text) path = .ok value ↔
      ∃ entry, cls.IsTaken (bare text) entry ∧ value = cls.toValue entry := by
  rw [coerceEnum_tag_eq_ok_iff rfl rfl, choose?_eq_some_iff]

theorem coerceEnum_text_eq_toValue_iff :
    coerceEnum (.ofClass cls) (.str text) path = .ok (cls.toValue entry) ↔
      cls.IsTaken (bare text) entry := by
  rw [coerceEnum_tag_eq_ok_iff rfl rfl, choose?_eq_toValue_iff]

theorem coerceEnum_text_eq_error_iff :
    coerceEnum (.ofClass cls) (.str text) path =
        .error (.reply (unnamed (.ofClass cls) (.str text) text path)) ↔
      ¬∃ entry, cls.IsTaken (bare text) entry := by
  rw [coerceEnum_of_tag rfl rfl]
  cases chosen : (EnumType.ofClass cls).choose? (bare text) with
  | none =>
      refine iff_of_true rfl ?_
      rintro ⟨entry, isTaken⟩
      cases chosen.symm.trans (choose?_eq_some_iff.mpr ⟨entry, isTaken, rfl⟩)
  | some value =>
      obtain ⟨entry, isTaken, -⟩ := choose?_eq_some_iff.mp chosen
      exact iff_of_false nofun (not_not_intro ⟨entry, isTaken⟩)

/-- A text is read as the member that it is taken for, without the blanks around it, and is refused, as a
value of the wrong type, exactly if it stands for none. It is read as the member that it stands for
unless the name of a member, ignoring case, goes before the value of another one. -/
theorem text_read_as_member_iff (cls : EnumClass) (text : String) (path : Path) :
    (∀ value, coerceEnum (.ofClass cls) (.str text) path = .ok value ↔
      ∃ entry, cls.IsTaken (bare text) entry ∧ value = cls.toValue entry) ∧
    (coerceEnum (.ofClass cls) (.str text) path =
        .error (.reply (unnamed (.ofClass cls) (.str text) text path)) ↔
      ¬∃ entry, cls.StandsFor (bare text) entry) ∧
    (unnamed (.ofClass cls) (.str text) text path).isMismatch = true ∧
    ((∀ entry, cls.StandsFor (bare text) entry →
        coerceEnum (.ofClass cls) (.str text) path = .ok (cls.toValue entry)) ↔
      ¬∃ named valued, cls.NameGoesFirst (bare text) named valued) := by
  refine ⟨fun value => coerceEnum_text_eq_ok_iff, ?_, rfl, ?_⟩
  · rw [coerceEnum_text_eq_error_iff, exists_isTaken_iff, exists_standsFor_iff]
  · simp only [coerceEnum_text_eq_toValue_iff]
    exact isTaken_of_standsFor_iff

/-- Actions of which each has the name of the other one as its value. -/
def actions : EnumClass :=
  ⟨⟨0, "Action", none⟩, [("QUERY", .str "search"), ("SEARCH", .str "query")]⟩

/-- A text that stands for an action by its value is read as the one before it, which it names. -/
theorem query_read_by_name :
    actions.StandsFor "Query" ("SEARCH", .str "query") ∧
      coerceEnum (.ofClass actions) (.str "Query") [] =
        .ok (actions.toValue ("QUERY", .str "search")) ∧
      actions.toValue ("QUERY", .str "search") ≠ actions.toValue ("SEARCH", .str "query") := by
  refine ⟨.byValue ?_ ⟨[("QUERY", .str "search")], [], rfl, by decide, ?_⟩, rfl, ?_⟩
  · decide
  · decide
  · intro same
    exact absurd (congrArg Prod.fst (toValue_inj same)) (by decide)

/-! ## Reading the value of a member -/

/-- A text or an integer. -/
inductive Value.IsTag : Value → Prop where
  | text (text : String) : IsTag (.str text)
  | integer (n : Int) : IsTag (.int n)

namespace Value

theorem bare_intText (n : Int) : bare (intText n) = intText n := by
  have trimmed : Text.trim (intText n).toList = (intText n).toList := by
    refine Text.trim_eq_self fun c written => ?_
    rw [intText, String.toList_ofList, List.mem_append] at written
    rcases written with isSign | isDigit
    · split at isSign
      · rw [List.mem_singleton.mp isSign]
        decide
      · cases isSign
    · exact Text.isBlank_of_isDigit (isDigit_of_mem_decimalDigits isDigit)
  rw [bare, trimmed, String.ofList_toList]

namespace IsTag

variable {value other : Value}

theorem tagText?_eq (isTag : value.IsTag) :
    EnumType.tagText? (memberValue value) = some value.display := by
  cases isTag <;> rfl

theorem has_eq_false (isTag : value.IsTag) (cls : EnumClass) :
    (EnumType.ofClass cls).has value = false := by
  cases isTag <;> rfl

theorem same_of_display (isTag : value.IsTag) (sameType : other.sameType value = true)
    (written : other.display = value.display) : other.same value = true := by
  cases isTag with
  | text text =>
      cases other with
      | str otherText =>
          obtain rfl : otherText = text := written
          simp [same, sameScalar, number?, integer?, text?]
      | _ => cases sameType
  | integer n =>
      cases other with
      | int m =>
          obtain rfl : m = n := intText_inj.mp written
          simp [same, sameScalar, number?, integer?, Number.same]
      | _ => cases sameType

end IsTag

end Value

namespace EnumClass

theorem map_members (cls : EnumClass) :
    cls.members.map Prod.snd = Value.distinct (cls.declared.map Prod.snd) := by
  have after (kept declared : List (String × Value)) :
      (declared.foldl (fun kept entry =>
          if kept.any (·.2.same entry.2) then kept else kept ++ [entry]) kept).map Prod.snd =
        (declared.map Prod.snd).foldl (keepBy Value.same) (kept.map Prod.snd) := by
    induction declared generalizing kept with
    | nil => rfl
    | cons entry declared ih =>
        rw [List.foldl_cons, ih, List.map_cons, List.foldl_cons, keepBy, List.any_map,
          apply_ite (List.map Prod.snd), List.map_append]
        rfl
  exact after [] cls.declared

theorem apart_members (cls : EnumClass) : Value.Apart (cls.members.map Prod.snd) := by
  rw [map_members]
  exact Value.apart_distinct _

/-- The text of a member's value is taken for the member: it has no blanks around it and no earlier
member's value has it; or else it is no value without these blanks, and the member is the first whose
value or name it is ignoring case. -/
inductive KeepsText (cls : EnumClass) (entry : String × Value) : Prop where
  | trimmed (noBlanks : bare entry.2.display = entry.2.display)
      (first : IsFirst (ValueIs entry.2.display) cls.members entry)
  | padded (blanks : bare entry.2.display ≠ entry.2.display)
      (none : ∀ other ∈ cls.members, ¬ValueIs (bare entry.2.display) other)
      (first : IsFirst (IsLike (bare entry.2.display)) cls.members entry)

theorem isTaken_bare_iff (isMember : entry ∈ cls.members) :
    cls.IsTaken (bare entry.2.display) entry ↔ cls.KeepsText entry := by
  constructor
  · rintro (first | ⟨none, first⟩)
    · have noBlanks : bare entry.2.display = entry.2.display := first.holds.symm
      rw [noBlanks] at first
      exact .trimmed noBlanks first
    · exact .padded (fun noBlanks => none entry isMember noBlanks.symm) none first
  · rintro (⟨noBlanks, first⟩ | ⟨-, none, first⟩)
    · rw [noBlanks]
      exact .best first
    · exact .good none first

/-- Where the values of all members have one type, a member keeps its text if this has no blanks around
it. -/
theorem keepsText_of_sameType (isMember : entry ∈ cls.members) (isTag : entry.2.IsTag)
    (sameType : ∀ other ∈ cls.members, other.2.sameType entry.2 = true)
    (noBlanks : bare entry.2.display = entry.2.display) : cls.KeepsText entry := by
  have apart := cls.apart_members
  obtain ⟨before, after, members⟩ := List.append_of_mem isMember
  rw [members, Value.Apart, ApartBy, List.map_append, List.pairwise_append] at apart
  refine .trimmed noBlanks ⟨before, after, members, rfl, fun earlier isEarlier written => ?_⟩
  have isOther : earlier ∈ cls.members := members ▸ List.mem_append_left _ isEarlier
  have differs := apart.2.2 _ (List.mem_map_of_mem isEarlier) entry.2 (by simp)
  rw [isTag.same_of_display (sameType earlier isOther) written] at differs
  cases differs

end EnumClass

/-- The plain form of a member with a text or an integer is this value. It is read as the member again
exactly if the member keeps its text. So it is in a class of texts if there are no blanks around the
member's own, and in a class of integers always. -/
theorem member_read_back_iff (isMember : entry ∈ cls.members) (isTag : entry.2.IsTag) (path : Path) :
    Plain.plain (cls.toValue entry) = .ok entry.2 ∧
    (coerceEnum (.ofClass cls) entry.2 path = .ok (cls.toValue entry) ↔ cls.KeepsText entry) ∧
    ((∀ other ∈ cls.members, other.2.sameType entry.2 = true) →
      (∀ text, entry.2 = .str text → bare text = text) →
        coerceEnum (.ofClass cls) entry.2 path = .ok (cls.toValue entry)) := by
  have readBack : coerceEnum (.ofClass cls) entry.2 path = .ok (cls.toValue entry) ↔
      cls.KeepsText entry := by
    rw [coerceEnum_tag_eq_ok_iff (isTag.has_eq_false cls) isTag.tagText?_eq,
      choose?_eq_toValue_iff, isTaken_bare_iff isMember]
  refine ⟨rfl, readBack, fun sameType noBlanks => readBack.mpr ?_⟩
  refine keepsText_of_sameType isMember isTag sameType ?_
  cases written : entry.2 with
  | str text => exact noBlanks text written
  | int n => exact Value.bare_intText n
  | _ =>
      rw [written] at isTag
      cases isTag

def letters : EnumClass := ⟨⟨0, "Letter", none⟩, [("B", .str " a "), ("A", .str " A ")]⟩

/-- A value with blanks around it is read as its member where these blanks leave the member's name. -/
theorem padded_value_read_back :
    (("A", .str " A ") ∈ letters.members ∧ (Value.str " A ").IsTag) ∧
      coerceEnum (.ofClass letters) (.str " A ") [] = .ok (letters.toValue ("A", .str " A ")) := by
  have members : letters.members = [("B", .str " a ")] ++ ("A", .str " A ") :: [] := rfl
  have isMember : ("A", .str " A ") ∈ letters.members := by
    rw [members]
    exact List.mem_append_right _ List.mem_cons_self
  refine ⟨⟨isMember, .text " A "⟩, (member_read_back_iff isMember (.text " A ") []).2.1.mpr ?_⟩
  refine .padded (by decide) (by decide) ⟨_, _, members, .inr ?_, by decide⟩
  decide

/-- Numbers, the second of which is written as a text. -/
def numerals : EnumClass := ⟨⟨0, "Numeral", none⟩, [("ONE", .int 1), ("TEXT", .str "1")]⟩

/-- A value with blanks around it is read as a member that is named by what the blanks leave, and a text
is read as the member before it that has an integer with this text. -/
theorem values_misread :
    Plain.plain (letters.toValue ("B", .str " a ")) = .ok (.str " a ") ∧
      coerceEnum (.ofClass letters) (.str " a ") [] = .ok (letters.toValue ("A", .str " A ")) ∧
      letters.toValue ("A", .str " A ") ≠ letters.toValue ("B", .str " a ") ∧
    Plain.plain (numerals.toValue ("TEXT", .str "1")) = .ok (.str "1") ∧
      coerceEnum (.ofClass numerals) (.str "1") [] = .ok (numerals.toValue ("ONE", .int 1)) ∧
      numerals.toValue ("ONE", .int 1) ≠ numerals.toValue ("TEXT", .str "1") := by
  refine ⟨rfl, rfl, fun same => ?_, rfl, rfl, fun same => ?_⟩
  · exact absurd (congrArg Prod.fst (toValue_inj same)) (by decide)
  · exact absurd (congrArg Prod.fst (toValue_inj same)) (by decide)

end TypedReply
