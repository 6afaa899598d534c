import TypedReply.Proofs.Reply.Containment
import TypedReply.Proofs.Reply.Results
import TypedReply.Reference.Library

/-!
# Unions and what their members accept

A value that is no object is tried against the members of a union one after another, and a member
that refuses it is passed over, so the union should accept whatever a member accepts. But the first
member that has the shape of the value is not tried but chosen, and what it refuses the union refuses.
As a list has the shape of every list descriptor, whatever its items are, the two come apart exactly
where the first list descriptor among the members refuses an item.
-/

namespace TypedReply

open Read Descriptor

variable {registry : Registry} {members : List Descriptor} {raw : Value}

/-- A union settles a value: if a member that is neither a record nor a map accepts it, the value is
read as by a member that does, and else it is kept as it is. -/
structure Settles (registry : Registry) (members : List Descriptor) (raw : Value) : Prop where
  accepted : ∀ member ∈ nonNull members, isTried member = true →
    (∃ value, read registry raw member = .ok value) →
      ∃ other ∈ nonNull members, isTried other = true ∧ ∃ value,
        read registry raw other = .ok value ∧ read registry raw (.union members) = .ok value
  kept : (∀ member ∈ nonNull members, isTried member = true →
    ∀ value, read registry raw member ≠ .ok value) → read registry raw (.union members) = .ok raw

/-- The first member that has the shape of a value accepts the items, if it is one of lists. -/
def AcceptsItems (registry : Registry) (members : List Descriptor) (raw : Value) : Prop :=
  ∀ member element items, (nonNull members).find? (exactMatch raw) = some member →
    member.core = .array element → raw.items? = some items →
      ∀ item ∈ items, ∃ value, read registry item element = .ok value

theorem isTried_of_exactMatch {member : Descriptor} (shaped : exactMatch raw member = true) :
    isTried member = true := by
  cases member <;> first | rfl | cases shaped

/-- A value that a member reads as the union does is settled. -/
theorem Settles.of_member {member : Descriptor} (isMember : member ∈ nonNull members)
    (isTried : isTried member = true) {value : Value} (isRead : read registry raw member = .ok value)
    (same : read registry raw (.union members) = .ok value) : Settles registry members raw where
  accepted _ _ _ _ := ⟨member, isMember, isTried, value, isRead, same⟩
  kept none := absurd isRead (none member isMember isTried value)

theorem not_settles_of_error {failure : Failure}
    (refused : read registry raw (.union members) = .error failure) :
    ¬Settles registry members raw := by
  intro settles
  by_cases accepted : ∃ member ∈ nonNull members, isTried member = true ∧
      ∃ value, read registry raw member = .ok value
  · obtain ⟨member, isMember, isTried, isAccepted⟩ := accepted
    obtain ⟨_, _, _, _, _, isRead⟩ := settles.accepted member isMember isTried isAccepted
    cases refused.symm.trans isRead
  · have none (member) (isMember : member ∈ nonNull members) (isTried : isTried member = true)
        (value) : read registry raw member ≠ .ok value :=
      fun isRead => accepted ⟨member, isMember, isTried, value, isRead⟩
    cases refused.symm.trans (settles.kept none)

theorem settles_null (nilable : nilable members = true) : Settles registry members .null where
  accepted member isMember isTried := by
    rintro ⟨value, isRead⟩
    obtain rfl := eq_null_of_read isRead
    exact ⟨member, isMember, isTried, .null, isRead, readAt_union_null nilable []⟩
  kept _ := readAt_union_null nilable []

theorem firstAccepted_ne_error (raw : Value) (path : Path) (candidates : List Candidate)
    (error : ReplyError) : firstAccepted raw path candidates ≠ .error (.reply error) := by
  induction candidates with
  | nil => exact fun same => nomatch same
  | cons candidate candidates ih =>
      unfold firstAccepted
      split
      · exact ih
      next notRefused => exact notRefused error

theorem settles_of_shapeless (plain : raw.isObject = false)
    (present : (raw.isNull && nilable members) = false)
    (shapeless : (nonNull members).find? (exactMatch raw) = none)
    (orderly : (read registry raw (.union members)).IsOrderly) : Settles registry members raw := by
  have isTriedRead := @readAt_union_plain registry members raw plain present []
  rw [shapeless] at isTriedRead
  rcases orderly with ⟨value, isRead⟩ | ⟨error, refused⟩
  · rcases firstAccepted_cases (isTriedRead.symm.trans isRead) with
      ⟨candidate, isCandidate, isOwn⟩ | ⟨rfl, refused⟩
    · obtain ⟨member, isMember, rfl⟩ := List.mem_map.mp isCandidate
      obtain ⟨isMember, isTried⟩ := List.mem_filter.mp isMember
      exact .of_member isMember isTried isOwn isRead
    · refine ⟨fun member isMember isTried => ?_, fun _ => isRead⟩
      rintro ⟨other, isOther⟩
      obtain ⟨error, isRefused⟩ := refused ⟨member, readAt registry value member⟩
        (List.mem_map_of_mem (List.mem_filter.mpr ⟨isMember, isTried⟩))
      cases isOther.symm.trans isRefused
  · exact absurd (isTriedRead.symm.trans refused) (firstAccepted_ne_error _ _ _ _)

theorem exists_read_iff_of_core {member element : Descriptor} {items : List Value}
    (isCore : member.core = .array element) (isList : raw.items? = some items) :
    (∃ value, read registry raw member = .ok value) ↔
      ∀ item ∈ items, ∃ value, read registry item element = .ok value := by
  have present : raw.isNull = false := by cases raw <;> first | rfl | cases isList
  have plain : raw.isObject = false := by cases raw <;> first | rfl | cases isList
  rw [read, readAt_core present plain, isCore, ← read]
  simp only [read_array_eq_ok_iff, isList, Option.some.injEq]
  constructor
  · rintro ⟨_, _, results, rfl, rfl, each⟩ item isItem
    obtain ⟨result, -, isRead⟩ := exists_right_of_mem each isItem
    exact ⟨result, isRead⟩
  · intro each
    obtain ⟨results, areRead⟩ := exists_aligned each
    exact ⟨.list results, items, results, rfl, rfl, areRead⟩

/-- A union settles a value that is no object, if reading it escapes with no fault, exactly where the
first member that has the shape of the value accepts the items, if it is one of lists; else the union
refuses the value. -/
theorem union_settles_iff (plain : raw.isObject = false)
    (orderly : (read registry raw (.union members)).IsOrderly) :
    (Settles registry members raw ↔ AcceptsItems registry members raw) ∧
      (¬AcceptsItems registry members raw →
        ∃ error, read registry raw (.union members) = .error (.reply error)) := by
  cases present : raw.isNull && nilable members with
  | true =>
      obtain ⟨isNull, isNilable⟩ := (Bool.and_eq_true _ _).mp present
      obtain rfl := Value.isNull_iff.mp isNull
      have accepts : AcceptsItems registry members .null := fun _ _ _ _ _ isList => nomatch isList
      exact ⟨⟨fun _ => accepts, fun _ => settles_null isNilable⟩, fun refuses => absurd accepts refuses⟩
  | false =>
      cases found : (nonNull members).find? (exactMatch raw) with
      | none =>
          have accepts : AcceptsItems registry members raw := fun _ _ _ isFound => by
            cases found.symm.trans isFound
          exact ⟨⟨fun _ => accepts, fun _ => settles_of_shapeless plain present found orderly⟩,
            fun refuses => absurd accepts refuses⟩
      | some member =>
          have isMember := List.mem_of_find?_eq_some found
          have shaped : exactMatch raw member = true := List.find?_some found
          have isTried := isTried_of_exactMatch shaped
          have same : read registry raw (.union members) = read registry raw member := by
            rw [read, readAt_union_plain plain present, found, read]
          -- The union accepts the value where the chosen member does, which the items decide.
          have accepts : AcceptsItems registry members raw ↔
              ∃ value, read registry raw member = .ok value := by
            constructor
            · intro accepts
              rcases @readAt_of_exactMatch registry raw member shaped [] with
                isRead | ⟨element, items, isCore, isList⟩
              · exact ⟨raw, isRead⟩
              · exact (exists_read_iff_of_core isCore isList).mpr
                  (accepts member element items found isCore isList)
            · intro isAccepted other element items isFound isCore isList
              obtain rfl := Option.some.inj (found.symm.trans isFound)
              exact (exists_read_iff_of_core isCore isList).mp isAccepted
          have refused (refuses : ¬AcceptsItems registry members raw) :
              ∃ error, read registry raw (.union members) = .error (.reply error) := by
            rcases orderly with ⟨value, isRead⟩ | isRefused
            · exact absurd (accepts.mpr ⟨value, same ▸ isRead⟩) refuses
            · exact isRefused
          refine ⟨⟨fun settles => ?_, fun isAccepted => ?_⟩, refused⟩
          · by_contra refuses
            obtain ⟨error, isRefused⟩ := refused refuses
            exact not_settles_of_error isRefused settles
          · obtain ⟨value, isRead⟩ := accepts.mp isAccepted
            exact .of_member isMember isTried isRead (same.trans isRead)

def countsOrText : List Descriptor := [.array (.scalar .int), .scalar .string]

/-- A list of integers, one of them in a text, is settled by a union that has lists of integers first. -/
theorem counts_settled :
    let raw : Value := .list [.str "1", .int 2]
    raw.isObject = false ∧ (read Registry.empty raw (.union countsOrText)).IsOrderly ∧
      Settles Registry.empty countsOrText raw ∧
        read Registry.empty raw (.union countsOrText) = .ok (.list [.int 1, .int 2]) := by
  have isRead : read Registry.empty (.list [.str "1", .int 2]) (.union countsOrText) =
      .ok (.list [.int 1, .int 2]) := rfl
  have orderly : (read Registry.empty (.list [.str "1", .int 2]) (.union countsOrText)).IsOrderly :=
    .inl ⟨_, isRead⟩
  have accepts : AcceptsItems Registry.empty countsOrText (.list [.str "1", .int 2]) := by
    rintro member element items ⟨⟩ ⟨⟩ ⟨⟩
    simp only [List.forall_mem_cons]
    exact ⟨⟨.int 1, rfl⟩, ⟨.int 2, rfl⟩, List.forall_mem_nil _⟩
  exact ⟨rfl, orderly, (union_settles_iff rfl orderly).1.mpr accepts, isRead⟩

/-- A list of a text is refused by a union of lists of integers and lists of texts, though the second
member accepts it, and by one of lists of integers and texts, which no member accepts. -/
theorem words_refused :
    let raw : Value := .list [.str "x"]
    let lists : List Descriptor := [.array (.scalar .int), .array (.scalar .string)]
    raw.isObject = false ∧ read Registry.empty raw (.array (.scalar .string)) = .ok raw ∧
      (∃ error, read Registry.empty raw (.union lists) = .error (.reply error)) ∧
      ¬Settles Registry.empty lists raw ∧
      (∃ error, read Registry.empty raw (.union countsOrText) = .error (.reply error)) ∧
      ¬Settles Registry.empty countsOrText raw :=
  ⟨rfl, rfl, ⟨_, rfl⟩, not_settles_of_error rfl, ⟨_, rfl⟩, not_settles_of_error rfl⟩

end TypedReply
