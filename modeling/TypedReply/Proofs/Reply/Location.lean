import TypedReply.Proofs.Descriptor.Reach
import TypedReply.Proofs.Reply.Reading

/-!
# Where a value stands

What is read of a value does not depend on where it stands: at the end of a longer path the same is
read, and reply errors are the same but for their paths, which start with what the path was made
longer by.
-/

namespace TypedReply

namespace Outcome

variable {α β : Type}

/-- An outcome at the end of a longer path: reply errors start with what the path starts with. -/
def under (front : Path) : Outcome α → Outcome α
  | .error (.reply error) => .error (.reply { error with path := front ++ error.path })
  | outcome => outcome

@[simp]
theorem under_ok (front : Path) (value : α) :
    under front (.ok value : Outcome α) = .ok value := rfl

@[simp]
theorem under_fault (front : Path) (fault : Fault) :
    under front (.fault fault : Outcome α) = .fault fault := rfl

@[simp]
theorem under_fail (front path : Path) (expected : String) (received : Value) (cause : Cause) :
    under front (Read.fail path expected received cause : Outcome α) =
      Read.fail (front ++ path) expected received cause := rfl

theorem exists_error_of_under {front : Path} {outcome : Outcome α} {error : ReplyError}
    (refused : under front outcome = .error (.reply error)) :
    ∃ inner, outcome = .error (.reply inner) := by
  rcases outcome with (inner | inner | fault) | value
  · exact ⟨inner, rfl⟩
  all_goals cases refused

theorem under_bind (front : Path) (outcome : Outcome α) (next : α → Outcome β) :
    under front (outcome >>= next) = under front outcome >>= fun value => under front (next value) := by
  rcases outcome with (error | error | fault) | value <;> rfl

theorem under_map (front : Path) (image : α → β) (outcome : Outcome α) :
    under front (outcome.map image) = (under front outcome).map image := by
  rcases outcome with (error | error | fault) | value <;> rfl

theorem under_mapM (front : Path) (operation : α → Outcome β) (values : List α) :
    under front (values.mapM operation) = values.mapM fun value => under front (operation value) := by
  induction values with
  | nil => rfl
  | cons value rest ih =>
      simp only [List.mapM_cons, under_bind, ih]
      rfl

end Outcome

open Outcome

namespace Read

/-- A reader reads the same at the end of a longer path. -/
def Movable (reader : Reader) : Prop :=
  ∀ descriptor front path, reader descriptor (front ++ path) = under front (reader descriptor path)

theorem coerceScalar_append (kind : ScalarKind) (raw : Value) (front path : Path) :
    coerceScalar kind raw (front ++ path) = under front (coerceScalar kind raw path) := by
  unfold coerceScalar
  split
  · rfl
  split
  · rfl
  split <;> rfl

theorem coerceEnum_append (type : EnumType) (raw : Value) (front path : Path) :
    coerceEnum type raw (front ++ path) = under front (coerceEnum type raw path) := by
  unfold coerceEnum
  split
  · rfl
  dsimp only
  split
  · rfl
  split <;> rfl

theorem readItems_append (element : Descriptor) (front path : Path) (position : Nat)
    {items : List (Part Reader)} (movable : ∀ item ∈ items, Movable item.result) :
    readItems element (front ++ path) position items =
      under front (readItems element path position items) := by
  induction items generalizing position with
  | nil => rfl
  | cons item items ih =>
      have first := movable item List.mem_cons_self
      have rest := ih (position + 1) fun other isOther => movable other (List.mem_cons_of_mem _ isOther)
      simp only [readItems, List.append_assoc, first element, rest, under_bind, under_ok]

theorem readEntry_append (key value : Descriptor) (front path : Path)
    {entry : Part Reader × Part Reader} (movableKey : Movable entry.1.result)
    (movableValue : Movable entry.2.result) :
    readEntry key value (front ++ path) entry = under front (readEntry key value path entry) := by
  simp only [readEntry, List.append_assoc, movableKey _, movableValue _, under_bind]
  congr 1
  funext newKey
  congr 1
  funext newValue
  split <;> rfl

theorem presentField_append (found : List Discrimination) (entries : Value.Entries) (field : Field)
    (front path : Path) {part : Part Reader} (movable : Movable part.result) :
    presentField found entries field part (front ++ path) =
      under front (presentField found entries field part path) := by
  unfold presentField
  split
  · rfl
  split <;> exact movable _ _ _

theorem absentField_append (store : Store) (field : Field) (front path : Path) :
    absentField store field (front ++ path) = under front (absentField store field path) := by
  unfold absentField
  split <;> rfl

theorem fieldValues_append (store : Store) (entries : Value.Entries) {parts : Parts Reader}
    (movable : ∀ name part, parts.get? name = some part → Movable part.result)
    (fields : List Field) (front path : Path) :
    fieldValues store entries parts fields (front ++ path) =
      under front (fieldValues store entries parts fields path) := by
  simp only [fieldValues, under_mapM]
  congr 1
  funext field
  cases found : parts.get? field.name with
  | some part =>
      simp only [List.append_assoc, presentField_append _ _ _ _ _ (movable _ part found), under_bind,
        under_ok]
  | none => simp only [List.append_assoc, absentField_append, under_bind, under_ok]

theorem instantiate_append (registry : Registry) (record : RecordView) (values : Value)
    (front path : Path) : instantiate registry record values (front ++ path) =
      under front (instantiate registry record values path) := by
  unfold instantiate
  split
  · rfl
  split
  · rfl
  next rejection _ =>
    cases rejection <;> simp [constructionFailure, List.append_assoc]

variable {registry : Registry} {raw : Value} {parts : Parts Reader}

theorem readRecord_append
    (movable : ∀ name part, parts.get? name = some part → Movable part.result)
    (record : RecordView) (front path : Path) :
    readRecord registry raw parts record (front ++ path) =
      under front (readRecord registry raw parts record path) := by
  unfold readRecord
  split
  · rfl
  split
  · rfl
  · rw [under_bind, fieldValues_append _ _ movable]
    congr 1
    funext values
    exact instantiate_append _ _ _ _ _

theorem readTagged_append
    (movable : ∀ name part, parts.get? name = some part → Movable part.result) (tag : Value)
    (records : List (String × RecordView)) (front path : Path) :
    readTagged registry raw parts tag records (front ++ path) =
      under front (readTagged registry raw parts tag records path) := by
  unfold readTagged
  split
  · exact readRecord_append movable _ _ _
  · simp [List.append_assoc]

theorem firstAccepted_append (raw : Value) (front path : Path) {candidates : List Candidate}
    (movable : ∀ candidate ∈ candidates,
      candidate.read (front ++ path) = under front (candidate.read path)) :
    firstAccepted raw (front ++ path) candidates =
      under front (firstAccepted raw path candidates) := by
  induction candidates with
  | nil => rfl
  | cons candidate candidates ih =>
      have first := movable candidate List.mem_cons_self
      have rest := ih fun other isOther => movable other (List.mem_cons_of_mem _ isOther)
      simp only [firstAccepted, first]
      rcases candidate.read path with (error | error | fault) | value
      · exact rest
      all_goals rfl

theorem readPlain_append {candidates : List Candidate} (front path : Path)
    (movable : ∀ candidate ∈ candidates,
      candidate.read (front ++ path) = under front (candidate.read path)) :
    readPlain raw candidates (front ++ path) = under front (readPlain raw candidates path) := by
  unfold readPlain
  split
  next found => exact movable _ (List.mem_of_find?_eq_some found)
  next => exact firstAccepted_append _ _ _ fun candidate isKept =>
    movable candidate (List.mem_of_mem_filter isKept)

theorem readUntagged_append {entries : Value.Entries} {candidates : List Candidate}
    (front path : Path)
    (movableParts : ∀ name part, parts.get? name = some part → Movable part.result)
    (movable : ∀ candidate ∈ candidates,
      candidate.read (front ++ path) = under front (candidate.read path)) :
    readUntagged registry raw entries parts candidates (front ++ path) =
      under front (readUntagged registry raw entries parts candidates path) := by
  unfold readUntagged
  dsimp only
  split
  · exact readRecord_append movableParts _ _ _
  next found => exact movable _ (List.mem_of_find?_eq_some found)
  · rfl

theorem readUnion_append {members : List Descriptor} {candidates : List Candidate}
    (front path : Path)
    (movableParts : ∀ name part, parts.get? name = some part → Movable part.result)
    (movable : ∀ candidate ∈ candidates,
      candidate.read (front ++ path) = under front (candidate.read path)) :
    readUnion registry raw parts members candidates (front ++ path) =
      under front (readUnion registry raw parts members candidates path) := by
  have untagged (entries) := @readUntagged_append registry raw parts entries candidates front path
    movableParts movable
  unfold readUnion
  split
  · rfl
  split
  · exact readPlain_append _ _ movable
  dsimp only
  split
  · split
    · exact untagged _
    · exact readTagged_append movableParts _ _ _ _
  · exact untagged _

/-- The candidates of a union are its members other than null, with the reply read against each. -/
theorem candidates_eq (registry : Registry) (raw : Value) (parts : Parts Reader)
    (members : List Descriptor) : candidates registry raw parts members =
      (Descriptor.nonNull members).map fun member => ⟨member, read registry raw parts member⟩ := by
  induction members with
  | nil => simp [candidates, Descriptor.nonNull]
  | cons member members ih =>
      simp only [Descriptor.nonNull] at ih ⊢
      cases isNull : member.isNull <;> simp [candidates, isNull, ih]

theorem movable_read
    (movableItems : ∀ item ∈ parts.items, Movable item.result)
    (movableEntries : ∀ entry ∈ parts.entries, Movable entry.1.result ∧ Movable entry.2.result) :
    Movable (read registry raw parts) := by
  have movableParts (name) (part) (found : parts.get? name = some part) : Movable part.result := by
    obtain ⟨entry, isEntry, rfl⟩ := Option.map_eq_some_iff.mp found
    exact (movableEntries entry (List.mem_of_find?_eq_some isEntry)).2
  intro descriptor front path
  induction descriptor using Descriptor.induction with
  | scalar kind =>
      simp only [read]
      exact coerceScalar_append kind raw front path
  | enum type =>
      simp only [read]
      exact coerceEnum_append type raw front path
  | array element =>
      simp only [read]
      split
      · rw [readItems_append _ _ _ _ movableItems, under_map]
      · rfl
  | map key value =>
      simp only [read]
      split
      · have entries : parts.entries.mapM (readEntry key value (front ++ path)) =
            under front (parts.entries.mapM (readEntry key value path)) := by
          rw [under_mapM]
          exact mapM_congr fun entry isEntry => readEntry_append key value front path
            (movableEntries entry isEntry).1 (movableEntries entry isEntry).2
        rw [entries, under_map]
      · rfl
  | optional inner ih =>
      simp only [read]
      split
      · rfl
      split
      · exact readTagged_append movableParts _ _ _ _
      · exact ih
  | union members ih =>
      simp only [read]
      refine readUnion_append _ _ movableParts fun candidate isCandidate => ?_
      rw [candidates_eq] at isCandidate
      obtain ⟨member, isMember, rfl⟩ := List.mem_map.mp isCandidate
      exact ih member (List.mem_of_mem_filter isMember)
  | null =>
      simp only [read]
      split <;> rfl
  | fixed record =>
      simp only [read]
      exact readRecord_append movableParts _ _ _
  | struct id =>
      simp only [read]
      exact readRecord_append movableParts _ _ _
  | stray value =>
      simp only [read]
      rfl

end Read

/-- At the end of a longer path the same is read, and reply errors start with what the path was made
longer by. -/
theorem readAt_append (registry : Registry) (value : Value) (descriptor : Descriptor)
    (front path : Path) : readAt registry value descriptor (front ++ path) =
      under front (readAt registry value descriptor path) := by
  induction value using Value.induction_parts generalizing descriptor front path with
  | step value items entries =>
      have movable : Read.Movable (Read.read registry value (value.parts (Read.read registry))) := by
        refine Read.movable_read ?_ ?_
        · intro item isItem
          rw [Value.parts_items] at isItem
          obtain ⟨part, isPart, rfl⟩ := List.mem_map.mp isItem
          exact items part isPart
        · intro entry isEntry
          obtain ⟨found, key, part, isObject, isPair, rfl⟩ :=
            Value.exists_entry_of_mem_parts _ isEntry
          exact entries found isObject _ isPair
      rw [readAt_eq, readAt_eq]
      exact movable descriptor front path

/-- What a value is read as does not depend on where it stands. -/
theorem readAt_eq_ok_iff {registry : Registry} {value result : Value} {descriptor : Descriptor}
    {path : Path} :
    readAt registry value descriptor path = .ok result ↔ read registry value descriptor =
      .ok result := by
  have moved := readAt_append registry value descriptor path []
  rw [List.append_nil] at moved
  rw [moved, read]
  rcases readAt registry value descriptor [] with (error | error | fault) | found <;>
    simp [under]

/-- What is refused somewhere is refused everywhere. -/
theorem exists_error_of_readAt {registry : Registry} {value : Value} {descriptor : Descriptor}
    {path : Path} {error : ReplyError}
    (refused : readAt registry value descriptor path = .error (.reply error)) :
    ∃ error, read registry value descriptor = .error (.reply error) := by
  have moved := readAt_append registry value descriptor path []
  rw [List.append_nil, refused] at moved
  exact exists_error_of_under moved.symm

end TypedReply
