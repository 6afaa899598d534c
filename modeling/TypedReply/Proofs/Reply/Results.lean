import TypedReply.Proofs.Reply.Selection

/-!
# What reading gives

What is read against a list descriptor is read item by item, what has the shape of a descriptor is
read as it is unless it is a list, and null is only ever read as null. An optional adds nothing to
what is inside for a value that is neither null nor an object.
-/

namespace TypedReply

open Read

/-- The descriptor inside an optional, however often it is optional; any other is itself. -/
def Descriptor.core : Descriptor → Descriptor
  | .optional inner => inner.core
  | descriptor => descriptor

variable {registry : Registry} {raw value : Value} {descriptor : Descriptor}

/-! ## Lists -/

theorem readItems_eq_ok_iff {element : Descriptor} {path : Path} {position : Nat}
    {items results : List Value} :
    readItems element path position (items.map (Value.toPart (Read.read registry))) = .ok results ↔
      List.Forall₂ (fun item result => read registry item element = .ok result) items results := by
  induction items generalizing position results with
  | nil =>
      simp only [List.map_nil, readItems, List.forall₂_nil_left_iff, Except.ok.injEq]
      exact eq_comm
  | cons item items ih =>
      simp only [List.map_cons, readItems, bind_eq_ok_iff, List.forall₂_cons_left_iff, ih]
      constructor
      · rintro ⟨first, isFirst, rest, areRest, same⟩
        cases same
        exact ⟨first, rest, readAt_eq_ok_iff.mp isFirst, areRest, rfl⟩
      · rintro ⟨first, rest, isFirst, areRest, rfl⟩
        exact ⟨first, readAt_eq_ok_iff.mpr isFirst, rest, areRest, rfl⟩

/-- What is read against a list descriptor is the list of what its items are read as. -/
theorem read_array_eq_ok_iff {element : Descriptor} :
    read registry raw (.array element) = .ok value ↔ ∃ items results, raw.items? = some items ∧
      value = .list results ∧
        List.Forall₂ (fun item result => read registry item element = .ok result) items results := by
  rw [read, readAt_eq, Read.read]
  cases isList : raw.items? with
  | none => simp [Read.fail]
  | some items =>
      have parts : (raw.parts (Read.read registry)).items =
          items.map (Value.toPart (Read.read registry)) := by
        rw [Value.parts_items, Value.iterated_of_items? isList]
      simp only [Option.isSome_some, if_true, parts, map_eq_ok_iff, readItems_eq_ok_iff,
        Option.some.injEq]
      constructor
      · rintro ⟨results, each, rfl⟩
        exact ⟨items, results, rfl, rfl, each⟩
      · rintro ⟨_, results, rfl, rfl, each⟩
        exact ⟨results, each, rfl⟩

/-! ## Null -/

theorem eq_null_of_read (isRead : read registry .null descriptor = .ok value) : value = .null := by
  induction descriptor using Descriptor.induction generalizing value with
  | scalar kind =>
      rw [read, readAt_eq, Read.read] at isRead
      cases kind <;> cases isRead
  | enum type =>
      rw [read, readAt_eq, Read.read, coerceEnum] at isRead
      split at isRead
      · exact (Except.ok.inj isRead).symm
      · cases isRead
  | array element =>
      obtain ⟨items, results, isList, -⟩ := read_array_eq_ok_iff.mp isRead
      cases isList
  | map key element =>
      rw [read, readAt_eq, Read.read] at isRead
      cases isRead
  | optional inner =>
      rw [read, readAt_eq, Read.read] at isRead
      exact (Except.ok.inj isRead).symm
  | union members ih =>
      rw [read] at isRead
      cases nilable : Descriptor.nilable members with
      | true =>
          rw [readAt_union_null nilable] at isRead
          exact (Except.ok.inj isRead).symm
      | false =>
          rw [readAt_union_plain rfl (by simp [nilable])] at isRead
          split at isRead
          next member found =>
            exact ih member (List.mem_of_mem_filter (List.mem_of_find?_eq_some found)) isRead
          next =>
            rcases firstAccepted_cases isRead with ⟨candidate, isCandidate, isRead⟩ | ⟨same, -⟩
            · obtain ⟨member, isMember, rfl⟩ := List.mem_map.mp isCandidate
              exact ih member (List.mem_of_mem_filter (List.mem_of_mem_filter isMember)) isRead
            · exact same
  | null =>
      rw [read, readAt_eq, Read.read] at isRead
      exact (Except.ok.inj isRead).symm
  | fixed record =>
      rw [read, readAt_eq, Read.read, readRecord] at isRead
      split at isRead
      · exact (Except.ok.inj isRead).symm
      · cases isRead
  | struct id =>
      rw [read, readAt_eq, Read.read, readRecord] at isRead
      split at isRead
      · exact (Except.ok.inj isRead).symm
      · cases isRead
  | stray other =>
      rw [read, readAt_eq, Read.read] at isRead
      cases isRead

/-! ## Shapes -/

/-- A value other than null is read against an optional as against what is inside, unless it is an
object. -/
theorem readAt_optional_of_plain {inner : Descriptor} (present : raw.isNull = false)
    (plain : raw.isObject = false) (path : Path) :
    readAt registry raw (.optional inner) path = readAt registry raw inner path := by
  refine readAt_optional_of_admitted present (fun name tag _ isTag => ?_) path
  cases raw <;> first | cases isTag | cases plain

theorem readAt_core (present : raw.isNull = false) (plain : raw.isObject = false) (path : Path) :
    readAt registry raw descriptor path = readAt registry raw descriptor.core path := by
  induction descriptor using Descriptor.induction with
  | optional inner ih => rw [readAt_optional_of_plain present plain, ih, Descriptor.core]
  | _ => rfl

theorem exactMatch_core (present : raw.isNull = false) :
    exactMatch raw descriptor = exactMatch raw descriptor.core := by
  induction descriptor using Descriptor.induction with
  | optional inner ih => rw [exactMatch, present, Bool.false_or, ih, Descriptor.core]
  | _ => rfl

/-- A value with the shape of a descriptor is read as it is, unless it is a list and the descriptor one
of lists. -/
theorem readAt_of_exactMatch (shaped : exactMatch raw descriptor = true) (path : Path) :
    readAt registry raw descriptor path = .ok raw ∨
      ∃ element items, descriptor.core = .array element ∧ raw.items? = some items := by
  induction descriptor using Descriptor.induction with
  | scalar kind =>
      refine .inl ?_
      rw [readAt_eq, Read.read, coerceScalar]
      exact if_pos shaped
  | enum type =>
      refine .inl ?_
      rw [readAt_eq, Read.read, coerceEnum]
      exact if_pos shaped
  | array element =>
      obtain ⟨items, isList⟩ := Option.isSome_iff_exists.mp shaped
      exact .inr ⟨element, items, rfl, isList⟩
  | optional inner ih =>
      rw [exactMatch, Bool.or_eq_true] at shaped
      cases isNull : raw.isNull with
      | true =>
          obtain rfl := Value.isNull_iff.mp isNull
          refine .inl ?_
          rw [readAt_eq, Read.read, if_pos isNull]
      | false =>
          have shapedInner := shaped.resolve_left (by simp [isNull])
          have unnamed (name tag) (named : inner.tag? registry.structs = some name)
              (_ : raw.get? typeKey = some tag) : tag.isText name = true := by
            cases inner <;> first | cases named | cases shapedInner
          rw [readAt_optional_of_admitted isNull unnamed]
          exact ih shapedInner
  | null =>
      obtain rfl := Value.isNull_iff.mp shaped
      exact .inl rfl
  | _ => cases shaped

end TypedReply
