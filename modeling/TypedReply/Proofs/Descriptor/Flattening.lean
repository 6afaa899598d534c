import TypedReply.Proofs.Descriptor.Reach

/-!
# Flattening unions

The unions among the members of a union can be spliced into it and its optional members opened, with
null added where one of them admits it. What is looked for among the members, by a property of records
or of other descriptors that are neither unions nor optional, is found in the flattened union as in the
union itself, provided that the first that the flattened union has is no deeper than the search goes.
-/

namespace TypedReply

namespace Descriptor

mutual

/-- What stands for a member of a union once the union is flattened: the members of a union are
spliced, and an optional gives way to what is inside. -/
def spliced : Descriptor → List Descriptor
  | .optional inner => spliced inner
  | .union members => splicedAll members
  | descriptor => [descriptor]

/-- What stands for the members of a union once the union is flattened. -/
def splicedAll : List Descriptor → List Descriptor
  | [] => []
  | member :: members => spliced member ++ splicedAll members

end

mutual

/-- Whether a member that gives way when a union is flattened admits null: an optional does, and a
union that lists null, is empty or has such a member. -/
def admitsNull : Descriptor → Bool
  | .optional _ => true
  | .union members => nilable members || members.isEmpty || anyAdmitsNull members
  | _ => false

/-- Whether one of several members admits null. -/
def anyAdmitsNull : List Descriptor → Bool
  | [] => false
  | member :: members => admitsNull member || anyAdmitsNull members

end

/-- The members of a union that has the unions among them spliced and optionals opened, with null at
the end if one of these admits it. -/
def flattened (members : List Descriptor) : List Descriptor :=
  splicedAll members ++ if anyAdmitsNull members then [.null] else []

/-- Whether a descriptor is neither a union nor optional. -/
def isLeaf : Descriptor → Bool
  | .optional _ => false
  | .union _ => false
  | _ => true

/-! ## What is spliced -/

theorem spliced_of_isLeaf {descriptor : Descriptor} (leaf : descriptor.isLeaf = true) :
    descriptor.spliced = [descriptor] := by
  cases descriptor <;> first | rfl | cases leaf

theorem mem_splicedAll {members : List Descriptor} {found : Descriptor} :
    found ∈ splicedAll members ↔ ∃ member ∈ members, found ∈ member.spliced := by
  induction members with
  | nil => simp [splicedAll]
  | cons member members ih => simp [splicedAll, ih]

theorem splicedAll_append (members others : List Descriptor) :
    splicedAll (members ++ others) = splicedAll members ++ splicedAll others := by
  induction members with
  | nil => simp [splicedAll]
  | cons member members ih => simp [splicedAll, ih]

/-- The members before one are spliced before it, and those after it after it. -/
theorem splicedAll_split (before : List Descriptor) (member : Descriptor) (after : List Descriptor) :
    splicedAll (before ++ member :: after) =
      splicedAll before ++ (member.spliced ++ splicedAll after) := by
  rw [splicedAll_append, splicedAll]

theorem anyAdmitsNull_iff {members : List Descriptor} :
    anyAdmitsNull members = true ↔ ∃ member ∈ members, member.admitsNull = true := by
  induction members with
  | nil => simp [anyAdmitsNull]
  | cons member members ih => simp [anyAdmitsNull, ih]

theorem isLeaf_of_mem_spliced {descriptor found : Descriptor} (isFound : found ∈ descriptor.spliced) :
    found.isLeaf = true := by
  induction descriptor using Descriptor.induction with
  | optional inner ih => exact ih isFound
  | union members ih =>
      obtain ⟨member, isMember, isFound⟩ := mem_splicedAll.mp isFound
      exact ih member isMember isFound
  | _ =>
      obtain rfl := List.mem_singleton.mp isFound
      rfl

theorem isLeaf_of_mem_flattened {members : List Descriptor} {found : Descriptor}
    (isFound : found ∈ flattened members) : found.isLeaf = true := by
  rcases List.mem_append.mp isFound with isSpliced | isNull
  · obtain ⟨member, -, isSpliced⟩ := mem_splicedAll.mp isSpliced
    exact isLeaf_of_mem_spliced isSpliced
  · split at isNull
    · obtain rfl := List.mem_singleton.mp isNull
      rfl
    · cases isNull

theorem nonNull_flattened (members : List Descriptor) :
    nonNull (flattened members) = nonNull (splicedAll members) := by
  unfold flattened nonNull
  split <;> simp [isNull]

theorem admitsNull_union_iff {members : List Descriptor} : (union members).admitsNull = true ↔
    nilable members = true ∨ members = [] ∨ anyAdmitsNull members = true := by
  rw [admitsNull, Bool.or_eq_true, Bool.or_eq_true, List.isEmpty_iff, or_assoc]

theorem nilable_iff {members : List Descriptor} : nilable members = true ↔ .null ∈ members := by
  rw [nilable, List.any_eq_true]
  constructor
  · rintro ⟨member, isMember, isNull⟩
    cases member <;> first | exact isMember | cases isNull
  · exact fun isMember => ⟨.null, isMember, rfl⟩

theorem admitsNull_of_null_mem_spliced {descriptor : Descriptor} (isFound : .null ∈ descriptor.spliced) :
    descriptor = .null ∨ descriptor.admitsNull = true := by
  induction descriptor using Descriptor.induction with
  | optional inner => exact .inr rfl
  | union members ih =>
      obtain ⟨member, isMember, isFound⟩ := mem_splicedAll.mp isFound
      refine .inr (admitsNull_union_iff.mpr ?_)
      rcases ih member isMember isFound with rfl | admits
      · exact .inl (nilable_iff.mpr isMember)
      · exact .inr (.inr (anyAdmitsNull_iff.mpr ⟨member, isMember, admits⟩))
  | null => exact .inl rfl
  | _ => cases List.mem_singleton.mp isFound

/-- Null is among the members of a flattened union if the union lists it or one of its members admits
it. -/
theorem nilable_flattened_iff {members : List Descriptor} :
    nilable (flattened members) = true ↔ nilable members = true ∨ anyAdmitsNull members = true := by
  rw [nilable_iff, nilable_iff, flattened, List.mem_append]
  constructor
  · rintro (isSpliced | isAdded)
    · obtain ⟨member, isMember, isFound⟩ := mem_splicedAll.mp isSpliced
      rcases admitsNull_of_null_mem_spliced isFound with rfl | admits
      · exact .inl isMember
      · exact .inr (anyAdmitsNull_iff.mpr ⟨member, isMember, admits⟩)
    · split at isAdded
      next admits => exact .inr admits
      next => cases isAdded
  · rintro (isMember | admits)
    · exact .inl (mem_splicedAll.mpr ⟨.null, isMember, List.mem_singleton_self _⟩)
    · exact .inr (by simp [admits])

theorem admitsNull_flattened {members : List Descriptor}
    (admits : (union members).admitsNull = true) : (union (flattened members)).admitsNull = true := by
  rcases admitsNull_union_iff.mp admits with lists | rfl | adds
  · exact admitsNull_union_iff.mpr (.inl (nilable_flattened_iff.mpr (.inl lists)))
  · exact admits
  · exact admitsNull_union_iff.mpr (.inl (nilable_flattened_iff.mpr (.inr adds)))

/-! ## What is found -/

section Found

variable {opened : Descriptor → Descriptor} {property : Descriptor → Bool}

/-- A search for a property among members that are opened first finds only what stands for its member
alone, and leaves what is neither a union nor optional as it is. -/
structure Opens (opened : Descriptor → Descriptor) (property : Descriptor → Bool) : Prop where
  alone : ∀ member, property (opened member) = true → member.spliced = [opened member]
  leaf : ∀ found, found.isLeaf = true → opened found = found
  null : property .null = false

/-- The first with a property of all that is spliced, if there is one, is a member of the union itself
once this is opened. -/
def FirstIsDirect (opened : Descriptor → Descriptor) (property : Descriptor → Bool)
    (members : List Descriptor) : Prop :=
  (∀ found ∈ splicedAll members, property found = false) ∨
    ∃ before member after, members = before ++ member :: after ∧ property (opened member) = true ∧
      ∀ found ∈ splicedAll before, property found = false

/-- If all that has a property is a member of the union once this is opened, so is the first. -/
theorem firstIsDirect_of_direct {members : List Descriptor}
    (direct : ∀ member ∈ members, ∀ found ∈ member.spliced, property found = true →
      found = opened member) : FirstIsDirect opened property members := by
  induction members with
  | nil => exact .inl fun found isFound => nomatch isFound
  | cons member members ih =>
      obtain ⟨first, others⟩ := List.forall_mem_cons.mp direct
      by_cases has : ∃ found ∈ member.spliced, property found = true
      · obtain ⟨found, isFound, holds⟩ := has
        exact .inr ⟨[], member, members, rfl, first found isFound holds ▸ holds,
          fun found isFound => nomatch isFound⟩
      · have without : ∀ found ∈ member.spliced, property found = false := by simpa using has
        have joined {before : List Descriptor}
            (others : ∀ found ∈ splicedAll before, property found = false) :
            ∀ found ∈ splicedAll (member :: before), property found = false :=
          fun found isFound => (List.mem_append.mp isFound).elim (without found) (others found)
        rcases ih others with none | ⟨before, next, after, rfl, holds, none⟩
        · exact .inl (joined none)
        · exact .inr ⟨member :: before, next, after, rfl, holds, joined none⟩

variable (opens : Opens opened property)
include opens

theorem Opens.find?_nonNull (members : List Descriptor) :
    (nonNull members).find? (property ∘ opened) = members.find? (property ∘ opened) := by
  rw [nonNull, List.find?_filter]
  congr 1
  funext member
  cases member with
  | null => simp [isNull, opens.leaf .null rfl, opens.null]
  | _ => simp [isNull]

/-- Where nothing that is spliced has a property, no member has it once it is opened. -/
theorem Opens.find?_eq_none {members : List Descriptor}
    (without : ∀ found ∈ splicedAll members, property found = false) :
    members.find? (property ∘ opened) = none := by
  refine List.find?_eq_none.mpr fun member isMember holds => ?_
  have isFound : opened member ∈ splicedAll members :=
    mem_splicedAll.mpr ⟨member, isMember, by simp [opens.alone member holds]⟩
  exact absurd holds (by simp [without _ isFound])

/-- What is spliced is found as it is. -/
theorem Opens.find?_flattened (members : List Descriptor) :
    ((nonNull (flattened members)).find? (property ∘ opened)).map opened =
      (splicedAll members).find? property := by
  rw [nonNull_flattened, opens.find?_nonNull]
  have leaves : ∀ found ∈ splicedAll members, opened found = found := by
    intro found isFound
    obtain ⟨member, -, isFound⟩ := mem_splicedAll.mp isFound
    exact opens.leaf found (isLeaf_of_mem_spliced isFound)
  generalize splicedAll members = all at leaves ⊢
  induction all with
  | nil => rfl
  | cons found others ih =>
      obtain ⟨first, rest⟩ := List.forall_mem_cons.mp leaves
      rw [List.find?_cons, List.find?_cons, Function.comp_apply, first]
      split
      · rw [Option.map_some, first]
      · exact ih rest

/-- A search finds in a union what it finds in the flattened union, if the first that there is to find
is a member of the union. -/
theorem find?_of_firstIsDirect {members : List Descriptor}
    (direct : FirstIsDirect opened property members) :
    ((nonNull members).find? (property ∘ opened)).map opened =
      ((nonNull (flattened members)).find? (property ∘ opened)).map opened := by
  rw [opens.find?_flattened, opens.find?_nonNull]
  rcases direct with without | ⟨before, member, after, rfl, holds, without⟩
  · rw [opens.find?_eq_none without, List.find?_eq_none.mpr (by simpa using without)]
    rfl
  · have none : (splicedAll before).find? property = none :=
      List.find?_eq_none.mpr (by simpa using without)
    rw [splicedAll_split, opens.alone member holds, List.find?_append, List.find?_append,
      opens.find?_eq_none without, none]
    simp [holds]

end Found

end Descriptor

end TypedReply
