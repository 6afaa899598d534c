import TypedReply.Proofs.Coerce.Members

/-!
# Records and their namesakes

A text selects the first record of a union that it is a naming of. A record is named by its name, but
also by this in lower case and in snake case, and by the values of the members of a discriminator that
are called like it. So the name of a record may be taken by one that stands before it, and selects that
one then.
-/

namespace TypedReply

namespace Descriptor

/-- A text names a record otherwise than by its name: it is the name in lower case or in snake case, or
the text of the value of a member that is called like the record. -/
inductive Renames (discriminator : Descriptor) (name text : String) : Prop where
  | lower (same : text = folded name)
  | snake (same : text = Naming.snakeCase name)
  | member {entry : String × Value} (isMember : entry ∈ discriminator.enumMembers)
      (alike : folded entry.1 = folded name) (same : text = entry.2.display)

variable {discriminator : Descriptor} {name text : String}

theorem mem_namings_iff :
    text ∈ discriminator.namings name ↔ text = name ∨ discriminator.Renames name text := by
  have called (entry : String × Value) :
      (entry.1 == name || folded entry.1 == folded name) = true ↔ folded entry.1 = folded name := by
    simp only [Bool.or_eq_true, beq_iff_eq, or_iff_right_iff_imp]
    exact congrArg folded
  simp only [namings, List.mem_cons, List.mem_append, List.mem_map, List.mem_filter, called,
    List.not_mem_nil, or_false]
  constructor
  · rintro (isName | isLower | ⟨entry, ⟨isMember, alike⟩, isText⟩ | isSnake)
    · exact .inl isName
    · exact .inr (.lower isLower)
    · exact .inr (.member isMember alike isText.symm)
    · exact .inr (.snake isSnake)
  · rintro (isName | isLower | isSnake | ⟨isMember, alike, isText⟩)
    · exact .inl isName
    · exact .inr (.inl isLower)
    · exact .inr (.inr (.inr isSnake))
    · exact .inr (.inr (.inl ⟨_, ⟨isMember, alike⟩, isText.symm⟩))

variable {store : Store} {members : List Descriptor} {record : Descriptor}
variable {before after : List (String × Descriptor)}

theorem resolve?_of_isFirst {selected : String × Descriptor}
    (first : IsFirst (fun record => text ∈ discriminator.namings record.1)
      (namedRecords store members) selected) :
    (typeMapping store members discriminator).resolve? (.str text) = some selected.2 := by
  have found : (namedRecords store members).find? (fun record =>
      decide (text ∈ discriminator.namings record.1)) = some selected := by
    rw [find?_eq_some_iff_isFirst]
    simpa only [decide_eq_true_eq] using first
  have leads := lookup_typeMapping store members discriminator text
  rw [found, Option.map_some] at leads
  simp only [TypeMapping.resolve?, memberValue, Value.text?, Option.bind_eq_bind, Option.bind_some,
    leads, Option.orElse_eq_orElse, Option.orElse_eq_or, Option.some_or]

/-- Among records of different names, the name of one selects it exactly if it is no other naming of one
before it; otherwise it selects the first of those. -/
theorem name_selects_iff (records : namedRecords store members = before ++ (name, record) :: after)
    (distinct : ((namedRecords store members).map Prod.fst).Nodup) (discriminator : Descriptor) :
    ((typeMapping store members discriminator).resolve? (.str name) = some record ↔
      ∀ earlier ∈ before, ¬discriminator.Renames earlier.1 name) ∧
    ∀ taker, IsFirst (fun earlier => discriminator.Renames earlier.1 name) before taker →
      (typeMapping store members discriminator).resolve? (.str name) = some taker.2 := by
  have others (earlier) (isEarlier : earlier ∈ before) : name ≠ earlier.1 := by
    rw [records, List.map_append, List.nodup_append] at distinct
    have different := distinct.2.2 _ (List.mem_map_of_mem isEarlier) name (by simp)
    exact different.symm
  have isTaken (earlier) (isEarlier : earlier ∈ before) :
      name ∈ discriminator.namings earlier.1 ↔ discriminator.Renames earlier.1 name :=
    mem_namings_iff.trans (or_iff_right (others earlier isEarlier))
  have isTaker (taker) (first : IsFirst (fun earlier => discriminator.Renames earlier.1 name) before
      taker) : (typeMapping store members discriminator).resolve? (.str name) = some taker.2 := by
    apply resolve?_of_isFirst
    have named := first.of_iff fun earlier isEarlier => (isTaken earlier isEarlier).symm
    obtain ⟨front, back, same, isNaming, none⟩ := named
    exact ⟨front, back ++ (name, record) :: after, by simp [records, same], isNaming, none⟩
  refine ⟨⟨fun selects earlier isEarlier renames => ?_, fun free => ?_⟩, isTaker⟩
  · obtain ⟨taker, first⟩ : ∃ taker, IsFirst (fun earlier => discriminator.Renames earlier.1 name)
        before taker := exists_isFirst_iff.mpr ⟨earlier, isEarlier, renames⟩
    -- The record that is selected is called otherwise.
    have isRecord : record = taker.2 :=
      Option.some.inj (selects.symm.trans (isTaker taker first))
    have isNamed : record.tag? store = some name :=
      @tag?_of_mem_namedRecords store members (name, record) (by simp [records])
    have isOther : taker.2.tag? store = some taker.1 :=
      @tag?_of_mem_namedRecords store members taker (by simp [records, first.mem])
    rw [isRecord, isOther] at isNamed
    exact others taker first.mem (Option.some.inj isNamed).symm
  · apply @resolve?_of_isFirst _ _ _ _ (name, record)
    refine ⟨before, after, records, mem_namings_iff.mpr (.inl rfl), fun earlier isEarlier named => ?_⟩
    exact free earlier isEarlier ((isTaken earlier isEarlier).mp named)

/-! ### Searches and their namesakes -/

def structsNamed (names : List String) : Store := names.map fun name => ⟨name, none, [], none⟩

/-- The record that a text selects of the union of structs of some names. -/
def selectedOf (names : List String) (discriminator : Descriptor) (text : String) :
    Option Descriptor :=
  (typeMapping (structsNamed names) ((List.range names.length).map .struct) discriminator).resolve?
    (.str text)

/-- A class of choices with a member called like a search of the web, whose value is the name of another
record. -/
def searchKinds : EnumClass := ⟨⟨0, "Kind", none⟩, [("SEARCHWEB", .str "Search")]⟩

/-- The name of a search of documents selects it. -/
theorem searchDocs_selected :
    namedRecords (structsNamed ["SearchWeb", "SearchDocs"]) [.struct 0, .struct 1] =
        [("SearchWeb", .struct 0)] ++ ("SearchDocs", .struct 1) :: [] ∧
      ((namedRecords (structsNamed ["SearchWeb", "SearchDocs"]) [.struct 0, .struct 1]).map
        Prod.fst).Nodup ∧
      selectedOf ["SearchWeb", "SearchDocs"] (.enum (.ofClass searchKinds)) "SearchDocs" =
        some (.struct 1) := by
  have records : namedRecords (structsNamed ["SearchWeb", "SearchDocs"]) [.struct 0, .struct 1] =
      [("SearchWeb", .struct 0)] ++ ("SearchDocs", .struct 1) :: [] := rfl
  have distinct : ((namedRecords (structsNamed ["SearchWeb", "SearchDocs"])
      [.struct 0, .struct 1]).map Prod.fst).Nodup := by decide
  refine ⟨records, distinct, (name_selects_iff records distinct _).1.mpr ?_⟩
  rw [List.forall_mem_singleton]
  rintro (isLower | isSnake | ⟨isMember, alike, isText⟩)
  · exact absurd isLower (by decide)
  · exact absurd isSnake (by decide)
  · obtain rfl := List.mem_singleton.mp isMember
    exact absurd isText (by decide)

/-- The name of a record in lower case, in snake case, or as the value of a member that is called like
it, selects this record although another one has that name. -/
theorem names_taken :
    (∀ names ∈ [["SearchWeb", "searchweb"], ["SearchWeb", "search_web"], ["SearchWeb", "Search"]],
      ((namedRecords (structsNamed names) [.struct 0, .struct 1]).map Prod.fst) = names ∧
        names.Nodup) ∧
    selectedOf ["SearchWeb", "searchweb"] (.scalar .string) "searchweb" = some (.struct 0) ∧
    selectedOf ["SearchWeb", "search_web"] (.scalar .string) "search_web" = some (.struct 0) ∧
    selectedOf ["SearchWeb", "Search"] (.enum (.ofClass searchKinds)) "Search" =
      some (.struct 0) := by
  exact ⟨by decide, rfl, rfl, rfl⟩

end Descriptor

end TypedReply
