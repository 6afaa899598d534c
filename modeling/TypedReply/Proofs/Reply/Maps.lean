import TypedReply.Proofs.Reply.Results
import TypedReply.Proofs.Value.Distinct
import TypedReply.Reference.Library

/-!
# Maps and their entries

The entries of an object are read one by one, and what they are read as is set one after another. A key
that equals an earlier one has no place of its own, so the map has an entry for each entry of the object
exactly if no key is read as the equal of an earlier one. Texts that are read as texts never are.
-/

namespace TypedReply

open Read

variable {registry : Registry} {key element : Descriptor} {raw result : Value}

/-! ## Reading maps -/

/-- An entry is read as another one, its key against one descriptor and its value against another. -/
def ReadsEntryAs (registry : Registry) (key element : Descriptor) (entry read : Value × Value) :
    Prop :=
  TypedReply.read registry entry.1 key = .ok read.1 ∧
    TypedReply.read registry entry.2 element = .ok read.2

/-- An entry is read as another one, of which the key may be a choice. -/
def ReadsKeyed (registry : Registry) (key element : Descriptor) (entry : Value × Value)
    (read : ReadKey × Value) : Prop :=
  ReadsEntryAs registry key element entry (read.1.value, read.2) ∧
    read.1 = keyOf registry key entry.1 read.1.value

theorem readEntry_eq_ok_iff {path : Path} {entry : Value × Value} {pair : ReadKey × Value} :
    readEntry key element path (entry.1.toPart (Read.read registry),
        entry.2.toPart (Read.read registry)) = .ok pair ↔
      ReadsKeyed registry key element entry pair ∧ pair.1.value.unhashable? = none := by
  simp only [readEntry_toPart, bind_eq_ok_iff, readAt_eq_ok_iff]
  constructor
  · rintro ⟨newKey, isKey, newValue, isValue, checked⟩
    split at checked
    · cases checked
    next hashable =>
      cases checked
      exact ⟨⟨⟨isKey, isValue⟩, rfl⟩, hashable⟩
  · obtain ⟨newKey, newValue⟩ := pair
    rintro ⟨⟨⟨isKey, isValue⟩, isOwn⟩, hashable⟩
    refine ⟨newKey.value, isKey, newValue, isValue, ?_⟩
    rw [hashable]
    exact congrArg (fun key => Except.ok (key, newValue)) isOwn.symm

theorem readEntries_eq_ok_iff {path : Path} {entries : Value.Entries}
    {pairs : List (ReadKey × Value)} :
    ((Value.object entries).parts (Read.read registry)).entries.mapM
        (readEntry key element path) = .ok pairs ↔
      List.Forall₂ (ReadsKeyed registry key element) entries pairs ∧
        ∀ pair ∈ pairs, pair.1.value.unhashable? = none := by
  simp only [mapM_eq_ok_iff, Value.parts_entries _ (Value.entries?_eq_some_iff.mpr rfl),
    List.forall₂_map_left_iff, readEntry_eq_ok_iff]
  constructor
  · intro aligned
    refine ⟨aligned.imp fun _ _ both => both.1, fun pair isPair => ?_⟩
    obtain ⟨entry, -, -, hashable⟩ := exists_left_of_mem aligned isPair
    exact hashable
  · rintro ⟨aligned, hashable⟩
    have flipped : List.Forall₂ (flip (ReadsKeyed registry key element)) pairs entries :=
      aligned.flip
    have both : List.Forall₂ (fun pair entry => ReadsKeyed registry key element entry pair ∧
        pair.1.value.unhashable? = none) pairs entries :=
      aligned_of_mem flipped fun pair isPair _ isRead => ⟨isRead, hashable pair isPair⟩
    exact both.flip

/-- What is read against a map descriptor is the map of what the entries are read as, one set after
another, where every key can be one. -/
theorem read_map_eq_ok_iff :
    read registry raw (.map key element) = .ok result ↔ ∃ entries pairs,
      raw.entries? = some entries ∧ List.Forall₂ (ReadsKeyed registry key element) entries pairs ∧
        (∀ pair ∈ pairs, pair.1.value.unhashable? = none) ∧ result = mapOf pairs := by
  rw [read, readAt_eq, Read.read]
  cases isObject : raw.entries? with
  | none => simp [Value.isObject, isObject, Read.fail]
  | some entries =>
      obtain rfl := Value.entries?_eq_some_iff.mp isObject
      simp only [Value.isObject, isObject, Option.isSome_some, if_true, map_eq_ok_iff,
        readEntries_eq_ok_iff, Option.some.injEq]
      constructor
      · rintro ⟨pairs, ⟨aligned, hashable⟩, rfl⟩
        exact ⟨entries, pairs, rfl, aligned, hashable, rfl⟩
      · rintro ⟨_, pairs, rfl, aligned, hashable, rfl⟩
        exact ⟨pairs, ⟨aligned, hashable⟩, rfl⟩

/-- Scalars are no choices: what is read against a map with scalar keys is the object of what the entries
are read as, one set after another. -/
theorem read_scalarMap_eq_ok_iff {kind : ScalarKind} :
    read registry raw (.map (.scalar kind) element) = .ok result ↔ ∃ entries pairs,
      raw.entries? = some entries ∧
        List.Forall₂ (ReadsEntryAs registry (.scalar kind) element) entries pairs ∧
          (∀ pair ∈ pairs, pair.1.unhashable? = none) ∧
            result = .object (Value.Entries.ofPairs pairs) := by
  rw [read_map_eq_ok_iff]
  constructor
  · rintro ⟨entries, pairs, isObject, aligned, hashable, rfl⟩
    refine ⟨entries, pairs.map (Prod.map ReadKey.value id), isObject,
      List.forall₂_map_right_iff.mpr (aligned.imp fun _ _ isRead => isRead.1),
      List.forall_mem_map.mpr hashable, mapOf_of_nameless fun pair isPair => ?_⟩
    obtain ⟨entry, -, -, isOwn⟩ := exists_left_of_mem aligned isPair
    rw [isOwn, keyOf_scalar]
  · rintro ⟨entries, pairs, isObject, aligned, hashable, rfl⟩
    refine ⟨entries, pairs.map (Prod.map (⟨·, none⟩) id), isObject, ?_,
      List.forall_mem_map.mpr hashable, ?_⟩
    · exact List.forall₂_map_right_iff.mpr (aligned.imp fun entry pair isRead =>
        ⟨isRead, (keyOf_scalar kind entry.1 pair.1).symm⟩)
    · exact (mapOf_nameless pairs).symm

/-! ## Maps that hold each entry -/

/-- A map holds each entry of an object: it has one entry for every one of them, with what its key and
its value are read as. -/
def HoldsEach (registry : Registry) (key element : Descriptor) (raw result : Value) : Prop :=
  ∃ entries held, raw.entries? = some entries ∧ result = .object held ∧
    List.Forall₂ (ReadsEntryAs registry key element) entries held

/-- Entries set one after another are held each exactly if their keys are apart. -/
theorem holdsEach_iff_apart {entries : Value.Entries} {pairs : List (ReadKey × Value)}
    (isObject : raw.entries? = some entries)
    (aligned : List.Forall₂ (ReadsKeyed registry key element) entries pairs) :
    HoldsEach registry key element raw (mapOf pairs) ↔
      ApartBy ReadKey.same (pairs.map Prod.fst) := by
  constructor
  · rintro ⟨_, _, isOther, ⟨⟩, held⟩
    cases isObject.symm.trans isOther
    have sameLength := held.length_eq
    rw [← length_setAllBy_eq_iff, ← aligned.length_eq, sameLength, List.length_map]
  · intro apart
    refine ⟨entries, _, isObject, rfl, ?_⟩
    rw [setAllBy_eq_self apart, List.forall₂_map_right_iff]
    exact aligned.imp fun _ _ isRead => isRead.1

/-- Keys that are read as they are and equal themselves are apart where the raw ones are. -/
theorem apart_of_kept {entries : Value.Entries} {pairs : List (ReadKey × Value)}
    (aligned : List.Forall₂ (ReadsKeyed registry key element) entries pairs)
    (kept : ∀ entry ∈ entries, read registry entry.1 key = .ok entry.1 ∧
      entry.1.same entry.1 = true)
    (apart : Value.Apart entries.keys) : ApartBy ReadKey.same (pairs.map Prod.fst) := by
  have isKept : pairs.map Prod.fst = entries.keys.map (⟨·, none⟩) := by
    rw [Value.Entries.keys, List.map_map, eq_comm]
    refine map_eq_of_aligned aligned ?_
    rintro entry isEntry pair ⟨⟨keyRead, -⟩, isOwn⟩
    obtain ⟨isItself, reflexive⟩ := kept entry isEntry
    have sameKey : entry.1 = pair.1.value := Except.ok.inj (isItself.symm.trans keyRead)
    rw [← sameKey, keyOf_of_reflexive reflexive] at isOwn
    exact isOwn.symm
  rw [isKept, ApartBy, List.pairwise_map]
  exact apart.imp fun isApart => by simpa [ReadKey.same] using isApart

/-- What an object is read as against a map descriptor is made of what its entries are read as, set one
after another. The map holds each of them exactly if no two keys that are read are equal or one choice;
if some are, it has fewer entries than the object, namely one for each key that is not the same as an
earlier one, with the value of an entry whose key is. Keys that are read as they are, equal themselves,
and are apart in the object, are. -/
theorem map_holds_each_iff (isRead : read registry raw (.map key element) = .ok result) :
    ∃ entries pairs, raw.entries? = some entries ∧
      List.Forall₂ (ReadsKeyed registry key element) entries pairs ∧ result = mapOf pairs ∧
      (HoldsEach registry key element raw result ↔ ApartBy ReadKey.same (pairs.map Prod.fst)) ∧
      (¬ApartBy ReadKey.same (pairs.map Prod.fst) →
        (setAllBy ReadKey.same pairs).length < entries.length) ∧
      (setAllBy ReadKey.same pairs).map Prod.fst = distinctBy ReadKey.same (pairs.map Prod.fst) ∧
      (∀ entry ∈ setAllBy ReadKey.same pairs, ∃ pair ∈ pairs,
        (entry.1 = pair.1 ∨ entry.1.same pair.1 = true) ∧ entry.2 = pair.2) ∧
      ((∀ entry ∈ entries, read registry entry.1 key = .ok entry.1 ∧ entry.1.same entry.1 = true) →
        Value.Apart entries.keys → HoldsEach registry key element raw result) := by
  obtain ⟨entries, pairs, isObject, aligned, -, rfl⟩ := read_map_eq_ok_iff.mp isRead
  have holds := holdsEach_iff_apart isObject aligned
  refine ⟨entries, pairs, isObject, aligned, rfl, holds, fun notApart => ?_,
    keys_setAllBy _ pairs, exists_pair_of_mem_setAllBy,
    fun kept apart => holds.mpr (apart_of_kept aligned kept apart)⟩
  have fewer := length_setAllBy_le ReadKey.same pairs
  have notEqual := mt length_setAllBy_eq_iff.mp notApart
  rw [aligned.length_eq]
  omega

/-- A choice that does not equal itself is one key all the same. -/
example : read Registry.empty (.object [(.str "nan", .int 1), (.str "NaN", .int 2)])
    (.map (.enum (.choices [.float .nan])) (.scalar .int)) =
      .ok (.object [(.float .nan, .int 2)]) := rfl

/-- The titles of chapters under numbers that are written as texts. -/
def chapters : Value := .object [(.str " 2", .str "Maps"), (.str "1", .str "Lists")]

/-- Different numbers hold a title each. -/
theorem chapters_held :
    read Registry.empty chapters (.map (.scalar .int) (.scalar .string)) =
        .ok (.object [(.int 2, .str "Maps"), (.int 1, .str "Lists")]) ∧
      HoldsEach Registry.empty (.scalar .int) (.scalar .string) chapters
        (.object [(.int 2, .str "Maps"), (.int 1, .str "Lists")]) := by
  have isRead : read Registry.empty chapters (.map (.scalar .int) (.scalar .string)) =
      .ok (.object [(.int 2, .str "Maps"), (.int 1, .str "Lists")]) := rfl
  obtain ⟨entries, pairs, isObject, -, same, holds, fewer, -⟩ := map_holds_each_iff isRead
  refine ⟨isRead, holds.mpr ?_⟩
  by_contra notApart
  have short := fewer notApart
  have twoHeld := congrArg List.length (Value.object.inj same)
  rw [List.length_map] at twoHeld
  rw [← twoHeld] at short
  cases isObject
  exact absurd short (by decide)

/-- Of two texts that are read as one number, the first leaves its title to the second. -/
theorem chapters_collide :
    let raw : Value := .object [(.str "1", .str "Lists"), (.str "01", .str "Maps")]
    read Registry.empty raw (.map (.scalar .int) (.scalar .string)) =
        .ok (.object [(.int 1, .str "Maps")]) ∧
      ¬HoldsEach Registry.empty (.scalar .int) (.scalar .string) raw
        (.object [(.int 1, .str "Maps")]) := by
  refine ⟨rfl, ?_⟩
  rintro ⟨_, _, ⟨⟩, ⟨⟩, aligned⟩
  cases aligned.length_eq

end TypedReply
