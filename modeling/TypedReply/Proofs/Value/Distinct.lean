import TypedReply.Proofs.Aligned
import TypedReply.Value.Equality
import Mathlib.Data.List.Basic

/-!
# Items that are apart

Of items that equal each other only the first is left, and of pairs that are set one after another those
with equal keys share a place. Nothing is lost exactly if no item, or no key, equals an earlier one.
-/

namespace TypedReply

/-! ## Items and those that are the same -/

section Generic

variable {α β : Type} {same : α → α → Bool} {kept items : List α} {item : α}

def ApartBy (same : α → α → Bool) (items : List α) : Prop :=
  items.Pairwise fun earlier later => same earlier later = false

/-- An item joins those that are kept unless it is the same as one of them. -/
def keepBy (same : α → α → Bool) (kept : List α) (item : α) : List α :=
  if kept.any (same · item) then kept else kept ++ [item]

/-- Items without those that are the same as an earlier one. -/
def distinctBy (same : α → α → Bool) (items : List α) : List α := items.foldl (keepBy same) []

theorem keepBy_of_known (known : kept.any (same · item) = true) : keepBy same kept item = kept :=
  if_pos known

theorem keepBy_of_new (new : ∀ old ∈ kept, same old item = false) :
    keepBy same kept item = kept ++ [item] := by
  rw [keepBy, if_neg]
  simpa using new

/-- If none of the items is the same as an earlier one, all of them join those that are kept. -/
theorem foldl_keep_of_pairwise (apart : ApartBy same (kept ++ items)) :
    items.foldl (fun kept item => if kept.any (same · item) then kept else kept ++ [item]) kept =
      kept ++ items := by
  induction items generalizing kept with
  | nil => simp
  | cons item items ih =>
      have new := (List.pairwise_append.mp apart).2.2
      have isNew : kept.any (same · item) = false := by
        rw [List.any_eq_false]
        intro old isOld
        simp [new old isOld item List.mem_cons_self]
      rw [List.append_cons] at apart
      rw [List.foldl_cons, isNew, if_neg Bool.false_ne_true, ih apart, List.append_assoc,
        List.singleton_append]

theorem exists_foldl_keepBy (same : α → α → Bool) (items kept : List α) :
    ∃ joined, joined.Sublist items ∧ items.foldl (keepBy same) kept = kept ++ joined := by
  induction items generalizing kept with
  | nil => exact ⟨[], .slnil, by simp⟩
  | cons item items ih =>
      rw [List.foldl_cons]
      by_cases known : kept.any (same · item) = true
      · obtain ⟨joined, isSublist, isKept⟩ := ih kept
        exact ⟨joined, isSublist.cons item, by rw [keepBy_of_known known, isKept]⟩
      · obtain ⟨joined, isSublist, isKept⟩ := ih (kept ++ [item])
        refine ⟨item :: joined, isSublist.cons_cons item, ?_⟩
        rw [keepBy, if_neg known, isKept, List.append_assoc, List.singleton_append]

theorem ApartBy.keepBy (apart : ApartBy same kept) (item : α) :
    ApartBy same (keepBy same kept item) := by
  by_cases known : kept.any (same · item) = true
  · rwa [keepBy_of_known known]
  · have new : ∀ old ∈ kept, same old item = false := by simpa using known
    rw [keepBy_of_new new, ApartBy, List.pairwise_append]
    refine ⟨apart, List.pairwise_singleton _ _, fun old isOld later isLater => ?_⟩
    rw [List.mem_singleton.mp isLater]
    exact new old isOld

theorem apart_distinctBy (same : α → α → Bool) (items : List α) :
    ApartBy same (distinctBy same items) :=
  List.foldlRecOn (motive := ApartBy same) items _ .nil fun _ apart item _ => apart.keepBy item

theorem distinctBy_sublist (same : α → α → Bool) (items : List α) :
    (distinctBy same items).Sublist items := by
  obtain ⟨joined, isSublist, isKept⟩ := exists_foldl_keepBy same items []
  rw [distinctBy, isKept, List.nil_append]
  exact isSublist

theorem distinctBy_eq_self (apart : ApartBy same items) : distinctBy same items = items :=
  @foldl_keep_of_pairwise _ same [] items apart

theorem length_distinctBy_eq_iff :
    (distinctBy same items).length = items.length ↔ ApartBy same items := by
  constructor
  · intro sameLength
    rw [← (distinctBy_sublist same items).eq_of_length sameLength]
    exact apart_distinctBy same items
  · intro apart
    rw [distinctBy_eq_self apart]

theorem exists_same_of_mem (isItem : item ∈ items) :
    ∃ kept ∈ distinctBy same items, kept = item ∨ same kept item = true := by
  obtain ⟨before, after, rfl⟩ := List.append_of_mem isItem
  obtain ⟨joined, -, isLeft⟩ := exists_foldl_keepBy same after
    (keepBy same (distinctBy same before) item)
  have found : ∃ kept ∈ keepBy same (distinctBy same before) item,
      kept = item ∨ same kept item = true := by
    by_cases known : (distinctBy same before).any (same · item) = true
    · obtain ⟨kept, isKept, isSame⟩ := List.any_eq_true.mp known
      rw [keepBy_of_known known]
      exact ⟨kept, isKept, .inr isSame⟩
    · rw [keepBy, if_neg known]
      exact ⟨item, List.mem_append_right _ List.mem_cons_self, .inl rfl⟩
  rw [distinctBy, List.foldl_append, List.foldl_cons, ← distinctBy, isLeft]
  obtain ⟨kept, isKept, isSame⟩ := found
  exact ⟨kept, List.mem_append_left _ isKept, isSame⟩

/-! ## Setting pairs one after another -/

variable {entries pairs : List (α × β)} {key : α} {value : β}

theorem keys_setBy : (setBy same key value entries).map Prod.fst =
    keepBy same (entries.map Prod.fst) key := by
  induction entries with
  | nil => rfl
  | cons entry entries ih =>
      obtain ⟨other, held⟩ := entry
      simp only [keepBy] at ih
      simp only [setBy, keepBy, List.map_cons, List.any_cons]
      cases isSame : same other key with
      | true => simp
      | false =>
          simp only [Bool.false_eq_true, if_false, Bool.false_or, List.map_cons, ih]
          exact apply_ite (other :: ·) _ _ _

/-- The keys of pairs that are set one after another are those that are not the same as an earlier
one. -/
theorem keys_setAllBy (same : α → α → Bool) (pairs : List (α × β)) :
    (setAllBy same pairs).map Prod.fst = distinctBy same (pairs.map Prod.fst) := by
  have after (entries : List (α × β)) :
      (pairs.foldl (fun entries pair => setBy same pair.1 pair.2 entries) entries).map Prod.fst =
        (pairs.map Prod.fst).foldl (keepBy same) (entries.map Prod.fst) := by
    induction pairs generalizing entries with
    | nil => rfl
    | cons pair pairs ih => rw [List.foldl_cons, ih, keys_setBy, List.map_cons, List.foldl_cons]
  exact after []

theorem length_setAllBy_eq_iff :
    (setAllBy same pairs).length = pairs.length ↔ ApartBy same (pairs.map Prod.fst) := by
  rw [← length_distinctBy_eq_iff, ← keys_setAllBy, List.length_map, List.length_map]

theorem length_setAllBy_le (same : α → α → Bool) (pairs : List (α × β)) :
    (setAllBy same pairs).length ≤ pairs.length := by
  have shorter := (distinctBy_sublist same (pairs.map Prod.fst)).length_le
  rwa [← keys_setAllBy, List.length_map, List.length_map] at shorter

theorem setBy_of_new (new : ∀ entry ∈ entries, same entry.1 key = false) (value : β) :
    setBy same key value entries = entries ++ [(key, value)] := by
  induction entries with
  | nil => rfl
  | cons entry entries ih =>
      obtain ⟨isFirst, others⟩ := List.forall_mem_cons.mp new
      rw [setBy, isFirst, ih others]
      rfl

theorem foldl_setBy_of_apart (apart : ApartBy same ((entries ++ pairs).map Prod.fst)) :
    pairs.foldl (fun entries pair => setBy same pair.1 pair.2 entries) entries = entries ++ pairs := by
  induction pairs generalizing entries with
  | nil => simp
  | cons pair pairs ih =>
      have new : ∀ entry ∈ entries, same entry.1 pair.1 = false := by
        rw [ApartBy, List.map_append, List.pairwise_append] at apart
        intro entry isEntry
        exact apart.2.2 _ (List.mem_map_of_mem isEntry) _ List.mem_cons_self
      rw [List.append_cons] at apart
      rw [List.foldl_cons, setBy_of_new new, ih apart, List.append_assoc, List.singleton_append]

theorem setAllBy_eq_self (apart : ApartBy same (pairs.map Prod.fst)) : setAllBy same pairs = pairs :=
  @foldl_setBy_of_apart _ _ _ [] pairs apart

theorem mem_setBy {entry : α × β} (isEntry : entry ∈ setBy same key value entries) :
    entry ∈ entries ∨ (entry.1 = key ∨ same entry.1 key = true) ∧ entry.2 = value := by
  induction entries with
  | nil =>
      obtain rfl := List.mem_singleton.mp isEntry
      exact .inr ⟨.inl rfl, rfl⟩
  | cons first rest ih =>
      rw [setBy] at isEntry
      split at isEntry
      next isSame =>
        rcases List.mem_cons.mp isEntry with rfl | isLater
        · exact .inr ⟨.inr isSame, rfl⟩
        · exact .inl (List.mem_cons_of_mem _ isLater)
      next =>
        rcases List.mem_cons.mp isEntry with rfl | isLater
        · exact .inl List.mem_cons_self
        · exact (ih isLater).imp_left (List.mem_cons_of_mem _)

theorem exists_pair_of_mem_setAllBy : ∀ entry ∈ setAllBy same pairs, ∃ pair ∈ pairs,
    (entry.1 = pair.1 ∨ same entry.1 pair.1 = true) ∧ entry.2 = pair.2 := by
  unfold setAllBy
  refine List.foldlRecOn (motive := fun entries : List (α × β) => ∀ entry ∈ entries, ∃ pair ∈ pairs,
    (entry.1 = pair.1 ∨ same entry.1 pair.1 = true) ∧ entry.2 = pair.2) pairs _
      (List.forall_mem_nil _) ?_
  intro entries known pair isPair entry isEntry
  rcases mem_setBy isEntry with isOld | isNew
  · exact known entry isOld
  · exact ⟨pair, isPair, isNew⟩

/-- What holds of the keys and values of pairs still does when they are set one after another. -/
theorem forall_mem_setAllBy {isKey : α → Prop} {isValue : β → Prop}
    (each : ∀ pair ∈ pairs, isKey pair.1 ∧ isValue pair.2) :
    ∀ entry ∈ setAllBy same pairs, isKey entry.1 ∧ isValue entry.2 := by
  intro entry isEntry
  have isOld : entry.1 ∈ distinctBy same (pairs.map Prod.fst) :=
    keys_setAllBy same pairs ▸ List.mem_map_of_mem isEntry
  obtain ⟨pair, isPair, sameKey⟩ := List.mem_map.mp ((distinctBy_sublist same _).subset isOld)
  obtain ⟨other, isOther, -, sameValue⟩ := exists_pair_of_mem_setAllBy entry isEntry
  exact ⟨sameKey ▸ (each pair isPair).1, sameValue ▸ (each other isOther).2⟩

theorem setBy_map {γ : Type} {other : γ → γ → Bool} {image : α → γ}
    (agree : ∀ entry ∈ entries, other (image entry.1) (image key) = same entry.1 key) :
    (setBy same key value entries).map (Prod.map image id) =
      setBy other (image key) value (entries.map (Prod.map image id)) := by
  induction entries with
  | nil => rfl
  | cons entry entries ih =>
      obtain ⟨isFirst, others⟩ := List.forall_mem_cons.mp agree
      simp only [setBy, List.map_cons, Prod.map, isFirst]
      split
      · rfl
      · exact congrArg _ (ih others)

theorem foldl_setBy_map {γ : Type} {other : γ → γ → Bool} {image : α → γ}
    (agree : ∀ key ∈ (entries ++ pairs).map Prod.fst, ∀ later ∈ pairs.map Prod.fst,
      other (image key) (image later) = same key later) :
    (pairs.foldl (fun entries pair => setBy same pair.1 pair.2 entries) entries).map
        (Prod.map image id) =
      (pairs.map (Prod.map image id)).foldl (fun entries pair => setBy other pair.1 pair.2 entries)
        (entries.map (Prod.map image id)) := by
  induction pairs generalizing entries with
  | nil => rfl
  | cons pair pairs ih =>
      rw [List.foldl_cons, ih, List.map_cons, List.foldl_cons, setBy_map]
      · rfl
      · intro entry isEntry
        exact agree _ (List.mem_map_of_mem (List.mem_append_left _ isEntry)) _ List.mem_cons_self
      · -- the keys that are set already are among those that were there and the first one
        intro key isKey later isLater
        refine agree key ?_ later (List.mem_cons_of_mem _ isLater)
        rw [List.map_append, keys_setBy, keepBy] at isKey
        split at isKey <;> simp at isKey ⊢ <;> tauto

/-- Pairs leave the images of what they leave, if two keys are the same where their images are. -/
theorem setAllBy_map {γ : Type} {other : γ → γ → Bool} {image : α → γ}
    (agree : ∀ key ∈ pairs.map Prod.fst, ∀ later ∈ pairs.map Prod.fst,
      other (image key) (image later) = same key later) :
    (setAllBy same pairs).map (Prod.map image id) = setAllBy other (pairs.map (Prod.map image id)) :=
  foldl_setBy_map agree

end Generic

/-! ## Values and their equals -/

namespace Value

/-- Booleans, integers and texts of one type that are equal are one. -/
theorem eq_of_same {choice value : Value} (primitive : choice.isPrimitive = true)
    (equal : choice.same value = true) (sameType : choice.sameType value = true) :
    choice = value := by
  cases choice with
  | bool b =>
      cases value with
      | bool c =>
          cases b <;> cases c <;>
            first | rfl | simp [same, sameScalar, number?, integer?, Number.same] at equal
      | _ => cases sameType
  | int n =>
      cases value with
      | int m =>
          simp only [same, sameScalar, number?, integer?, Option.map_some, Number.same,
            beq_iff_eq] at equal
          rw [equal]
      | _ => cases sameType
  | str text =>
      cases value with
      | str other =>
          simp only [same, sameScalar, number?, integer?, Option.map_none, text?,
            beq_iff_eq] at equal
          rw [equal]
      | _ => cases sameType
  | _ => cases primitive

theorem same_self {value : Value} (primitive : value.isPrimitive = true) :
    value.same value = true ∧ value.sameType value = true := by
  cases value with
  | bool b => cases b <;> simp [same, sameScalar, number?, integer?, Number.same, sameType]
  | int n => simp [same, sameScalar, number?, integer?, Number.same, sameType]
  | str text => simp [same, sameScalar, number?, integer?, text?, sameType]
  | _ => cases primitive

def Apart (items : List Value) : Prop := ApartBy same items

theorem apart_distinct (items : List Value) : Apart (distinct items) := apart_distinctBy same items

theorem mem_of_mem_distinct {items : List Value} {item : Value} (isItem : item ∈ distinct items) :
    item ∈ items := (distinctBy_sublist same items).subset isItem

theorem exists_mem_distinct {items : List Value} {item : Value} (isItem : item ∈ items) :
    ∃ kept ∈ distinct items, kept = item ∨ kept.same item = true := exists_same_of_mem isItem

theorem distinct_eq_self {items : List Value} (apart : Apart items) : distinct items = items :=
  distinctBy_eq_self apart

/-- Items are apart if they are aligned with others that are, and where two equal each other those that
they are related to do. -/
theorem Apart.of_aligned {related : Value → Value → Prop} {items others : List Value}
    (apart : Apart others) (aligned : List.Forall₂ related items others)
    (shows : ∀ item ∈ items, ∀ later ∈ items, item.same later = true → ∀ other ∈ others,
      ∀ last ∈ others, related item other → related later last → other.same last = true) :
    Apart items := by
  induction aligned with
  | nil => exact .nil
  | @cons item other items others isRelated aligned ih =>
      obtain ⟨isApart, apart⟩ := List.pairwise_cons.mp apart
      refine List.pairwise_cons.mpr ⟨fun later isLater => Bool.eq_false_iff.mpr fun same => ?_, ?_⟩
      · obtain ⟨last, isLast, related⟩ := exists_right_of_mem aligned isLater
        have isSame := shows item List.mem_cons_self later (List.mem_cons_of_mem _ isLater) same other
          List.mem_cons_self last (List.mem_cons_of_mem _ isLast) isRelated related
        rw [isApart last isLast] at isSame
        cases isSame
      · exact ih apart fun item isItem later isLater same other isOther last isLast =>
          shows item (List.mem_cons_of_mem _ isItem) later (List.mem_cons_of_mem _ isLater) same other
            (List.mem_cons_of_mem _ isOther) last (List.mem_cons_of_mem _ isLast)

theorem length_distinct_eq_iff {items : List Value} :
    (distinct items).length = items.length ↔ Apart items := length_distinctBy_eq_iff

namespace Entries

theorem keys_ofPairs (pairs : List (Value × Value)) :
    (ofPairs pairs).keys = distinct (pairs.map Prod.fst) := keys_setAllBy same pairs

theorem length_ofPairs_eq_iff {pairs : List (Value × Value)} :
    (ofPairs pairs).length = pairs.length ↔ Apart (pairs.map Prod.fst) := length_setAllBy_eq_iff

theorem ofPairs_eq_self {pairs : List (Value × Value)} (apart : Apart (pairs.map Prod.fst)) :
    ofPairs pairs = pairs := setAllBy_eq_self apart

/-- What holds of the keys and values of pairs still does when they are set one after another. -/
theorem forall_mem_ofPairs {isKey isValue : Value → Prop} {pairs : List (Value × Value)}
    (each : ∀ pair ∈ pairs, isKey pair.1 ∧ isValue pair.2) :
    ∀ entry ∈ ofPairs pairs, isKey entry.1 ∧ isValue entry.2 := forall_mem_setAllBy each

/-- Where entries are related to pairs, what these leave when they are set one after another is related
to further pairs, and these leave the entries again, no two pairs have shared a place. -/
theorem apart_of_return {related relates : Value × Value → Value × Value → Prop}
    {entries : Entries} {between last : List (Value × Value)}
    (there : List.Forall₂ related entries between)
    (back : List.Forall₂ relates (ofPairs between) last) (same : ofPairs last = entries) :
    Apart entries.keys ∧ List.Forall₂ relates between entries := by
  have fewer : (ofPairs between).length ≤ between.length := length_setAllBy_le _ _
  have fewerLast : (ofPairs last).length ≤ last.length := length_setAllBy_le _ _
  have asMany : entries.length = between.length := there.length_eq
  have asManyLast := back.length_eq
  have returned : (ofPairs last).length = entries.length := by rw [same]
  have apart : Apart (between.map Prod.fst) := length_ofPairs_eq_iff.mp (by omega)
  have apartLast : Apart (last.map Prod.fst) := length_ofPairs_eq_iff.mp (by omega)
  rw [ofPairs_eq_self apartLast] at same
  rw [ofPairs_eq_self apart, same] at back
  exact ⟨same ▸ apartLast, back⟩

end Entries

end Value

end TypedReply
