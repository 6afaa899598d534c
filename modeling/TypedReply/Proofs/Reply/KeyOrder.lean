import TypedReply.Proofs.Reply.Blame
import TypedReply.Proofs.Reply.Comparison
import TypedReply.Proofs.Reply.Containment
import TypedReply.Reference.Library

/-!
# The order of keys in a reply

Reading looks values up by name, so the order in which an object has its keys decides at most what is
complained about first and in which order the keys of what is read stand.
-/

namespace TypedReply

open Read Descriptor

/-! ## Named values -/

/-- What is read of named values stands under the same names. -/
theorem exists_fields_of_mapM {reader : String × Value → Outcome Value} {fields : Fields}
    (distinct : (fields.map Prod.fst).Nodup) {results : List (Value × Value)}
    (areRead : (fields.mapM fun field => (reader field).map fun value => (.str field.1, value)) =
      .ok results) :
    ∃ named : Fields, results = Value.entriesOf named ∧ (named.map Prod.fst).Nodup ∧
      ∀ name, Option.Rel (fun value result => reader (name, value) = .ok result)
        (fields.get? name) (named.get? name) := by
  obtain ⟨named, rfl, aligned⟩ := exists_named_of_mapM areRead
  have names : fields.map Prod.fst = named.map Prod.fst :=
    map_eq_of_aligned aligned fun _ _ _ same => same.1.symm
  refine ⟨named, rfl, names ▸ distinct, ?_⟩
  apply @Value.get?_aligned fun name value result => reader (name, value) = .ok result
  apply aligned.imp
  intro field result isRead
  exact ⟨isRead.1.symm, isRead.2⟩

/-- Pairs of texts and related values are named values that are aligned. -/
theorem exists_fields_of_aligned {related : Value → Value → Prop} {pairs others : List (Value × Value)}
    (aligned : List.Forall₂ (fun pair other => ∃ name, pair.1 = .str name ∧ other.1 = .str name ∧
      related pair.2 other.2) pairs others) :
    ∃ fields twins : Fields, pairs = Value.entriesOf fields ∧ others = Value.entriesOf twins ∧
      List.Forall₂ (fun field twin => field.1 = twin.1 ∧ related field.2 twin.2) fields twins := by
  induction aligned with
  | nil => exact ⟨[], [], rfl, rfl, .nil⟩
  | @cons pair other _ _ isFirst _ ih =>
      obtain ⟨key, value⟩ := pair
      obtain ⟨otherKey, twin⟩ := other
      obtain ⟨name, rfl, rfl, isRelated⟩ := isFirst
      obtain ⟨fields, twins, rfl, rfl, rest⟩ := ih
      exact ⟨(name, value) :: fields, (name, twin) :: twins, rfl, rfl, .cons ⟨rfl, isRelated⟩ rest⟩

/-- Where the readings of values under the same names accord, so do those of all of them, in whatever
order they are read. -/
theorem accord_named {reader other : String × Value → Outcome Value} {fields others : Fields}
    (distinct : (fields.map Prod.fst).Nodup) (othersDistinct : (others.map Prod.fst).Nodup)
    (each : ∀ name, Option.Rel (fun value twin =>
      Accord False Value.SameUpToOrder (reader (name, value)) (other (name, twin)))
        (fields.get? name) (others.get? name)) :
    Accord False (fun results twins => Value.SameUpToOrder (.object (Value.Entries.ofPairs results))
        (.object (Value.Entries.ofPairs twins)))
      (fields.mapM fun field => (reader field).map fun value => (.str field.1, value))
      (others.mapM fun field => (other field).map fun value => (.str field.1, value)) := by
  obtain ⟨found, perm, aligned⟩ := Value.exists_perm_of_get? distinct othersDistinct each
  have steps : List.Forall₂ (fun field twin => Accord False (fun _ _ => True)
      ((reader field).map fun value => (Value.str field.1, value))
      ((other twin).map fun value => (Value.str twin.1, value))) fields found := by
    apply aligned.imp
    rintro ⟨name, value⟩ ⟨_, twin⟩ ⟨rfl, accord⟩
    exact accord.map fun _ _ _ => trivial
  have reordered := Accord.mapM_of_perm perm.symm fun twin isTwin => by
    obtain ⟨field, -, accord⟩ := exists_left_of_mem steps isTwin
    exact accord.self_of_other
  apply ((Accord.mapM steps).trans reordered).imp
  intro results twins areRead othersAreRead _
  obtain ⟨named, rfl, namedDistinct, reads⟩ := exists_fields_of_mapM distinct areRead
  obtain ⟨namedOthers, rfl, namedOthersDistinct, othersRead⟩ :=
    exists_fields_of_mapM othersDistinct othersAreRead
  rw [ofPairs_entriesOf namedDistinct, ofPairs_entriesOf namedOthersDistinct]
  apply Value.SameUpToOrder.object namedDistinct namedOthersDistinct
  intro name
  have isRead := reads name
  have isOtherRead := othersRead name
  have accords := each name
  generalize fields.get? name = value at isRead accords
  generalize others.get? name = twin at isOtherRead accords
  generalize named.get? name = result at isRead ⊢
  generalize namedOthers.get? name = otherResult at isOtherRead ⊢
  cases accords with
  | none =>
      cases isRead
      cases isOtherRead
      exact .none
  | some accord =>
      cases isRead with
      | some isRead =>
          cases isOtherRead with
          | some isOtherRead =>
              rw [isRead, isOtherRead] at accord
              cases accord with
              | returned same => exact .some same

/-! ## Plain data -/

/-- Of plain data whose integers are in the floating point range, a scalar is read or refused with an
error of the reply. -/
theorem isReply_of_coerceScalar {bound : Nat}
    (inRange : ∀ n : Int, n.natAbs < bound → (Double.ofInt? n).isSome = true) {value : Value}
    (json : value.IsJson bound) {kind : ScalarKind} {path : Path} {failure : Failure}
    (fails : coerceScalar kind value path = .error failure) : failure.isReply = true := by
  rcases cases_of_coerceScalar_error json fails with ⟨error, rfl, -⟩ | ⟨-, -, n, rfl, huge⟩
  · rfl
  · cases json with
    | int _ small =>
        have nearest := inRange n small
        rw [huge] at nearest
        cases nearest

/-- What differs from an object of named values in the order of keys is one that holds the same. -/
theorem Value.SameUpToOrder.exists_fields {fields : Fields} (distinct : (fields.map Prod.fst).Nodup)
    {other : Value} (same : (Value.ofFields fields).SameUpToOrder other) :
    ∃ others : Fields, other = .ofFields others ∧ (others.map Prod.fst).Nodup ∧
      ∀ name, Option.Rel SameUpToOrder (fields.get? name) (others.get? name) := by
  generalize isNode : Value.ofFields fields = value at same
  cases same with
  | refl => exact ⟨fields, isNode.symm, distinct, fun name => rel_refl _⟩
  | list => cases isNode
  | @object _ others _ othersDistinct each =>
      obtain rfl := Value.ofFields_inj.mp isNode
      exact ⟨others, rfl, othersDistinct, each⟩

/-- The readings of values that differ in the order of keys only, against one descriptor. -/
def keyOrdering (registry : Registry) (bound : Nat) : Comparison where
  registry := registry
  other := registry
  permuted _ := False
  corresponds id other := id = other
  faults := False
  like value twin := value.SameUpToOrder twin ∧ value.IsJson bound
  gives := Value.SameUpToOrder
  keyed key := key = .scalar .string

variable {registry : Registry} {bound : Nat}

/-- Maps from texts are read alike. -/
theorem keyOrdering_maps {entries others : Value.Entries}
    {key element otherKey otherElement : Descriptor}
    (isLike : (keyOrdering registry bound).like (.object entries) (.object others))
    (isKeyed : (keyOrdering registry bound).keyed key)
    (reorders : (keyOrdering registry bound).Reorders key otherKey)
    (values : ∀ entry ∈ entries, ∀ twin, (keyOrdering registry bound).like entry.2 twin →
      (keyOrdering registry bound).AccordsAt entry.2 twin element otherElement) :
    (keyOrdering registry bound).AccordsAt (.object entries) (.object others) (.map key element)
      (.map otherKey otherElement) := by
  obtain ⟨same, json⟩ := isLike
  obtain rfl : key = .scalar .string := isKeyed
  obtain rfl : otherKey = .scalar .string := by
    cases reorders
    rfl
  generalize isObject : Value.object entries = value at same json
  cases json with
  | @object fields distinct each =>
      cases isObject
      obtain ⟨twins, isTwin, twinsDistinct, held⟩ := same.exists_fields distinct
      rw [isTwin]
      intro path
      change Accord False Value.SameUpToOrder (readAt registry (.ofFields fields) _ path)
        (readAt registry (.ofFields twins) _ path)
      rw [readAt_map, readAt_map]
      apply Accord.map
      · apply accord_named distinct twinsDistinct
        intro name
        have isHeld := held name
        apply rel_imp (held name)
        intro value twin found _ isSame
        have isField := Fields.mem_of_get? found
        have isEntry : (Value.str name, value) ∈ Value.entriesOf fields :=
          List.mem_map_of_mem isField
        exact values _ isEntry twin ⟨isSame, each _ isField⟩ _
      · exact fun _ _ isSame => isSame
  | _ => cases isObject

theorem keyOrdering_isFair
    (inRange : ∀ n : Int, n.natAbs < bound → (Double.ofInt? n).isSome = true) :
    (keyOrdering registry bound).IsFair where
  tagUnions _ isPermuted := isPermuted.elim
  correspond := correspond_refl registry.structs
  same isLike := isLike.1
  items := by
    intro value twin isLike
    apply rel_imp isLike.1.items?
    intro items others isItems _ aligned
    apply aligned_of_mem aligned
    intro item isItem other same
    cases isLike.2 with
    | list each =>
        cases isItems
        exact ⟨same, each item isItem⟩
    | _ => cases isItems
  get? := by
    intro value twin isLike name
    apply rel_imp (isLike.1.get?_rel name)
    intro part other found _ same
    exact ⟨same, isLike.2.part found⟩
  scalar isLike _ _ _ fails := .inl (isReply_of_coerceScalar inRange isLike.2 fails)
  kept isLike := isLike.1
  refl := .refl
  lists := .list
  records := by
    intro pairs others each
    obtain ⟨fields, twins, rfl, rfl, aligned⟩ := exists_fields_of_aligned each
    exact .ofPairs aligned
  maps isLike isKeyed reorders _ _ values := keyOrdering_maps isLike isKeyed reorders values

/-- A descriptor proper that has texts as keys if it is a map. -/
structure Descriptor.IsTextKeyed (descriptor : Descriptor) : Prop where
  isDescriptor : ∀ value, descriptor ≠ .stray value
  keys : ∀ key element, descriptor = .map key element → key = .scalar .string

/-- The order of keys in a reply decides neither whether the reply is read nor what it is read as, up to
the order of keys, where no record has a class and the keys of maps are texts. A reply that is not
read is refused with an error of the reply in every order of its keys. Its integers are in the
floating point range. -/
theorem reply_read_in_any_key_order
    (inRange : ∀ n : Int, n.natAbs < bound → (Double.ofInt? n).isSome = true)
    {descriptor : Descriptor} (classless : descriptor.IsClassless registry.structs)
    (textKeyed : Throughout registry.structs IsTextKeyed descriptor) {raw other : Value}
    (json : raw.IsJson bound) (same : raw.SameUpToOrder other) :
    (∃ value twin, read registry raw descriptor = .ok value ∧
        read registry other descriptor = .ok twin ∧ value.SameUpToOrder twin) ∨
      ∃ error failed, read registry raw descriptor = .error (.reply error) ∧
        read registry other descriptor = .error (.reply failed) := by
  have compares : (keyOrdering registry bound).Compares raw descriptor descriptor := by
    refine ⟨.refl descriptor, ?_, fun _ _ isPermuted => isPermuted.elim⟩
    intro found reaches
    have isTextKeyed := textKeyed found reaches
    exact ⟨classless found reaches, isTextKeyed.isDescriptor, isTextKeyed.keys⟩
  have accords : Accord False Value.SameUpToOrder (read registry raw descriptor)
      (read registry other descriptor) :=
    Comparison.agrees (keyOrdering_isFair inRange) raw other ⟨same, json⟩ descriptor descriptor
      compares []
  generalize read registry raw descriptor = outcome at accords ⊢
  generalize read registry other descriptor = otherOutcome at accords ⊢
  cases accords with
  | returned isSame => exact .inl ⟨_, _, rfl, rfl, isSame⟩
  | refused error failed => exact .inr ⟨error, failed, rfl, rfl⟩
  | escaped allowed => exact allowed.elim

/-! ### Folders -/

/-- Folders with a size, in a number or in words, and folders under names. -/
def folders : Registry := { Registry.empty with structs :=
  [⟨"Folder", none, [⟨"size", .union [.scalar .float, .scalar .string], true, none, none⟩,
    ⟨"folders", .map (.scalar .string) (.struct 0), true, none, none⟩], none⟩] }

def folderOf (size : Value) (held : Fields) : Fields := [("size", size), ("folders", .ofFields held)]

theorem folderOf_isJson {bound : Nat} {size : Value} {held : Fields} (isSize : size.IsJson bound)
    (distinct : (held.map Prod.fst).Nodup) (each : ∀ field ∈ held, field.2.IsJson bound) :
    (Value.ofFields (folderOf size held)).IsJson bound := by
  refine .object (by simp [folderOf]) ?_
  simp only [folderOf, List.forall_mem_cons]
  exact ⟨isSize, .object distinct each, List.forall_mem_nil _⟩

/-- A folder whose folders are the same but for the order of keys, with its own keys in reverse. -/
theorem folderOf_reverse {size : Value} {held others found : Fields}
    (distinct : (held.map Prod.fst).Nodup)
    (aligned : List.Forall₂ (fun field other => field.1 = other.1 ∧
      field.2.SameUpToOrder other.2) held found) (perm : found.Perm others) :
    (Value.ofFields (folderOf size held)).SameUpToOrder
      (.ofFields (folderOf size others).reverse) := by
  apply Value.SameUpToOrder.of_perm (by simp [folderOf]) _ (List.reverse_perm _).symm
  exact .cons ⟨rfl, .refl size⟩ (.cons ⟨rfl, .of_perm distinct aligned perm⟩ .nil)

/-- What is reached from folders. -/
def folderDescriptors : List Descriptor :=
  [.struct 0, .union [.scalar .float, .scalar .string], .map (.scalar .string) (.struct 0),
    .scalar .float, .scalar .string]

theorem folders_isClassless : (Descriptor.struct 0).IsClassless folders.structs := by
  refine @Throughout.of_list _ _ _ folderDescriptors ?_ ?_ List.mem_cons_self
  · simp [folderDescriptors, folders, Descriptor.parts, Descriptor.fields, Store.at]
  · simp [folderDescriptors, folders, Descriptor.record?, Store.at, Struct.view]

theorem folders_isTextKeyed : Throughout folders.structs IsTextKeyed (.struct 0) := by
  refine @Throughout.of_list _ _ _ folderDescriptors ?_ ?_ List.mem_cons_self
  · simp [folderDescriptors, folders, Descriptor.parts, Descriptor.fields, Store.at]
  · intro found isFound
    constructor
    · rintro value rfl
      simp [folderDescriptors] at isFound
    · rintro key element rfl
      have isMap : key = .scalar .string ∧ element = .struct 0 := by
        simpa [folderDescriptors] using isFound
      exact isMap.1

/-- A folder of two folders is read alike with the keys of every object in reverse. -/
theorem folder_read_in_any_key_order :
    let first := folderOf (.int 1) []
    let second := folderOf (.str "large") []
    let raw : Value := .ofFields (folderOf (.int 3) [("a", .ofFields first), ("b", .ofFields second)])
    let other : Value := .ofFields (folderOf (.int 3)
      [("b", .ofFields second.reverse), ("a", .ofFields first.reverse)]).reverse
    ((∀ n : Int, n.natAbs < 2 ^ 2 → (Double.ofInt? n).isSome = true) ∧
      (Descriptor.struct 0).IsClassless folders.structs ∧
      Throughout folders.structs IsTextKeyed (.struct 0) ∧ raw.IsJson (2 ^ 2) ∧
      raw.SameUpToOrder other) ∧
    ∃ value twin, read folders raw (.struct 0) = .ok value ∧
      read folders other (.struct 0) = .ok twin ∧ value.SameUpToOrder twin := by
  intro first second raw other
  have inRange (n : Int) (small : n.natAbs < 2 ^ 2) : (Double.ofInt? n).isSome = true :=
    Double.isSome_ofInt? small (by decide)
  have json : raw.IsJson (2 ^ 2) := by
    apply folderOf_isJson (.int _ (by decide)) (by simp)
    simp only [List.forall_mem_cons]
    refine ⟨?_, ?_, List.forall_mem_nil _⟩
    · exact folderOf_isJson (.int _ (by decide)) List.nodup_nil (List.forall_mem_nil _)
    · exact folderOf_isJson (.str _) List.nodup_nil (List.forall_mem_nil _)
  have same : raw.SameUpToOrder other := by
    have aligned : List.Forall₂ (fun field twin : String × Value => field.1 = twin.1 ∧
        field.2.SameUpToOrder twin.2) [("a", .ofFields first), ("b", .ofFields second)]
        [("a", .ofFields first.reverse), ("b", .ofFields second.reverse)] := by
      refine .cons ⟨rfl, ?_⟩ (.cons ⟨rfl, ?_⟩ .nil)
      · exact folderOf_reverse List.nodup_nil .nil .nil
      · exact folderOf_reverse List.nodup_nil .nil .nil
    exact folderOf_reverse (by simp) aligned (.swap _ _ [])
  refine ⟨⟨inRange, folders_isClassless, folders_isTextKeyed, json, same⟩, ?_⟩
  cases reply_read_in_any_key_order inRange folders_isClassless folders_isTextKeyed json same with
  | inl reads => exact reads
  | inr fails =>
      obtain ⟨error, failed, refuses, -⟩ := fails
      have reads : (read folders raw (.struct 0)).isOk = true := by decide +kernel
      rw [refuses] at reads
      cases reads

end TypedReply
