import TypedReply.Proofs.Record.Packing
import TypedReply.Proofs.Reply.Maps

/-!
# What the descriptors of containers carry

A container is written as a list or an object, and what is written is read against one descriptor for
all the items, or one for the keys and one for the values, whatever the types of these are. What is
inside comes back if that descriptor carries it: as it is where no type is given for it, and else through
what its type takes of what was read, such as an integer of its digits.
-/

namespace TypedReply

namespace Descriptor

/-- The descriptors of texts, integers and Booleans and of lists and maps of them. -/
inductive IsBasic : Descriptor → Prop where
  | scalar {kind : ScalarKind} (packed : kind.isPacked = true) : IsBasic (.scalar kind)
  | array {element : Descriptor} (basic : IsBasic element) : IsBasic (.array element)
  | map {kind : ScalarKind} {element : Descriptor} (packed : kind.isPacked = true)
      (basic : IsBasic element) : IsBasic (.map (.scalar kind) element)

/-- A value is throughout what a descriptor demands. -/
inductive Fits : Descriptor → Value → Prop where
  | string (text : String) : Fits (.scalar .string) (.str text)
  | int (n : Int) : Fits (.scalar .int) (.int n)
  | bool (b : Bool) : Fits (.scalar .bool) (.bool b)
  | array {element : Descriptor} {items : List Value} (each : ∀ item ∈ items, Fits element item) :
      Fits (.array element) (.list items)
  | map {key element : Descriptor} {entries : Value.Entries} (apart : Value.Apart entries.keys)
      (keys : ∀ entry ∈ entries, Fits key entry.1)
      (values : ∀ entry ∈ entries, Fits element entry.2) : Fits (.map key element) (.object entries)

/-- A descriptor carries a value of a type. Scalars are carried by their own kind, integers and Booleans
by texts, though not integers that take too many characters, and zero and one by Booleans. What has no
type of its own must be what the descriptor demands. -/
inductive Carries : Descriptor → TypeExpr → Value → Prop where
  | own {kind : ScalarKind} {value : Value} (packs : (TypeExpr.scalar kind).Packs value) :
      Carries (.scalar kind) (.scalar kind) value
  | digits {n : Int} (short : (Value.intText n).length ≤ Numeral.maxDigits) :
      Carries (.scalar .string) (.scalar .int) (.int n)
  | word (b : Bool) : Carries (.scalar .string) (.scalar .bool) (.bool b)
  | bit {n : Int} (isBit : n = 0 ∨ n = 1) : Carries (.scalar .bool) (.scalar .int) (.int n)
  | collection {element : Descriptor} {collection : Collection} {expr : TypeExpr} {items : List Value}
      (each : ∀ item ∈ items, Carries element expr item) :
      Carries (.array element) (.collection collection expr) (collection.of items)
  | bare {element : Descriptor} {collection : Collection} {items : List Value}
      (each : ∀ item ∈ items, element.Fits item) :
      Carries (.array element) (.bare collection) (collection.of items)
  | tuple {element : Descriptor} {exprs : List TypeExpr} {items : List Value}
      (each : ∀ pair ∈ exprs.zip items, Carries element pair.1 pair.2) :
      Carries (.array element) (.tuple exprs) (.tuple items)
  | dict {key element : Descriptor} {keyType expr : TypeExpr} {entries : Value.Entries}
      (keys : ∀ entry ∈ entries, Carries key keyType entry.1)
      (values : ∀ entry ∈ entries, Carries element expr entry.2) :
      Carries (.map key element) (.dict keyType expr) (.object entries)
  | bareDict {key element : Descriptor} {entries : Value.Entries}
      (fits : (Descriptor.map key element).Fits (.object entries)) :
      Carries (.map key element) .bareDict (.object entries)

variable {descriptor : Descriptor} {collection : Collection} {expr : TypeExpr} {items : List Value}

theorem IsBasic.of_array {element : Descriptor} (basic : (Descriptor.array element).IsBasic) :
    element.IsBasic := by
  cases basic
  assumption

theorem IsBasic.of_map {key element : Descriptor} (basic : (Descriptor.map key element).IsBasic) :
    (∃ kind : ScalarKind, kind.isPacked = true ∧ key = .scalar kind) ∧ element.IsBasic := by
  cases basic with
  | map packed basic => exact ⟨⟨_, packed, rfl⟩, basic⟩

theorem carries_collection_iff :
    descriptor.Carries (.collection collection expr) (collection.of items) ↔
      ∃ element, descriptor = .array element ∧ ∀ item ∈ items, element.Carries expr item := by
  constructor
  · intro carries
    generalize same : collection.of items = value at carries
    cases carries with
    | collection each =>
        obtain rfl := Collection.of_inj.mp same
        exact ⟨_, rfl, each⟩
  · rintro ⟨element, rfl, each⟩
    exact .collection each

theorem carries_bare_iff : descriptor.Carries (.bare collection) (collection.of items) ↔
    ∃ element, descriptor = .array element ∧ ∀ item ∈ items, element.Fits item := by
  constructor
  · intro carries
    generalize same : collection.of items = value at carries
    cases carries with
    | bare each =>
        obtain rfl := Collection.of_inj.mp same
        exact ⟨_, rfl, each⟩
  · rintro ⟨element, rfl, each⟩
    exact .bare each

theorem carries_tuple_iff {exprs : List TypeExpr} :
    descriptor.Carries (.tuple exprs) (.tuple items) ↔ ∃ element, descriptor = .array element ∧
      ∀ pair ∈ exprs.zip items, element.Carries pair.1 pair.2 := by
  constructor
  · rintro (_ | _ | _ | _ | _ | _ | each)
    exact ⟨_, rfl, each⟩
  · rintro ⟨element, rfl, each⟩
    exact .tuple each

theorem carries_bareDict_iff {entries : Value.Entries} :
    descriptor.Carries .bareDict (.object entries) ↔ ∃ key element,
      descriptor = .map key element ∧ (Descriptor.map key element).Fits (.object entries) := by
  constructor
  · rintro (_ | _ | _ | _ | _ | _ | _ | _ | fits)
    exact ⟨_, _, rfl, fits⟩
  · rintro ⟨key, element, rfl, fits⟩
    exact .bareDict fits

theorem carries_dict_iff {keyType : TypeExpr} {entries : Value.Entries} :
    descriptor.Carries (.dict keyType expr) (.object entries) ↔ ∃ key element,
      descriptor = .map key element ∧ ∀ entry ∈ entries,
        key.Carries keyType entry.1 ∧ element.Carries expr entry.2 := by
  constructor
  · rintro (_ | _ | _ | _ | _ | _ | _ | ⟨keys, values⟩)
    exact ⟨_, _, rfl, fun entry isEntry => ⟨keys entry isEntry, values entry isEntry⟩⟩
  · rintro ⟨key, element, rfl, each⟩
    exact .dict (fun entry isEntry => (each entry isEntry).1)
      fun entry isEntry => (each entry isEntry).2

end Descriptor

open Read Descriptor

def ReadsPlain (registry : Registry) (descriptor : Descriptor) (value result : Value) : Prop :=
  ∃ wire, Plain.plain value = .ok wire ∧ read registry wire descriptor = .ok result

/-- A value of a type is taken again of what is read of its plain form. -/
def Survives (registry : Registry) (descriptor : Descriptor) (expr : TypeExpr) (value : Value) :
    Prop :=
  ∃ result, ReadsPlain registry descriptor value result ∧
    expr.Takes result value

variable {registry : Registry} {descriptor key element : Descriptor} {expr : TypeExpr}
variable {value result : Value} {items : List Value} {collection : Collection}

/-! ## Reading what is written -/

theorem read_scalar (registry : Registry) (kind : ScalarKind) (raw : Value) :
    read registry raw (.scalar kind) = coerceScalar kind raw [] := by
  rw [read, readAt_eq, Read.read]

theorem plain_of_eq_ok_iff {wire : Value} : Plain.plain (collection.of items) = .ok wire ↔ ∃ wires,
    List.Forall₂ (fun item wire => Plain.plain item = .ok wire) items wires ∧ wire = .list wires := by
  have plains : Plain.plain (collection.of items) = (do .ok (.list (← Plain.plainItems items))) := by
    cases collection <;> rw [Collection.of, Plain.plain]
  simp only [plains, bind_eq_ok_iff, Plain.plainItems_eq_ok_iff, Except.ok.injEq,
    eq_comm (b := wire)]

theorem readsPlain_array_iff : ReadsPlain registry (.array element) (collection.of items) result ↔
    ∃ results, List.Forall₂ (ReadsPlain registry element) items results ∧
      result = .list results := by
  unfold ReadsPlain
  simp only [plain_of_eq_ok_iff, ← aligned_comp_iff]
  constructor
  · rintro ⟨_, ⟨wires, arePlain, rfl⟩, isRead⟩
    obtain ⟨_, results, ⟨⟩, rfl, areRead⟩ := read_array_eq_ok_iff.mp isRead
    exact ⟨results, ⟨wires, arePlain, areRead⟩, rfl⟩
  · rintro ⟨results, ⟨wires, arePlain, areRead⟩, rfl⟩
    exact ⟨_, ⟨wires, arePlain, rfl⟩, read_array_eq_ok_iff.mpr ⟨wires, results, rfl, rfl, areRead⟩⟩

theorem exists_array_of_readsPlain (basic : descriptor.IsBasic)
    (reads : ReadsPlain registry descriptor (collection.of items) result) :
    ∃ element, descriptor = .array element := by
  obtain ⟨_, isPlain, isRead⟩ := reads
  obtain ⟨wires, -, rfl⟩ := plain_of_eq_ok_iff.mp isPlain
  cases basic with
  | @scalar kind =>
      rw [read_scalar] at isRead
      cases kind <;> cases isRead
  | array => exact ⟨_, rfl⟩
  | map =>
      obtain ⟨_, _, isObject, -⟩ := read_map_eq_ok_iff.mp isRead
      cases isObject

theorem exists_map_of_readsPlain (basic : descriptor.IsBasic) {entries : Value.Entries}
    (reads : ReadsPlain registry descriptor (.object entries) result) :
    ∃ kind element, ScalarKind.isPacked kind = true ∧ Descriptor.IsBasic element ∧
      descriptor = .map (.scalar kind) element := by
  obtain ⟨_, isPlain, isRead⟩ := reads
  obtain ⟨pairs, -, rfl⟩ := Plain.plain_object_eq_ok_iff.mp isPlain
  cases basic with
  | @scalar kind =>
      rw [read_scalar] at isRead
      cases kind <;> cases isRead
  | array =>
      obtain ⟨_, _, isList, -⟩ := read_array_eq_ok_iff.mp isRead
      cases isList
  | map packed basic => exact ⟨_, _, packed, basic, rfl⟩

/-- Entries are read one by one of the object that they are written as, in which those whose keys have
come to equal each other share a place. -/
theorem readsPlain_map_iff {kind : ScalarKind} {entries : Value.Entries} :
    ReadsPlain registry (.map (.scalar kind) element) (.object entries) result ↔
      ∃ plains pairs, List.Forall₂ Plain.EntryPlain entries plains ∧
        List.Forall₂ (ReadsEntryAs registry (.scalar kind) element)
          (Value.Entries.ofPairs plains) pairs ∧
          (∀ pair ∈ pairs, pair.1.unhashable? = none) ∧
            result = .object (Value.Entries.ofPairs pairs) := by
  unfold ReadsPlain
  simp only [Plain.plain_object_eq_ok_iff, read_scalarMap_eq_ok_iff]
  constructor
  · rintro ⟨_, ⟨plains, arePlain, rfl⟩, _, pairs, ⟨⟩, areRead, hashable, rfl⟩
    exact ⟨plains, pairs, arePlain, areRead, hashable, rfl⟩
  · rintro ⟨plains, pairs, arePlain, areRead, hashable, rfl⟩
    exact ⟨_, ⟨plains, arePlain, rfl⟩, _, pairs, rfl, areRead, hashable, rfl⟩

/-- An entry is read of its plain form as another one. -/
def ReadsEntryPlain (registry : Registry) (key element : Descriptor) (entry pair : Value × Value) :
    Prop :=
  ReadsPlain registry key entry.1 pair.1 ∧ ReadsPlain registry element entry.2 pair.2

theorem readsEntryPlain_of {entry plain pair : Value × Value} (isPlain : Plain.EntryPlain entry plain)
    (isRead : ReadsEntryAs registry key element plain pair) :
    ReadsEntryPlain registry key element entry pair :=
  ⟨⟨_, isPlain.1, isRead.1⟩, ⟨_, isPlain.2.1, isRead.2⟩⟩

/-- The entries of an object whose keys are written as they are and stay apart are read one by one. -/
theorem readsPlain_map_of_own {kind : ScalarKind} {entries : Value.Entries}
    (apart : Value.Apart entries.keys)
    (own : ∀ entry ∈ entries, Plain.plain entry.1 = .ok entry.1 ∧ entry.1.unhashable? = none) :
    ReadsPlain registry (.map (.scalar kind) element) (.object entries) result ↔
      ∃ pairs : Value.Entries,
      List.Forall₂ (ReadsEntryPlain registry (.scalar kind) element) entries pairs ∧
        (∀ pair ∈ pairs, pair.1.unhashable? = none) ∧
          result = .object (Value.Entries.ofPairs pairs) := by
  have kept {plains : List (Value × Value)} (arePlain : List.Forall₂ Plain.EntryPlain entries plains) :
      Value.Entries.ofPairs plains = plains := by
    refine Value.Entries.ofPairs_eq_self ?_
    have same : entries.map Prod.fst = plains.map Prod.fst :=
      map_eq_of_aligned arePlain fun entry isEntry plain isPlain =>
        Except.ok.inj ((own entry isEntry).1.symm.trans isPlain.1)
    exact same ▸ apart
  rw [readsPlain_map_iff]
  constructor
  · rintro ⟨plains, pairs, arePlain, areRead, hashable, rfl⟩
    rw [kept arePlain] at areRead
    refine ⟨pairs, ?_, hashable, rfl⟩
    refine (aligned_comp_iff.mp ⟨plains, arePlain, areRead⟩).imp ?_
    rintro entry pair ⟨plain, isPlain, isRead⟩
    exact readsEntryPlain_of isPlain isRead
  · rintro ⟨pairs, areRead, hashable, rfl⟩
    obtain ⟨plains, arePlain, areRead⟩ := aligned_comp_iff.mpr (aligned_of_mem areRead
      (fun entry isEntry pair isRead => show ∃ plain, Plain.EntryPlain entry plain ∧
          ReadsEntryAs registry (.scalar kind) element plain pair by
        obtain ⟨⟨_, isKey, keyRead⟩, ⟨wire, isValue, valueRead⟩⟩ := isRead
        obtain ⟨isOwn, hashable⟩ := own entry isEntry
        cases isOwn.symm.trans isKey
        exact ⟨(entry.1, wire), ⟨isOwn, isValue, hashable⟩, keyRead, valueRead⟩))
    exact ⟨plains, pairs, arePlain, (kept arePlain).symm ▸ areRead, hashable, rfl⟩

/-! ## What has no type of its own -/

theorem Descriptor.Fits.own {kind : ScalarKind} (fits : (Descriptor.scalar kind).Fits value) :
    Plain.plain value = .ok value ∧ value.unhashable? = none := by
  cases fits <;> exact ⟨rfl, rfl⟩

theorem fits_of_coerceScalar {kind : ScalarKind} (packed : kind.isPacked = true) {raw : Value}
    {path : Path} (coerced : coerceScalar kind raw path = .ok value) :
    (Descriptor.scalar kind).Fits value ∨ matchesScalar kind raw = true ∧ value = raw := by
  unfold coerceScalar at coerced
  split at coerced
  next typed => exact .inr ⟨typed, (Except.ok.inj coerced).symm⟩
  split at coerced
  · cases coerced
  split at coerced
  next converted =>
    cases coerced
    left
    cases kind with
    | string =>
        obtain ⟨text, -, same⟩ := map_eq_ok_iff.mp converted
        cases same
        exact .string text
    | int =>
        obtain ⟨n, -, same⟩ := map_eq_ok_iff.mp converted
        cases same
        exact .int n
    | bool =>
        obtain ⟨b, -, same⟩ := map_eq_ok_iff.mp converted
        cases same
        exact .bool b
    | _ => cases packed
  · cases coerced
  · cases coerced

theorem Value.ne_member (tag : EnumTag) (name : String) (value : Value) :
    value ≠ .member tag name value := by
  intro same
  have size := congrArg sizeOf same
  simp only [Value.member.sizeOf_spec] at size
  omega

theorem readsPlain_scalar_self_iff (registry : Registry) {kind : ScalarKind}
    (packed : kind.isPacked = true) :
    ReadsPlain registry (.scalar kind) value value ↔ (Descriptor.scalar kind).Fits value := by
  constructor
  · rintro ⟨wire, isPlain, isRead⟩
    rw [read_scalar] at isRead
    rcases fits_of_coerceScalar packed isRead with fits | ⟨typed, rfl⟩
    · exact fits
    · cases kind with
      | string =>
          cases value with
          | str text => exact .string text
          | _ => cases typed
      | int =>
          cases value with
          | int n => exact .int n
          | member tag name carried =>
              exact (carried.ne_member tag name (Except.ok.inj isPlain)).elim
          | _ => cases typed
      | bool =>
          cases value with
          | bool b => exact .bool b
          | _ => cases typed
      | _ => cases packed
  · intro fits
    refine ⟨value, fits.own.1, ?_⟩
    rw [read_scalar]
    cases fits <;> rfl

theorem readsPlain_self_iff (registry : Registry) (basic : descriptor.IsBasic) :
    ReadsPlain registry descriptor value value ↔ descriptor.Fits value := by
  induction basic generalizing value with
  | scalar packed => exact readsPlain_scalar_self_iff registry packed
  | @array element _ ih =>
      have list_iff {items : List Value} : ReadsPlain registry (.array element) (.list items)
          (.list items) ↔ ∀ item ∈ items, element.Fits item := by
        rw [← Collection.of, readsPlain_array_iff]
        simp only [Collection.of, Value.list.injEq, exists_eq_right', List.forall₂_same, ih]
      constructor
      · rintro ⟨wire, isPlain, isRead⟩
        obtain ⟨_, results, -, rfl, -⟩ := read_array_eq_ok_iff.mp isRead
        exact .array (list_iff.mp ⟨wire, isPlain, isRead⟩)
      · rintro (_ | _ | _ | each)
        exact list_iff.mpr each
  | @map kind element packed _ ih =>
      have key_iff (key : Value) : ReadsPlain registry (.scalar kind) key key ↔
          (Descriptor.scalar kind).Fits key := readsPlain_scalar_self_iff registry packed
      constructor
      · rintro ⟨wire, isPlain, isRead⟩
        obtain ⟨_, made, -, -, -, rfl⟩ := read_scalarMap_eq_ok_iff.mp isRead
        obtain ⟨plains, pairs, arePlain, areRead, -, same⟩ :=
          readsPlain_map_iff.mp ⟨wire, isPlain, isRead⟩
        generalize Value.Entries.ofPairs made = entries at *
        -- All entries come back, so none shares the place of another, written or read.
        obtain ⟨apart, areRead⟩ := Value.Entries.apart_of_return arePlain areRead
          (Value.object.inj same).symm
        have each := List.forall₂_same.mp (aligned_comp_iff.mp ⟨plains, arePlain, areRead⟩)
        refine .map apart (fun entry isEntry => ?_) fun entry isEntry => ?_
        · obtain ⟨plain, isPlain, isRead⟩ := each entry isEntry
          exact (key_iff _).mp (readsEntryPlain_of isPlain isRead).1
        · obtain ⟨plain, isPlain, isRead⟩ := each entry isEntry
          exact ih.mp (readsEntryPlain_of isPlain isRead).2
      · rintro (_ | _ | _ | _ | ⟨apart, keys, values⟩)
        rw [readsPlain_map_of_own apart fun entry isEntry => (keys entry isEntry).own]
        refine ⟨_, List.forall₂_same.mpr fun entry isEntry => ?_, fun entry isEntry =>
          (keys entry isEntry).own.2, by rw [Value.Entries.ofPairs_eq_self apart]⟩
        exact ⟨(key_iff _).mpr (keys entry isEntry), ih.mpr (values entry isEntry)⟩

/-! ## What comes back -/

/-- What is written as a list survives exactly a descriptor of lists, if it is taken again of what the
items are read as. -/
theorem survives_of_iff (basic : descriptor.IsBasic) :
    Survives registry descriptor expr (collection.of items) ↔ ∃ element, descriptor = .array element ∧
      ∃ results, List.Forall₂ (ReadsPlain registry element) items results ∧
        expr.Takes (.list results) (collection.of items) := by
  constructor
  · rintro ⟨_, reads, takes⟩
    obtain ⟨element, rfl⟩ := exists_array_of_readsPlain basic reads
    obtain ⟨results, areRead, rfl⟩ := readsPlain_array_iff.mp reads
    exact ⟨element, rfl, results, areRead, takes⟩
  · rintro ⟨element, rfl, results, areRead, takes⟩
    exact ⟨_, readsPlain_array_iff.mpr ⟨results, areRead, rfl⟩, takes⟩

/-- Values in places that say of which type they are and how they are described all survive exactly if
they are taken again one by one of what they are read as. -/
theorem forall_survives_iff {α : Type} (registry : Registry) (places : List α)
    (described : α → Descriptor) (type : α → TypeExpr) (held : α → Value) :
    (∀ place ∈ places, Survives registry (described place) (type place) (held place)) ↔ ∃ results,
      List.Forall₂ (fun place result => ReadsPlain registry (described place) (held place) result)
        places results ∧
      List.Forall₂ (fun result place => (type place).Takes result (held place)) results places :=
  (aligned_comp_iff.trans List.forall₂_same).symm

theorem survives_collection_iff (basic : descriptor.IsBasic) (admits : collection.Admits items) :
    Survives registry descriptor (.collection collection expr) (collection.of items) ↔
      ∃ element, descriptor = .array element ∧
        ∀ item ∈ items, Survives registry element expr item := by
  rw [survives_of_iff basic]
  refine exists_congr fun element => and_congr_right fun _ => ?_
  rw [forall_survives_iff registry items (fun _ => element) (fun _ => expr) fun item => item]
  refine exists_congr fun results => and_congr_right fun areRead => ?_
  rw [TypeExpr.takes_collection_iff]
  constructor
  · rintro ⟨taken, areTaken, -, same⟩
    have sameLength := areRead.length_eq.trans areTaken.length_eq
    rwa [(Collection.collect_eq_of_iff admits sameLength.symm).mp same.symm] at areTaken
  · intro areTaken
    exact ⟨items, areTaken, fun unique => (admits unique).2,
      ((Collection.collect_eq_of_iff admits rfl).mpr rfl).symm⟩

theorem survives_bare_iff (basic : descriptor.IsBasic) (admits : collection.Admits items) :
    Survives registry descriptor (.bare collection) (collection.of items) ↔
      ∃ element, descriptor = .array element ∧ ∀ item ∈ items, element.Fits item := by
  rw [survives_of_iff basic]
  refine exists_congr fun element => and_congr_right fun isArray => ?_
  have elementBasic : element.IsBasic := (isArray ▸ basic).of_array
  simp only [← readsPlain_self_iff registry elementBasic, TypeExpr.takes_bare_iff]
  constructor
  · rintro ⟨results, areRead, -, same⟩
    rw [(Collection.collect_eq_of_iff admits areRead.length_eq.symm).mp same.symm] at areRead
    exact List.forall₂_same.mp areRead
  · intro each
    exact ⟨items, List.forall₂_same.mpr each, fun unique => (admits unique).2,
      ((Collection.collect_eq_of_iff admits rfl).mpr rfl).symm⟩

theorem survives_tuple_iff (basic : descriptor.IsBasic) {exprs : List TypeExpr}
    (sameLength : exprs.length = items.length) :
    Survives registry descriptor (.tuple exprs) (.tuple items) ↔
      ∃ element, descriptor = .array element ∧
        ∀ pair ∈ exprs.zip items, Survives registry element pair.1 pair.2 := by
  rw [← Collection.of, survives_of_iff basic]
  refine exists_congr fun element => and_congr_right fun _ => ?_
  have paired : (exprs.zip items).map Prod.snd = items := List.map_snd_zip sameLength.ge
  have reads_iff (results : List Value) :
      List.Forall₂ (fun pair result => ReadsPlain registry element pair.2 result) (exprs.zip items)
        results ↔ List.Forall₂ (ReadsPlain registry element) items results := by
    rw [← paired, List.forall₂_map_left_iff, paired]
  rw [forall_survives_iff registry (exprs.zip items) (fun _ => element) Prod.fst Prod.snd]
  simp only [Collection.of, reads_iff, TypeExpr.takes_tuple_iff sameLength]

theorem survives_bareDict_iff (basic : descriptor.IsBasic) {entries : Value.Entries} :
    Survives registry descriptor .bareDict (.object entries) ↔ ∃ key element,
      descriptor = .map key element ∧ (Descriptor.map key element).Fits (.object entries) := by
  constructor
  · rintro ⟨result, reads, takes⟩
    obtain ⟨kind, element, -, -, rfl⟩ := exists_map_of_readsPlain basic reads
    obtain ⟨_, pairs, -, -, -, rfl⟩ := readsPlain_map_iff.mp reads
    rw [← TypeExpr.takes_bareDict_iff.mp takes] at reads
    exact ⟨.scalar kind, element, rfl, (readsPlain_self_iff registry basic).mp reads⟩
  · rintro ⟨key, element, rfl, fits⟩
    exact ⟨_, (readsPlain_self_iff registry basic).mpr fits, TypeExpr.takes_bareDict_iff.mpr rfl⟩

theorem TypeExpr.Packs.own {kind : ScalarKind} (packs : (TypeExpr.scalar kind).Packs value) :
    Plain.plain value = .ok value ∧ value.unhashable? = Option.none ∧ value.same value = true := by
  cases packs <;> exact ⟨rfl, rfl, (Value.same_self rfl).1⟩

/-- Texts, integers and Booleans of one kind equal each other only if they are one. -/
theorem Descriptor.Fits.eq_of_same {kind : ScalarKind} (fits : (Descriptor.scalar kind).Fits value)
    {other : Value} (fitsOther : (Descriptor.scalar kind).Fits other)
    (same : value.same other = true) : value = other := by
  cases fits <;> cases fitsOther <;> exact Value.eq_of_same rfl same rfl

theorem fits_of_readsPlain {kind held : ScalarKind} (packed : kind.isPacked = true)
    (packs : (TypeExpr.scalar held).Packs value)
    (reads : ReadsPlain registry (.scalar kind) value result) :
    (Descriptor.scalar kind).Fits result := by
  obtain ⟨wire, isPlain, isRead⟩ := reads
  cases packs.own.1.symm.trans isPlain
  rw [read_scalar] at isRead
  rcases fits_of_coerceScalar packed isRead with fits | ⟨-, rfl⟩
  · exact fits
  · exact (readsPlain_scalar_self_iff registry packed).mp
      ⟨_, isPlain, by rwa [read_scalar]⟩

theorem apart_of_takes {kind held : ScalarKind} {keys others : List Value}
    (apart : Value.Apart others) (fits : ∀ key ∈ keys, (Descriptor.scalar kind).Fits key)
    (packs : ∀ other ∈ others, (TypeExpr.scalar held).Packs other)
    (areTaken : List.Forall₂ (TypeExpr.scalar held).Takes keys others) : Value.Apart keys := by
  refine apart.of_aligned areTaken ?_
  intro key isKey later isLater same other isOther last isLast takes takesLast
  obtain rfl := (fits key isKey).eq_of_same (fits later isLater) same
  obtain rfl := takes.eq_of_scalar takesLast
  exact (packs other isOther).own.2.2

theorem survives_dict_iff (basic : descriptor.IsBasic) {kind : ScalarKind} {entries : Value.Entries}
    (apart : Value.Apart entries.keys)
    (keys : ∀ entry ∈ entries, (TypeExpr.scalar kind).Packs entry.1) :
    Survives registry descriptor (.dict (.scalar kind) expr) (.object entries) ↔ ∃ key element,
      descriptor = .map key element ∧ ∀ entry ∈ entries,
        Survives registry key (.scalar kind) entry.1 ∧ Survives registry element expr entry.2 := by
  have own (entry) (isEntry : entry ∈ entries) :
      Plain.plain entry.1 = .ok entry.1 ∧ entry.1.unhashable? = none :=
    ⟨(keys entry isEntry).own.1, (keys entry isEntry).own.2.1⟩
  constructor
  · rintro ⟨result, reads, takes⟩
    obtain ⟨kindRead, element, -, -, rfl⟩ := exists_map_of_readsPlain basic reads
    obtain ⟨pairs, areRead, -, rfl⟩ := (readsPlain_map_of_own apart own).mp reads
    obtain ⟨areTaken, -⟩ := TypeExpr.takes_dict_iff.mp takes
    have areTaken :=
      (Value.Entries.apart_of_return areRead areTaken (Value.Entries.ofPairs_eq_self apart)).2
    have each := List.forall₂_same.mp (aligned_comp_iff.mp ⟨pairs, areRead, areTaken⟩)
    refine ⟨_, element, rfl, fun entry isEntry => ?_⟩
    obtain ⟨pair, ⟨readsKey, readsValue⟩, takesKey, takesValue⟩ := each entry isEntry
    exact ⟨⟨_, readsKey, takesKey⟩, ⟨_, readsValue, takesValue⟩⟩
  · rintro ⟨key, element, rfl, each⟩
    obtain ⟨kindRead, packed, rfl⟩ := basic.of_map.1
    have exists_pair (entry) (isEntry : entry ∈ entries) : ∃ pair,
        ReadsEntryPlain registry (.scalar kindRead) element entry pair ∧
          (TypeExpr.scalar kind).Takes pair.1 entry.1 ∧ expr.Takes pair.2 entry.2 := by
      obtain ⟨⟨newKey, readsKey, takesKey⟩, ⟨newValue, readsValue, takesValue⟩⟩ := each entry isEntry
      exact ⟨(newKey, newValue), ⟨readsKey, readsValue⟩, takesKey, takesValue⟩
    obtain ⟨pairs, aligned⟩ := exists_aligned exists_pair
    have areRead : List.Forall₂ (ReadsEntryPlain registry (.scalar kindRead) element) entries pairs :=
      aligned.imp fun _ _ related => related.1
    have keysFit (pair) (isPair : pair ∈ pairs) : (Descriptor.scalar kindRead).Fits pair.1 := by
      obtain ⟨entry, isEntry, reads⟩ := exists_left_of_mem areRead isPair
      exact fits_of_readsPlain packed (keys entry isEntry) reads.1
    have keysTaken : List.Forall₂ (TypeExpr.scalar kind).Takes (pairs.map Prod.fst) entries.keys :=
      List.forall₂_map_left_iff.mpr (List.forall₂_map_right_iff.mpr
        (aligned.imp fun _ _ related => related.2.1).flip)
    -- The keys that are read are of one kind, so they are apart as the keys taken of them are.
    have apartRead : Value.Apart (pairs.map Prod.fst) :=
      apart_of_takes apart (List.forall_mem_map.mpr keysFit) (List.forall_mem_map.mpr keys) keysTaken
    refine ⟨_, (readsPlain_map_of_own apart own).mpr
      ⟨pairs, areRead, fun pair isPair => (keysFit pair isPair).own.2, rfl⟩, ?_⟩
    rw [Value.Entries.ofPairs_eq_self apartRead]
    exact TypeExpr.takes_dict_iff.mpr ⟨(aligned.imp fun _ _ related => related.2).flip,
      fun entry isEntry => (own entry isEntry).2, apart⟩

theorem exists_scalar_of_readsPlain (basic : descriptor.IsBasic) {kind : ScalarKind}
    (packs : (TypeExpr.scalar kind).Packs value)
    (reads : ReadsPlain registry descriptor value result) :
    ∃ kind : ScalarKind, kind.isPacked = true ∧ descriptor = .scalar kind := by
  obtain ⟨wire, isPlain, isRead⟩ := reads
  cases packs.own.1.symm.trans isPlain
  cases basic with
  | scalar packed => exact ⟨_, packed, rfl⟩
  | array =>
      obtain ⟨_, _, isList, -⟩ := read_array_eq_ok_iff.mp isRead
      cases packs <;> cases isList
  | map =>
      obtain ⟨_, _, isObject, -⟩ := read_map_eq_ok_iff.mp isRead
      cases packs <;> cases isObject

theorem readsPlain_of_coerceScalar {kind held : ScalarKind} (packs : (TypeExpr.scalar held).Packs value)
    (coerced : coerceScalar kind value [] = .ok result) :
    ReadsPlain registry (.scalar kind) value result :=
  ⟨value, packs.own.1, by rwa [read_scalar]⟩

theorem survives_scalar_iff (basic : descriptor.IsBasic) {kind : ScalarKind}
    (packs : (TypeExpr.scalar kind).Packs value) :
    Survives registry descriptor (.scalar kind) value ↔
      descriptor.Carries (.scalar kind) value := by
  constructor
  · rintro ⟨result, reads, takes⟩
    obtain ⟨kindRead, packed, rfl⟩ := exists_scalar_of_readsPlain basic packs reads
    have fits := fits_of_readsPlain packed packs reads
    obtain ⟨wire, isPlain, isRead⟩ := reads
    cases packs.own.1.symm.trans isPlain
    rw [read_scalar] at isRead
    cases packs with
    | string =>
        cases fits with
        | string => exact .own (.string _)
        | _ => cases takes
    | int n =>
        cases fits with
        | string =>
            cases isRead
            exact .digits (TypeExpr.takes_intText_iff.mp takes)
        | int => exact .own (.int n)
        | bool b =>
            generalize isInt : Value.int n = taken at takes
            cases takes
            cases isInt
            exact .bit (by cases b <;> simp)
    | bool b =>
        cases fits with
        | string => exact .word b
        | int => cases isRead
        | bool => exact .own (.bool b)
  · intro carries
    cases carries with
    | own =>
        refine ⟨value, readsPlain_of_coerceScalar packs ?_, .scalar ?_⟩
        · cases packs <;> rfl
        · cases packs <;> rfl
    | digits short => exact ⟨_, readsPlain_of_coerceScalar packs rfl, .digits short⟩
    | word b => exact ⟨_, readsPlain_of_coerceScalar packs rfl, .word b⟩
    | bit isBit =>
        rcases isBit with rfl | rfl
        · exact ⟨.bool false, readsPlain_of_coerceScalar packs rfl, .bit false⟩
        · exact ⟨.bool true, readsPlain_of_coerceScalar packs rfl, .bit true⟩

theorem survives_iff (basic : descriptor.IsBasic) (packed : expr.IsPacked) (packs : expr.Packs value) :
    Survives registry descriptor expr value ↔ descriptor.Carries expr value := by
  induction packed generalizing descriptor value with
  | scalar => exact survives_scalar_iff basic packs
  | bare =>
      cases packs with
      | bare admits => rw [survives_bare_iff basic admits, carries_bare_iff]
  | collection packed ih =>
      cases packs with
      | collection admits each =>
          rw [survives_collection_iff basic admits, carries_collection_iff]
          refine exists_congr fun element => and_congr_right ?_
          rintro rfl
          exact forall₂_congr fun item isItem => ih basic.of_array (each item isItem)
  | tuple _ ih =>
      cases packs with
      | tuple sameLength each =>
          rw [survives_tuple_iff basic sameLength, carries_tuple_iff]
          refine exists_congr fun element => and_congr_right ?_
          rintro rfl
          exact forall₂_congr fun pair isPair =>
            ih pair.1 (List.of_mem_zip isPair).1 basic.of_array (each pair isPair)
  | bareDict =>
      cases packs with
      | bareDict => rw [survives_bareDict_iff basic, carries_bareDict_iff]
  | dict _ _ ih =>
      cases packs with
      | dict apart keys values =>
          rw [survives_dict_iff basic apart keys, carries_dict_iff]
          refine exists_congr fun key => exists_congr fun element => and_congr_right ?_
          rintro rfl
          obtain ⟨⟨kindRead, packed, rfl⟩, elementBasic⟩ := basic.of_map
          exact forall₂_congr fun entry isEntry =>
            and_congr (survives_scalar_iff (.scalar packed) (keys entry isEntry))
              (ih elementBasic (values entry isEntry))

/-! ## What is read is taken or refused -/

/-- Where each value is taken or refused, one is refused or all are taken. -/
theorem exists_refused_or_taken {α : Type} {places : List α} {given : α → Value} {type : α → TypeExpr}
    (each : ∀ place ∈ places, (∃ taken, (type place).Takes (given place) taken) ∨
      (type place).Refuses (given place)) :
    (∃ place ∈ places, (type place).Refuses (given place)) ∨
      ∃ taken, List.Forall₂ (fun place value => (type place).Takes (given place) value)
        places taken := by
  by_cases refused : ∃ place ∈ places, (type place).Refuses (given place)
  · exact .inl refused
  · refine .inr (exists_aligned fun place isPlace => ?_)
    exact (each place isPlace).resolve_right fun refuses => refused ⟨place, isPlace, refuses⟩

theorem takes_or_refuses_of_collection (basic : descriptor.IsBasic)
    (each : ∀ item ∈ items, ∀ {descriptor : Descriptor} {result : Value}, descriptor.IsBasic →
      ReadsPlain registry descriptor item result →
        (∃ taken, expr.Takes result taken) ∨ expr.Refuses result)
    (reads : ReadsPlain registry descriptor (collection.of items) result) :
    (∃ taken, (TypeExpr.collection collection expr).Takes result taken) ∨
      (TypeExpr.collection collection expr).Refuses result := by
  obtain ⟨element, rfl⟩ := exists_array_of_readsPlain basic reads
  obtain ⟨results, areRead, rfl⟩ := readsPlain_array_iff.mp reads
  have decided (result) (isResult : result ∈ results) :
      (∃ taken, expr.Takes result taken) ∨ expr.Refuses result := by
    obtain ⟨item, isItem, reads⟩ := exists_left_of_mem areRead isResult
    exact each item isItem basic.of_array reads
  rcases exists_refused_or_taken decided with ⟨result, isResult, refuses⟩ | ⟨taken, areTaken⟩
  · exact .inr (.item isResult refuses)
  by_cases usable : collection.isUnique = true → ∀ item ∈ taken, item.unhashable? = none
  · exact .inl ⟨_, TypeExpr.takes_collection_iff.mpr ⟨taken, areTaken, usable, rfl⟩⟩
  · push Not at usable
    obtain ⟨unique, item, isItem, unusable⟩ := usable
    obtain ⟨result, isResult, takes⟩ := exists_left_of_mem areTaken isItem
    exact .inr (.unusable unique isResult takes unusable)

theorem takes_or_refuses_of_tuple (basic : descriptor.IsBasic) {exprs : List TypeExpr}
    (sameLength : exprs.length = items.length)
    (each : ∀ pair ∈ exprs.zip items, ∀ {descriptor : Descriptor} {result : Value},
      descriptor.IsBasic → ReadsPlain registry descriptor pair.2 result →
        (∃ taken, pair.1.Takes result taken) ∨ pair.1.Refuses result)
    (reads : ReadsPlain registry descriptor (.tuple items) result) :
    (∃ taken, (TypeExpr.tuple exprs).Takes result taken) ∨
      (TypeExpr.tuple exprs).Refuses result := by
  obtain ⟨element, rfl⟩ := @exists_array_of_readsPlain _ _ _ _ .tuple basic reads
  obtain ⟨results, areRead, rfl⟩ := (@readsPlain_array_iff _ _ _ _ .tuple).mp reads
  have paired : List.Forall₂ (fun pair result => ReadsPlain registry element pair.2 result)
      (exprs.zip items) results := by
    rw [← List.map_snd_zip sameLength.ge, List.forall₂_map_left_iff] at areRead
    exact areRead
  have decided : List.Forall₂ (fun expr result =>
      (∃ taken, expr.Takes result taken) ∨ expr.Refuses result) exprs results :=
    (aligned_fst_iff sameLength).mp
      (aligned_of_mem paired fun pair isPair _ reads => each pair isPair basic.of_array reads)
  obtain ⟨asMany, decided⟩ := List.forall₂_iff_zip.mp decided.flip
  rcases exists_refused_or_taken fun _ isSlot => decided isSlot with
    ⟨slot, isSlot, refuses⟩ | ⟨taken, areTaken⟩
  · exact .inr (.place isSlot refuses)
  have complete : exprs.length = taken.length := by
    rw [← areTaken.length_eq, List.length_zip, asMany, min_self]
  exact .inl ⟨_, (TypeExpr.takes_tuple_iff complete).mpr
    ((@aligned_zip_iff _ _ _ (fun result expr value => TypeExpr.Takes expr result value) _ _ _
      complete).mp ⟨asMany, areTaken⟩)⟩

theorem exists_bit_of_coerceScalar {n : Int} {b : Bool} {path : Path}
    (coerced : coerceScalar .bool (.int n) path = .ok (.bool b)) :
    n = 0 ∧ b = false ∨ n = 1 ∧ b = true := by
  by_cases isZero : n = 0
  · subst isZero
    cases coerced
    exact .inl ⟨rfl, rfl⟩
  by_cases isOne : n = 1
  · subst isOne
    cases coerced
    exact .inr ⟨rfl, rfl⟩
  have unread : Coerce.toBool (.int n) = .error .unsupported := by
    simp [Coerce.toBool, Value.text?, Value.integer?, isZero, isOne]
  have isRead : coerceScalar .bool (.int n) path =
      unconvertible path ScalarKind.bool.name (.int n) .unsupported := by
    simp [coerceScalar, matchesScalar, Coerce.isScalar, Coerce.convert, unread, Except.map]
  cases isRead.symm.trans coerced

theorem takes_or_refuses_of_scalar (basic : descriptor.IsBasic) {kind : ScalarKind}
    (packs : (TypeExpr.scalar kind).Packs value) (reads : ReadsPlain registry descriptor value result) :
    (TypeExpr.scalar kind).Takes result value ∨ (TypeExpr.scalar kind).Refuses result := by
  obtain ⟨kindRead, packed, rfl⟩ := exists_scalar_of_readsPlain basic packs reads
  have fits := fits_of_readsPlain packed packs reads
  obtain ⟨wire, isPlain, isRead⟩ := reads
  cases packs.own.1.symm.trans isPlain
  rw [read_scalar] at isRead
  cases packs with
  | string =>
      cases fits with
      | string =>
          cases isRead
          exact .inl (.scalar rfl)
      | int n => exact .inr (.number n)
      | bool b => exact .inr (.truth b)
  | int n =>
      cases fits with
      | string =>
          cases isRead
          rcases Nat.lt_or_ge Numeral.maxDigits (Value.intText n).length with long | short
          · exact .inr (.digits long)
          · exact .inl (.digits short)
      | int =>
          cases isRead
          exact .inl (.scalar rfl)
      | bool b =>
          left
          rcases exists_bit_of_coerceScalar isRead with ⟨rfl, rfl⟩ | ⟨rfl, rfl⟩
          · exact .bit false
          · exact .bit true
  | bool b =>
      cases fits with
      | string =>
          cases isRead
          exact .inl (.word b)
      | int => cases isRead
      | bool =>
          cases isRead
          exact .inl (.scalar rfl)

/-- Of the keys that are read of an object one is refused, or all are taken as what they were and stay
apart. -/
theorem exists_refused_key_or_taken {kind kindRead : ScalarKind} (packed : kindRead.isPacked = true)
    {entries pairs : Value.Entries} (apart : Value.Apart entries.keys)
    (keys : ∀ entry ∈ entries, (TypeExpr.scalar kind).Packs entry.1)
    (areRead : List.Forall₂ (ReadsEntryPlain registry (.scalar kindRead) element) entries pairs) :
    (∃ entry ∈ Value.Entries.ofPairs pairs, (TypeExpr.scalar kind).Refuses entry.1) ∨
      Value.Entries.ofPairs pairs = pairs ∧
        List.Forall₂ (fun entry pair => (TypeExpr.scalar kind).Takes pair.1 entry.1 ∧
          ReadsPlain registry element entry.2 pair.2) entries pairs := by
  have keysFit (pair) (isPair : pair ∈ pairs) : (Descriptor.scalar kindRead).Fits pair.1 := by
    obtain ⟨entry, isEntry, reads⟩ := exists_left_of_mem areRead isPair
    exact fits_of_readsPlain packed (keys entry isEntry) reads.1
  by_cases refused : ∃ pair ∈ pairs, (TypeExpr.scalar kind).Refuses pair.1
  · -- Keys that equal each other are one, so a key that is refused keeps its place.
    obtain ⟨pair, isPair, refuses⟩ := refused
    obtain ⟨kept, isKept, same⟩ := Value.exists_mem_distinct (List.mem_map_of_mem isPair)
    obtain ⟨other, isOther, rfl⟩ := List.mem_map.mp (Value.mem_of_mem_distinct isKept)
    have isKey : other.1 = pair.1 :=
      same.elim id ((keysFit other isOther).eq_of_same (keysFit pair isPair))
    rw [← Value.Entries.keys_ofPairs] at isKept
    obtain ⟨entry, isEntry, sameKey⟩ := List.mem_map.mp isKept
    exact .inl ⟨entry, isEntry, sameKey.trans isKey ▸ refuses⟩
  · have taken : List.Forall₂ (fun entry pair => (TypeExpr.scalar kind).Takes pair.1 entry.1 ∧
        ReadsPlain registry element entry.2 pair.2) entries pairs := by
      refine List.forall₂_iff_zip.mpr ⟨areRead.length_eq, fun {entry pair} isSlot => ?_⟩
      obtain ⟨isEntry, isPair⟩ := List.of_mem_zip isSlot
      obtain ⟨readsKey, readsValue⟩ := (List.forall₂_iff_zip.mp areRead).2 isSlot
      have decided := takes_or_refuses_of_scalar (.scalar packed) (keys entry isEntry) readsKey
      exact ⟨decided.resolve_right fun refuses => refused ⟨pair, isPair, refuses⟩, readsValue⟩
    have keysTaken : List.Forall₂ (TypeExpr.scalar kind).Takes (pairs.map Prod.fst) entries.keys :=
      List.forall₂_map_left_iff.mpr (List.forall₂_map_right_iff.mpr
        (taken.imp fun _ _ both => both.1).flip)
    exact .inr ⟨Value.Entries.ofPairs_eq_self (apart_of_takes apart (List.forall_mem_map.mpr keysFit)
      (List.forall_mem_map.mpr keys) keysTaken), taken⟩

theorem takes_or_refuses_of_dict (basic : descriptor.IsBasic) {kind : ScalarKind}
    {entries : Value.Entries} (apart : Value.Apart entries.keys)
    (keys : ∀ entry ∈ entries, (TypeExpr.scalar kind).Packs entry.1)
    (values : ∀ entry ∈ entries, ∀ {descriptor : Descriptor} {result : Value}, descriptor.IsBasic →
      ReadsPlain registry descriptor entry.2 result →
        (∃ taken, expr.Takes result taken) ∨ expr.Refuses result)
    (reads : ReadsPlain registry descriptor (.object entries) result) :
    (∃ taken, (TypeExpr.dict (.scalar kind) expr).Takes result taken) ∨
      (TypeExpr.dict (.scalar kind) expr).Refuses result := by
  have own (entry) (isEntry : entry ∈ entries) :
      Plain.plain entry.1 = .ok entry.1 ∧ entry.1.unhashable? = none :=
    ⟨(keys entry isEntry).own.1, (keys entry isEntry).own.2.1⟩
  obtain ⟨kindRead, element, packed, elementBasic, rfl⟩ := exists_map_of_readsPlain basic reads
  obtain ⟨pairs, areRead, -, rfl⟩ := (readsPlain_map_of_own apart own).mp reads
  rcases exists_refused_key_or_taken packed apart keys areRead with
    ⟨entry, isEntry, refuses⟩ | ⟨kept, keysTaken⟩
  · exact .inr (.key isEntry refuses)
  rw [kept]
  by_cases refused : ∃ pair ∈ pairs, expr.Refuses pair.2
  · obtain ⟨pair, isPair, refuses⟩ := refused
    exact .inr (.value isPair refuses)
  obtain ⟨taken, named, areTaken⟩ : ∃ taken : Value.Entries,
      List.Forall₂ (fun entry new => entry.1 = new.1) entries taken ∧
        List.Forall₂ (fun pair new => (TypeExpr.scalar kind).Takes pair.1 new.1 ∧
          expr.Takes pair.2 new.2) pairs taken := by
    refine exists_aligned_both keysTaken fun entry isEntry pair isPair related => ?_
    obtain ⟨value, takes⟩ := (values entry isEntry elementBasic related.2).resolve_right
      fun refuses => refused ⟨pair, isPair, refuses⟩
    exact ⟨(entry.1, value), rfl, related.1, takes⟩
  have sameKeys : entries.keys = taken.keys := map_eq_of_aligned named fun _ _ _ same => same
  refine .inl ⟨.object taken, TypeExpr.takes_dict_iff.mpr ⟨areTaken, fun new isNew => ?_,
    sameKeys ▸ apart⟩⟩
  obtain ⟨entry, isEntry, same⟩ := exists_left_of_mem named isNew
  exact same ▸ (own entry isEntry).2

/-- What a packed value is read as is taken or refused. -/
theorem takes_or_refuses_of_readsPlain (basic : descriptor.IsBasic) (packed : expr.IsPacked)
    (packs : expr.Packs value) (reads : ReadsPlain registry descriptor value result) :
    (∃ taken, expr.Takes result taken) ∨ expr.Refuses result := by
  induction packed generalizing descriptor value result with
  | scalar =>
      exact (takes_or_refuses_of_scalar basic packs reads).imp_left fun takes => ⟨_, takes⟩
  | bare collection =>
      cases packs with
      | bare =>
          obtain ⟨element, rfl⟩ := exists_array_of_readsPlain basic reads
          obtain ⟨results, -, rfl⟩ := readsPlain_array_iff.mp reads
          by_cases usable : collection.isUnique = true → ∀ item ∈ results, item.unhashable? = none
          · exact .inl ⟨_, .bare usable⟩
          · push Not at usable
            obtain ⟨unique, item, isItem, unusable⟩ := usable
            exact .inr (.bareItem unique isItem unusable)
  | collection _ ih =>
      cases packs with
      | collection packed each =>
          exact takes_or_refuses_of_collection basic
            (fun item isItem _ _ basic reads => ih basic (each item isItem) reads) reads
  | tuple _ ih =>
      cases packs with
      | tuple sameLength each =>
          refine takes_or_refuses_of_tuple basic sameLength (fun pair isPair _ _ basic reads => ?_) reads
          exact ih pair.1 (List.of_mem_zip isPair).1 basic (each pair isPair) reads
  | bareDict =>
      cases packs with
      | bareDict =>
          obtain ⟨kind, element, -, -, rfl⟩ := exists_map_of_readsPlain basic reads
          obtain ⟨_, pairs, -, -, -, rfl⟩ := readsPlain_map_iff.mp reads
          exact .inl ⟨_, .bareDict _⟩
  | dict _ _ ih =>
      cases packs with
      | dict apart keys values =>
          exact takes_or_refuses_of_dict basic apart keys
            (fun entry isEntry _ _ basic reads => ih basic (values entry isEntry) reads) reads

/-! ## Types that are described in full -/

namespace TypeExpr

theorem IsPacked.isBasic_outline (packed : expr.IsPacked) : expr.outline.IsBasic := by
  induction packed with
  | scalar packed => exact .scalar packed
  | bare => exact .array (.scalar rfl)
  | collection _ ih => exact .array ih
  | @tuple items _ ih =>
      cases items with
      | nil => exact .array (.scalar rfl)
      | cons item rest => exact .array (ih item List.mem_cons_self)
  | bareDict => exact .map rfl (.scalar rfl)
  | dict packed _ ih => exact .map packed ih

/-- Types whose outline tells the types of all that is inside: every container has a type for its items,
and those of the items in a fixed sequence have one outline. -/
inductive IsUniform : TypeExpr → Prop where
  | scalar {kind : ScalarKind} (packed : kind.isPacked = true) : IsUniform (.scalar kind)
  | collection {collection : Collection} {element : TypeExpr} (uniform : IsUniform element) :
      IsUniform (.collection collection element)
  | tuple {items : List TypeExpr} (each : ∀ item ∈ items, IsUniform item)
      (alike : ∀ item ∈ items, ∀ other ∈ items, item.outline = other.outline) :
      IsUniform (.tuple items)
  | dict {kind : ScalarKind} {element : TypeExpr} (packed : kind.isPacked = true)
      (uniform : IsUniform element) : IsUniform (.dict (.scalar kind) element)

theorem IsUniform.carries (uniform : expr.IsUniform) (packs : expr.Packs value) :
    expr.outline.Carries expr value := by
  induction uniform generalizing value with
  | scalar => exact .own packs
  | collection _ ih =>
      cases packs with
      | collection _ each => exact .collection fun item isItem => ih (each item isItem)
  | @tuple items _ alike ih =>
      cases packs with
      | tuple _ each =>
          cases items with
          | nil => exact .tuple (List.forall_mem_nil _)
          | cons first rest =>
              refine .tuple fun pair isPair => ?_
              have isItem := (List.of_mem_zip isPair).1
              rw [alike first List.mem_cons_self pair.1 isItem]
              exact ih pair.1 isItem (each pair isPair)
  | dict _ _ ih =>
      cases packs with
      | dict _ keys values =>
          exact .dict (fun entry isEntry => .own (keys entry isEntry))
            fun entry isEntry => ih (values entry isEntry)

end TypeExpr

end TypedReply
