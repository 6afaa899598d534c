import TypedReply.Proofs.Record.Taking
import TypedReply.Proofs.Registry.Mirror
import TypedReply.Proofs.Registry.Suits
import TypedReply.Proofs.Value.Distinct
import TypedReply.Proofs.Value.IntText

/-!
# Types of containers

A type may be one of texts, integers or Booleans, or of a container whose parts have such types. What
such a type takes of a list or an object is made of what is taken of the parts. Only in sets is something
lost, namely what equals an earlier item.
-/

namespace TypedReply

/-! ## Types and their values -/

/-- The kinds of scalars that containers are made of. -/
def ScalarKind.isPacked : ScalarKind → Bool
  | .string => true
  | .int => true
  | .bool => true
  | _ => false

namespace Collection

/-- The collection of some items. -/
def of : Collection → List Value → Value
  | .list, items => .list items
  | .tuple, items => .tuple items
  | .set, items => .set items
  | .frozenset, items => .frozenset items

/-- Items that a collection can have: those of a set can be keys, and none equals an earlier one. -/
def Admits (collection : Collection) (items : List Value) : Prop :=
  collection.isUnique = true →
    Value.Apart items ∧ ∀ item ∈ items, item.unhashable? = none

theorem of_inj {collection : Collection} {items others : List Value} :
    collection.of items = collection.of others ↔ items = others := by
  cases collection <;> simp [of]

/-- As many values as a collection has items make up the collection only if they are the items. -/
theorem collect_eq_of_iff {collection : Collection} {items values : List Value}
    (admits : collection.Admits items) (sameLength : values.length = items.length) :
    collection.collect values = collection.of items ↔ values = items := by
  have unique (apart : Value.Apart items) : Value.distinct values = items ↔ values = items := by
    constructor
    · rintro rfl
      exact (Value.distinct_eq_self (Value.length_distinct_eq_iff.mp sameLength.symm)).symm
    · rintro rfl
      exact Value.distinct_eq_self apart
  cases collection with
  | list => simp [collect, of]
  | tuple => simp [collect, of]
  | set => simpa [collect, of] using unique (admits rfl).1
  | frozenset => simpa [collect, of] using unique (admits rfl).1

end Collection

namespace TypeExpr

/-- The types of texts, integers and Booleans and of containers whose parts have such types. -/
inductive IsPacked : TypeExpr → Prop where
  | scalar {kind : ScalarKind} (packed : kind.isPacked = true) : IsPacked (.scalar kind)
  | bare (collection : Collection) : IsPacked (.bare collection)
  | collection {collection : Collection} {element : TypeExpr} (isElement : IsPacked element) :
      IsPacked (.collection collection element)
  | tuple {items : List TypeExpr} (each : ∀ item ∈ items, IsPacked item) : IsPacked (.tuple items)
  | bareDict : IsPacked .bareDict
  | dict {kind : ScalarKind} {element : TypeExpr} (packed : kind.isPacked = true)
      (isElement : IsPacked element) : IsPacked (.dict (.scalar kind) element)

/-- The values of such types. What is in a container of which no type is given may be anything. -/
inductive Packs : TypeExpr → Value → Prop where
  | string (text : String) : Packs (.scalar .string) (.str text)
  | int (n : Int) : Packs (.scalar .int) (.int n)
  | bool (b : Bool) : Packs (.scalar .bool) (.bool b)
  | bare {collection : Collection} {items : List Value} (admits : collection.Admits items) :
      Packs (.bare collection) (collection.of items)
  | collection {collection : Collection} {element : TypeExpr} {items : List Value}
      (admits : collection.Admits items) (each : ∀ item ∈ items, Packs element item) :
      Packs (.collection collection element) (collection.of items)
  | tuple {exprs : List TypeExpr} {items : List Value} (sameLength : exprs.length = items.length)
      (each : ∀ pair ∈ exprs.zip items, Packs pair.1 pair.2) : Packs (.tuple exprs) (.tuple items)
  | bareDict {entries : Value.Entries} (apart : Value.Apart entries.keys) :
      Packs .bareDict (.object entries)
  | dict {key element : TypeExpr} {entries : Value.Entries} (apart : Value.Apart entries.keys)
      (keys : ∀ entry ∈ entries, Packs key entry.1)
      (values : ∀ entry ∈ entries, Packs element entry.2) :
      Packs (.dict key element) (.object entries)

/-- The descriptor of a type that mentions no class: a fixed sequence of items is described by the
first, and where no type is given by texts. -/
def outline : TypeExpr → Descriptor
  | .scalar kind => .scalar kind
  | .collection _ element => .array element.outline
  | .tuple (item :: _) => .array item.outline
  | .dict key element => .map key.outline element.outline
  | .bare _ => .array (.scalar .string)
  | .tuple [] => .array (.scalar .string)
  | .bareDict => .map (.scalar .string) (.scalar .string)
  | _ => .scalar .string

variable {registry : Registry} {expr : TypeExpr} {descriptor : Descriptor}

theorem IsPacked.eq_outline (packed : expr.IsPacked) (mirrored : expr.MirroredBy registry descriptor) :
    descriptor = expr.outline := by
  induction packed generalizing descriptor with
  | scalar => simpa only [MirroredBy, outline] using mirrored
  | bare => simpa only [MirroredBy, outline] using mirrored
  | collection _ ih =>
      simp only [MirroredBy] at mirrored
      obtain ⟨inner, mirrored, rfl⟩ := mirrored
      rw [ih mirrored, outline]
  | @tuple items _ ih =>
      cases items with
      | nil => simpa only [MirroredBy, outline] using mirrored
      | cons item rest =>
          simp only [MirroredBy] at mirrored
          obtain ⟨inner, mirrored, rfl⟩ := mirrored
          rw [ih item List.mem_cons_self mirrored, outline]
  | bareDict => simpa only [MirroredBy, outline] using mirrored
  | dict _ _ ih =>
      simp only [MirroredBy] at mirrored
      obtain ⟨_, inner, rfl, mirrored, rfl⟩ := mirrored
      rw [ih mirrored, outline, outline]

theorem IsPacked.unresolvedNames (packed : expr.IsPacked) : expr.unresolvedNames = [] := by
  induction packed with
  | collection _ ih => exact ih
  | tuple _ ih => exact unresolvedNamesOf_eq_nil ih
  | dict _ _ ih => exact ih
  | _ => rfl

theorem IsPacked.not_mem_classKeys (packed : expr.IsPacked) (key : ClassKey) :
    key ∉ expr.classKeys := by
  intro mentioned
  induction packed with
  | collection _ ih => exact ih mentioned
  | tuple _ ih =>
      obtain ⟨item, isItem, mentioned⟩ := mem_classKeysOf mentioned
      exact ih item isItem mentioned
  | dict _ _ ih => exact ih mentioned
  | _ => cases mentioned

theorem Packs.isNull_eq_false {value : Value} (packs : expr.Packs value) : value.isNull = false := by
  cases packs with
  | @bare collection => cases collection <;> rfl
  | @collection collection => cases collection <;> rfl
  | _ => rfl

end TypeExpr

/-! ## What is taken -/

namespace TypeExpr

variable {collection : Collection} {key element : TypeExpr} {results : List Value} {value : Value}

theorem takes_collection_iff : Takes (.collection collection element) (.list results) value ↔
    ∃ items, List.Forall₂ element.Takes results items ∧
      (collection.isUnique = true → ∀ item ∈ items, item.unhashable? = Option.none) ∧
        value = collection.collect items := by
  constructor
  · intro takes
    cases takes with
    | collection sameLength each usable =>
        exact ⟨_, List.forall₂_iff_zip.mpr ⟨sameLength, fun isPair => each _ isPair⟩, usable, rfl⟩
  · rintro ⟨items, aligned, usable, rfl⟩
    obtain ⟨sameLength, each⟩ := List.forall₂_iff_zip.mp aligned
    exact .collection sameLength (fun _ isPair => each isPair) usable

theorem takes_bare_iff : Takes (.bare collection) (.list results) value ↔
    (collection.isUnique = true → ∀ item ∈ results, item.unhashable? = Option.none) ∧
      value = collection.collect results := by
  constructor
  · intro takes
    cases takes with
    | bare usable => exact ⟨usable, rfl⟩
  · rintro ⟨usable, rfl⟩
    exact .bare usable

theorem takes_tuple_iff {exprs : List TypeExpr} {items : List Value}
    (sameLength : exprs.length = items.length) :
    Takes (.tuple exprs) (.list results) (.tuple items) ↔
      List.Forall₂ (fun result pair => Takes pair.1 result pair.2) results (exprs.zip items) := by
  constructor
  · intro takes
    cases takes with
    | tuple given _ each =>
        exact List.forall₂_iff_zip.mpr ⟨by simp [given, sameLength], fun isSlot => each _ isSlot⟩
  · intro aligned
    obtain ⟨given, each⟩ := List.forall₂_iff_zip.mp aligned
    exact .tuple (by simpa [sameLength] using given) sameLength fun _ isSlot => each isSlot

theorem takes_bareDict_iff {entries : Value.Entries} :
    Takes .bareDict (.object entries) value ↔ value = .object entries := by
  constructor
  · rintro ⟨⟩
    rfl
  · rintro rfl
    exact .bareDict entries

theorem takes_dict_iff {entries taken : Value.Entries} :
    Takes (.dict key element) (.object entries) (.object taken) ↔
      List.Forall₂ (fun entry pair => Takes key entry.1 pair.1 ∧ Takes element entry.2 pair.2)
        entries taken ∧ (∀ pair ∈ taken, pair.1.unhashable? = Option.none) ∧
          Value.Apart taken.keys := by
  constructor
  · intro takes
    cases takes with
    | dict sameLength keys values usable apart =>
        exact ⟨List.forall₂_iff_zip.mpr
          ⟨sameLength, fun isPair => ⟨keys _ isPair, values _ isPair⟩⟩, usable, apart⟩
  · rintro ⟨aligned, usable, apart⟩
    obtain ⟨sameLength, each⟩ := List.forall₂_iff_zip.mp aligned
    exact .dict sameLength (fun _ isPair => (each isPair).1) (fun _ isPair => (each isPair).2) usable
      apart

theorem takes_intText_iff {n : Int} : Takes (.scalar .int) (.str (Value.intText n)) (.int n) ↔
    (Value.intText n).length ≤ Numeral.maxDigits := by
  refine ⟨fun takes => ?_, .digits⟩
  generalize isText : Value.str (Value.intText n) = given at takes
  cases takes with
  | digits short => rwa [Value.str.inj isText]
  | _ => cases isText

/-- A kind of scalar takes one thing of a value. -/
theorem Takes.eq_of_scalar {kind : ScalarKind} {given other : Value}
    (takes : Takes (.scalar kind) given value) (takesOther : Takes (.scalar kind) given other) :
    value = other := by
  cases takes with
  | scalar isKind =>
      cases takesOther with
      | scalar => rfl
      | _ => cases isKind
  | member =>
      cases takesOther with
      | scalar isKind => cases isKind
      | member => rfl
  | @digits n =>
      generalize isText : Value.str (Value.intText n) = given at takesOther
      cases takesOther with
      | scalar isKind =>
          subst isText
          cases isKind
      | digits => rw [Value.intText_inj.mp (Value.str.inj isText)]
      | _ => cases isText
  | word b =>
      generalize isWord : Value.str (if b then "true" else "false") = given at takesOther
      cases takesOther with
      | scalar isKind =>
          subst isWord
          cases isKind
      | word c => cases b <;> cases c <;> simp_all
  | bit b =>
      cases takesOther with
      | scalar isKind => cases isKind
      | bit => rfl

end TypeExpr

end TypedReply
