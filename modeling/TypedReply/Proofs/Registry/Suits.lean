import TypedReply.Proofs.Record.Taking
import TypedReply.Proofs.Registry.Held

/-!
# What is taken stays held

The types of the fields of a class suit the descriptors of the fields of its record if they admit the
same values, or null besides. They take a value that is held as declared, and what they take of it is
held as declared as well.
-/

namespace TypedReply

variable {registry : Registry} {expr : TypeExpr} {descriptor : Descriptor}
  {value : Value}

/-! ## Types and descriptors -/

namespace TypeExpr

/-- A type suits a descriptor: it is that of the values which are held as the descriptor declares, for
scalars, lists, objects with text keys, records and null besides. -/
inductive Suits (store : Store) : TypeExpr → Descriptor → Prop where
  | scalar (kind : ScalarKind) : Suits store (.scalar kind) (.scalar kind)
  | list {element : TypeExpr} {inner : Descriptor} (suits : Suits store element inner) :
      Suits store (.collection .list element) (.array inner)
  | dict {element : TypeExpr} {inner : Descriptor} (suits : Suits store element inner) :
      Suits store (.dict (.scalar .string) element) (.map (.scalar .string) inner)
  | bareDict {record : FixedRecord} (classless : record.cls = .none) :
      Suits store .bareDict (.fixed record)
  | record {key : ClassKey} {descriptor : Descriptor} {record : RecordView}
      (isRecord : descriptor.record? store = some record) (isClass : record.cls = some key) :
      Suits store (.record key) descriptor
  | optional {members : List TypeExpr} {inner : TypeExpr} {descriptor : Descriptor}
      (others : members.filter (!·.isNone) = [inner]) (nullable : members.any isNone = true)
      (suits : Suits store inner descriptor) : Suits store (.union members) (.optional descriptor)
  | nested {expr : TypeExpr} {descriptor : Descriptor}
      (suits : Suits store expr (.optional descriptor)) :
      Suits store expr (.optional (.optional descriptor))

namespace Suits

variable {store : Store}

theorem enum?_eq (suits : expr.Suits store descriptor) :
    descriptor.enum? = .none ∧ descriptor.widenedEnum? = .none := by
  induction suits with
  | optional _ _ _ ih =>
      exact ⟨by simp [Descriptor.enum?], by simpa [Descriptor.widenedEnum?] using ih.1⟩
  | @record _ descriptor _ isRecord =>
      cases descriptor with
      | fixed | struct => exact ⟨by simp [Descriptor.enum?], by simp [Descriptor.widenedEnum?]⟩
      | _ => cases isRecord
  | _ => exact ⟨by simp [Descriptor.enum?], by simp [Descriptor.widenedEnum?, Descriptor.enum?]⟩

theorem enum?_of_optional (suits : expr.Suits store (.optional descriptor)) :
    descriptor.enum? = .none ∧ descriptor.widenedEnum? = .none := by
  cases suits with
  | record isRecord => cases isRecord
  | optional _ _ suits => exact suits.enum?_eq
  | nested suits => exact suits.enum?_eq

theorem unchosen (suits : expr.Suits store descriptor) : expr.Unchosen := by
  induction suits with
  | scalar kind => exact .scalar kind
  | list => exact .collection .list _
  | dict => exact .dict _ _
  | bareDict => exact .bareDict
  | record => exact .record _
  | optional others _ _ ih => exact .optional others ih
  | nested _ ih => exact ih

theorem takes_null (suits : expr.Suits store (.optional descriptor)) : expr.Takes .null .null := by
  generalize isOptional : descriptor.optional = optional at suits
  induction suits generalizing descriptor with
  | optional _ nullable => exact .absent nullable
  | nested _ ih => exact ih rfl
  | record isRecord =>
      subst isOptional
      cases isRecord
  | _ => cases isOptional

end Suits

theorem exists_takes_of_matchesScalar {kind : ScalarKind} (typed : matchesScalar kind value = true) :
    ∃ taken, (TypeExpr.scalar kind).Takes value taken ∧ matchesScalar kind taken = true := by
  unfold matchesScalar at typed
  split at typed
  · exact ⟨_, .scalar rfl, rfl⟩
  · cases typed
  next notBool =>
    obtain ⟨n, isInteger⟩ := Option.isSome_iff_exists.mp typed
    unfold Value.integer? at isInteger
    split at isInteger
    · exact (notBool _ rfl).elim
    · exact ⟨_, .scalar rfl, rfl⟩
    · exact ⟨_, .member rfl, rfl⟩
    · cases isInteger
  · exact ⟨_, .scalar rfl, rfl⟩
  · exact ⟨_, .scalar rfl, rfl⟩
  · exact ⟨_, .scalar rfl, rfl⟩
  · exact ⟨_, .scalar rfl, rfl⟩
  · cases typed

end TypeExpr

/-! ## Values -/

/-- What is held as declared is taken, and what is taken is held so. The induction is on what is held;
instances are kept as they are. -/
theorem Registry.Holds.exists_takes (holds : registry.Holds descriptor value)
    (suits : expr.Suits registry.structs descriptor) :
    ∃ taken, expr.Takes value taken ∧ registry.Holds descriptor taken := by
  induction holds generalizing expr with
  | scalar typed =>
      cases suits with
      | scalar kind =>
          obtain ⟨taken, takes, typed⟩ := TypeExpr.exists_takes_of_matchesScalar typed
          exact ⟨taken, takes, .scalar typed⟩
      | record isRecord => cases isRecord
  | @array element items each ih =>
      cases suits with
      | @list inner _ suits =>
          obtain ⟨results, aligned⟩ := exists_aligned fun item isItem => ih item isItem suits
          refine ⟨.list results, .list_of_aligned (aligned.imp fun _ _ related => related.1), ?_⟩
          refine .array fun result isResult => ?_
          obtain ⟨_, -, -, holds⟩ := exists_left_of_mem aligned isResult
          exact holds
      | record isRecord => cases isRecord
  | @map _ element fields distinct _ ih =>
      cases suits with
      | @dict inner _ suits =>
          have each (field) (isField : field ∈ fields) : ∃ result : String × Value,
              (field.1 = result.1 ∧ inner.Takes field.2 result.2) ∧
                registry.Holds element result.2 := by
            obtain ⟨taken, takes, isHeld⟩ := ih field isField suits
            exact ⟨(field.1, taken), ⟨rfl, takes⟩, isHeld⟩
          obtain ⟨results, aligned⟩ := exists_aligned each
          have names : fields.map Prod.fst = results.map Prod.fst :=
            map_eq_of_aligned aligned fun _ _ _ related => related.1.1
          refine ⟨.ofFields results,
            .dict_of_aligned distinct (aligned.imp fun _ _ related => related.1), ?_⟩
          refine .map (names ▸ distinct) fun result isResult => ?_
          obtain ⟨_, -, -, isHeld⟩ := exists_left_of_mem aligned isResult
          exact isHeld
      | record isRecord => cases isRecord
  | absent plain => exact ⟨.null, suits.takes_null, .absent plain⟩
  | present holds ih =>
      cases suits with
      | optional others _ suits =>
          obtain ⟨taken, takes, holds⟩ := ih suits
          exact ⟨taken, .present others takes, .present holds⟩
      | nested suits =>
          obtain ⟨taken, takes, holds⟩ := ih suits
          exact ⟨taken, takes, .present holds⟩
      | record isRecord => cases isRecord
  | @record descriptor record cls slots isRecord isClass found declared fields distinct agree each =>
      cases suits with
      | record isSame isKey =>
          cases isRecord.symm.trans isSame
          cases isClass.symm.trans isKey
          exact ⟨_, @TypeExpr.Takes.record cls.tag _,
            .record isRecord isClass found declared fields distinct agree each⟩
      | bareDict classless =>
          cases isRecord
          cases isClass.symm.trans classless
      | _ => cases isRecord
  | object classless declared distinct nullable each =>
      cases suits with
      | bareDict =>
          exact ⟨_, .bareDict _, .object classless declared distinct nullable each⟩
      | record isRecord isClass =>
          cases isRecord
          cases isClass.symm.trans classless
  | _ =>
      cases suits with
      | record isRecord => cases isRecord

/-! ## Instances -/

/-- A field of a class suits a declared field: it goes by the name, is never left out if it must be
given, and its type suits that of the declared field, or that of null besides where it need not be
given. -/
structure ClassField.Suits (store : Store) (field : ClassField) (declared : Field) : Prop where
  name : declared.name = field.wireName
  required : declared.required = true → field.presence.isNullDefault = false
  type : field.type.Suits store declared.type ∨
    declared.required = false ∧ field.type.Suits store (.optional declared.type)

namespace ClassField.Suits

variable {field : ClassField} {declared : Field}

theorem isNullable {store : Store} (suits : field.Suits store declared) : declared.IsNullable := by
  rcases suits.type with suits | ⟨-, suits⟩
  · exact suits.enum?_eq
  · exact suits.enum?_of_optional

theorem agrees {store : Store} {slot : Slot} (suits : slot.field.Suits store slot.declared) :
    slot.Agrees :=
  ⟨suits.name, suits.required, fun _ => suits.isNullable⟩

/-- What a class holds of a value that is held as declared, or of null that need not be given, is held
as such. -/
theorem holds_of_taken (suits : field.Suits registry.structs declared)
    (holds : ¬declared.IsLacking value → registry.Holds declared.type value) {held : Value}
    (isTaken : ∀ taken, field.type.Takes value taken → held = taken)
    (keepsNull : value = .null → field.type.Unchosen → held = .null)
    (notLacking : ¬declared.IsLacking held) : registry.Holds declared.type held := by
  rcases suits.type with suitsType | ⟨optional, suitsType⟩
  · by_cases lacking : declared.IsLacking value
    · exact (notLacking ⟨lacking.1, keepsNull lacking.2 suitsType.unchosen⟩).elim
    · obtain ⟨taken, takes, isHeld⟩ := (holds lacking).exists_takes suitsType
      exact isTaken taken takes ▸ isHeld
  · have inOptional : registry.Holds (.optional declared.type) value := by
      by_cases lacking : declared.IsLacking value
      · rw [lacking.2]
        exact .absent suits.isNullable.1
      · exact .present (holds lacking)
    obtain ⟨taken, takes, isHeld⟩ := inOptional.exists_takes suitsType
    obtain rfl := isTaken taken takes
    cases isHeld with
    | absent => exact (notLacking ⟨optional, rfl⟩).elim
    | present holds => exact holds
    | record isRecord => cases isRecord

end ClassField.Suits

/-- A class makes of an object that holds the fields of a record as declared an instance that is held as
the record declares. -/
theorem holds_of_validate (takesValues : registry.library.TakesValues) {record : RecordView}
    {cls : RecordClass} (isRecord : descriptor.record? registry.structs = some record)
    (isClass : record.cls = some cls.key) (found : registry.catalog.get? cls.key = some cls)
    (names : (typeKey :: cls.fields.map (·.wireName)).Nodup)
    (suits : List.Forall₂ (ClassField.Suits registry.structs) cls.fields record.fields)
    {pairs : List (Field × Value)} (declared : record.fields = pairs.map Prod.fst)
    (holds : ∀ pair ∈ pairs, ¬pair.1.IsLacking pair.2 → registry.Holds pair.1.type pair.2)
    (made : registry.library.validate registry.catalog cls.key
      (.ofFields (pairs.map fun pair => (pair.1.name, pair.2))) = .ok value) :
    registry.Holds descriptor value := by
  have distinct := (List.nodup_cons.mp names).2
  have sameNames : cls.fields.map (·.wireName) = pairs.map (·.1.name) := by
    calc _ = record.fields.map (·.name) :=
          map_eq_of_aligned suits fun _ _ _ suited => suited.name.symm
      _ = pairs.map (·.1.name) := by rw [declared, List.map_map]; rfl
  have isOffered : Value.ofFields (pairs.map fun pair => (pair.1.name, pair.2)) =
      cls.offering (pairs.map Prod.snd) := by
    rw [RecordClass.offering, sameNames, List.zip_map']
  have complete : (pairs.map Prod.snd).length = cls.fields.length := by
    rw [List.length_map, suits.length_eq, declared, List.length_map]
  rw [isOffered] at made
  obtain ⟨held, rfl, sameLength, areHeld⟩ := takesValues.holds found distinct complete made
  obtain ⟨slots, isDeclared, isFields, rfl, related⟩ := Slot.exists_of_aligned suits sameLength
  have isHolding : cls.holding (slots.map (·.value)) = .record cls.tag (slots.map (·.held)) := by
    rw [RecordClass.holding, isFields, List.map_map, List.zip_map']
    rfl
  have sameFields : List.Forall₂ (fun (pair : Field × Value) (slot : Slot) => pair.1 = slot.declared)
      pairs slots := by
    have same : List.Forall₂ Eq (pairs.map Prod.fst) (slots.map (·.declared)) := by
      rw [List.forall₂_eq_eq_eq]
      exact declared.symm.trans isDeclared
    exact List.forall₂_map_left_iff.mp (List.forall₂_map_right_iff.mp same)
  rw [isFields, List.zip_map', List.forall₂_map_left_iff, List.forall₂_map_right_iff] at areHeld
  rw [isFields, List.map_map] at names
  rw [isHolding]
  refine .record isRecord isClass found isDeclared isFields names
    (fun slot isSlot => (related slot isSlot).agrees) fun slot isSlot notLacking => ?_
  obtain ⟨pair, isPair, same, isTaken, keepsNull⟩ :=
    exists_left_of_mem (sameFields.mp (fun _ _ same held => And.intro same held) areHeld) isSlot
  exact (related slot isSlot).holds_of_taken (same ▸ holds pair isPair) isTaken keepsNull notLacking

end TypedReply
