import TypedReply.Proofs.Registry.Declared
import TypedReply.Proofs.Registry.Suits

/-!
# Descriptors that are fitted to a registry

A descriptor without choices and unions is fitted to a registry if every record that it reaches has no
class or the class that was built for it. The class has a type for each field that suits what the field
declares, so that the class may convert what was read but not spoil it. What a registry retains stays
fitted.
-/

namespace TypedReply

variable {registry : Registry} {descriptor : Descriptor}

/-! ## Descriptors without choices and unions -/

namespace Registry

/-- A descriptor is fitted to a registry: it is a scalar, a list, an object with text keys, optional,
or a record which has no class or the one that is found, with fields that suit. -/
inductive Fitted (registry : Registry) : Descriptor → Prop where
  | scalar (kind : ScalarKind) : Fitted registry (.scalar kind)
  | array (element : Descriptor) : Fitted registry (.array element)
  | map (element : Descriptor) : Fitted registry (.map (.scalar .string) element)
  | optional (inner : Descriptor) : Fitted registry (.optional inner)
  | object {record : FixedRecord} (classless : record.cls = none)
      (names : (typeKey :: record.fields.map (·.name)).Nodup) : Fitted registry (.fixed record)
  | record {descriptor : Descriptor} {record : RecordView} {cls : RecordClass}
      (isRecord : descriptor.record? registry.structs = some record)
      (placed : ∀ id, descriptor = .struct id → id < registry.structs.length)
      (isClass : record.cls = some cls.key) (known : registry.Knows cls.key)
      (found : registry.catalog.get? cls.key = some cls) (settled : cls.unresolvedNames = [])
      (names : (typeKey :: cls.fields.map (·.wireName)).Nodup)
      (suits : List.Forall₂ (ClassField.Suits registry.structs) cls.fields record.fields) :
      Fitted registry descriptor

namespace Fitted

theorem ne_union (fitted : registry.Fitted descriptor) (members : List Descriptor) :
    descriptor ≠ .union members := by
  rintro rfl
  cases fitted with
  | record isRecord => cases isRecord

theorem key_eq {key element : Descriptor} (fitted : registry.Fitted (.map key element)) :
    key = .scalar .string := by
  cases fitted with
  | map => rfl
  | record isRecord => cases isRecord

theorem enum?_eq (fitted : registry.Fitted descriptor) : descriptor.enum? = none := by
  cases fitted with
  | @record _ _ _ isRecord =>
      cases descriptor with
      | fixed | struct => simp [Descriptor.enum?]
      | _ => cases isRecord
  | _ => simp [Descriptor.enum?]

/-- The fields of a record go by different names other than that of the tag. -/
theorem names (fitted : registry.Fitted descriptor) {record : RecordView}
    (isRecord : descriptor.record? registry.structs = some record) :
    (typeKey :: record.fields.map (·.name)).Nodup := by
  cases fitted with
  | object _ names =>
      cases isRecord
      exact names
  | record isSame _ _ _ _ _ names suits =>
      cases isRecord.symm.trans isSame
      rwa [← map_eq_of_aligned suits fun _ _ _ suited => suited.name.symm]
  | _ => cases isRecord

theorem placed (fitted : registry.Fitted descriptor) :
    ∀ id, descriptor = .struct id → id < registry.structs.length := by
  cases fitted with
  | record _ placed => exact placed
  | _ => simp

theorem isNullable {field : Field}
    (fitted : field.type.Throughout registry.structs registry.Fitted) : field.IsNullable := by
  refine ⟨fitted.here.enum?_eq, ?_⟩
  cases type : field.type with
  | optional inner =>
      rw [type] at fitted
      simpa [Descriptor.widenedEnum?] using (fitted.of_part (.inner inner)).here.enum?_eq
  | union members => exact (fitted.here.ne_union members type).elim
  | _ => simp [Descriptor.widenedEnum?]

end Fitted

/-! ## Types of fitted descriptors -/

/-- The type of the values that a descriptor describes, perhaps null besides, suits the descriptor. -/
structure Typed (store : Store) (descriptor : Descriptor) (expr : TypeExpr) (nullable : Bool) :
    Prop where
  isAnnotated : TypeExpr.ofDescriptor store descriptor = .ok (expr.orNull nullable)
  single : expr.IsSingle
  suits : (expr.orNull nullable).Suits store descriptor
  settled : expr.unresolvedNames = []

/-- To admit null besides, a type is extended by null at most once. -/
theorem Typed.optional {store : Store} {expr : TypeExpr} {nullable : Bool}
    (typed : Typed store descriptor expr nullable) : Typed store (.optional descriptor) expr true where
  isAnnotated := by
    rw [TypeExpr.ofDescriptor, typed.isAnnotated]
    exact TypeExpr.optionalOf_orNull typed.single nullable
  single := typed.single
  suits := by
    have suits := typed.suits
    cases nullable with
    | false =>
        have others : [expr, .none].filter (!·.isNone) = [expr] := by
          cases typed.single <;> rfl
        exact .optional others (by simp [TypeExpr.isNone]) suits
    | true =>
        cases suits with
        | optional others nullable suits => exact .nested (.optional others nullable suits)
        | nested suits => exact .nested (.nested suits)
  settled := typed.settled

theorem Fitted.exists_typed (fitted : descriptor.Throughout registry.structs registry.Fitted) :
    ∃ expr nullable, Typed registry.structs descriptor expr nullable := by
  have ofRecord {descriptor : Descriptor} {record : RecordView}
      (isRecord : descriptor.record? registry.structs = some record)
      (fitted : registry.Fitted descriptor) :
      ∃ expr nullable, Typed registry.structs descriptor expr nullable := by
    cases fitted with
    | @object fixed classless =>
        refine ⟨.bareDict, false, ?_, .bareDict, .bareDict classless, rfl⟩
        rw [TypeExpr.ofDescriptor, classless]
        rfl
    | @record _ _ cls isRecord _ isClass =>
        exact ⟨.record cls.key, false, ofDescriptor_record isRecord isClass, .record _,
          .record isRecord isClass, rfl⟩
    | _ => cases isRecord
  induction descriptor using Descriptor.induction with
  | scalar kind => exact ⟨.scalar kind, false, rfl, .scalar kind, .scalar kind, rfl⟩
  | array element ih =>
      obtain ⟨expr, nullable, typed⟩ := ih (fitted.of_part (.element element))
      refine ⟨.collection .list (expr.orNull nullable), false, ?_, .list _, .list typed.suits, ?_⟩
      · rw [TypeExpr.ofDescriptor, typed.isAnnotated]
        rfl
      · rw [TypeExpr.unresolvedNames, TypeExpr.unresolvedNames_orNull, typed.settled]
  | map key element _ ih =>
      obtain rfl := fitted.here.key_eq
      obtain ⟨expr, nullable, typed⟩ := ih (fitted.of_part (.value _ element))
      refine ⟨.dict (.scalar .string) (expr.orNull nullable), false, ?_, .dict _, .dict typed.suits, ?_⟩
      · rw [TypeExpr.ofDescriptor, TypeExpr.ofDescriptor, typed.isAnnotated]
        rfl
      · rw [TypeExpr.unresolvedNames, TypeExpr.unresolvedNames_orNull, typed.settled]
        rfl
  | optional inner ih =>
      obtain ⟨expr, nullable, typed⟩ := ih (fitted.of_part (.inner inner))
      exact ⟨expr, true, typed.optional⟩
  | union members => exact (fitted.here.ne_union members rfl).elim
  | fixed record => exact ofRecord rfl fitted.here
  | struct id => exact ofRecord rfl fitted.here
  | _ => cases fitted.here with | record isRecord => cases isRecord

/-- The class field for a field of a fitted type suits the field. -/
theorem suits_of_fieldOf {field : Field} {held : ClassField}
    (fitted : field.type.Throughout registry.structs registry.Fitted)
    (isHeld : RecordClass.fieldOf registry.structs field = .ok held) :
    held.Suits registry.structs field ∧ held.type.unresolvedNames = [] := by
  obtain ⟨expr, nullable, typed⟩ := Fitted.exists_typed fitted
  cases (fieldOf_eq typed.isAnnotated typed.single).symm.trans isHeld
  refine ⟨⟨rfl, fun required => ?_, ?_⟩, ?_⟩
  · rw [classField, if_pos required]
    rfl
  · cases required : field.required with
    | true => exact .inl (by simpa [classField, required] using typed.suits)
    | false => exact .inr ⟨rfl, by simpa [classField, required] using typed.optional.suits⟩
  · rw [classField, TypeExpr.unresolvedNames_orNull, typed.settled]

/-! ## Later uses -/

section Retained

variable {after : Registry} (retains : registry.Retains after)
include retains

theorem Retains.fields (placed : ∀ id, descriptor = .struct id → id < registry.structs.length) :
    descriptor.fields after.structs = descriptor.fields registry.structs := by
  cases descriptor with
  | struct id => exact congrArg Struct.fields (retains.structs id (placed id rfl))
  | _ => rfl

/-- A type still suits a fitted descriptor. -/
theorem Retains.suits {expr : TypeExpr} (suits : expr.Suits registry.structs descriptor)
    (fitted : descriptor.Throughout registry.structs registry.Fitted) :
    expr.Suits after.structs descriptor := by
  induction suits with
  | scalar kind => exact .scalar kind
  | list _ ih => exact .list (ih (fitted.of_part (.element _)))
  | dict _ ih => exact .dict (ih (fitted.of_part (.value _ _)))
  | bareDict classless => exact .bareDict classless
  | record isRecord isClass =>
      exact .record ((retains.record? fitted.here.placed).trans isRecord) isClass
  | optional others nullable _ ih => exact .optional others nullable (ih (fitted.of_part (.inner _)))
  | nested _ ih => exact .nested (ih (fitted.of_part (.inner _)))

/-- A class field still suits a field of a fitted type. -/
theorem Retains.fieldSuits {field : ClassField} {declared : Field}
    (suits : field.Suits registry.structs declared)
    (fitted : declared.type.Throughout registry.structs registry.Fitted) :
    field.Suits after.structs declared where
  name := suits.name
  required := suits.required
  type := by
    rcases suits.type with suits | ⟨optional, suits⟩
    · exact .inl (retains.suits suits fitted)
    · refine .inr ⟨optional, retains.suits suits (.of_parts (.optional _) fun part isPart => ?_)⟩
      cases isPart with
      | inner => exact fitted
      | field isField => cases isField

theorem Retains.fitted (fitted : descriptor.Throughout registry.structs registry.Fitted) :
    descriptor.Throughout after.structs after.Fitted := by
  refine @Descriptor.Throughout.of_closed _ _ _
    (Descriptor.Throughout registry.structs registry.Fitted) ?_ ?_ fitted
  · intro descriptor part fitted isPart
    cases isPart with
    | element => exact fitted.of_part (.element _)
    | key => exact fitted.of_part (.key _ _)
    | value => exact fitted.of_part (.value _ _)
    | inner => exact fitted.of_part (.inner _)
    | member isMember => exact fitted.of_part (.member isMember)
    | field isField => exact fitted.of_part (.field (retains.fields fitted.here.placed ▸ isField))
  · intro descriptor fitted
    cases fitted.here with
    | scalar kind => exact .scalar kind
    | array element => exact .array element
    | map element => exact .map element
    | optional inner => exact .optional inner
    | object classless names => exact .object classless names
    | record isRecord placed isClass known found settled names suits =>
        have stillSuits := aligned_of_mem suits.flip fun declared isDeclared field suited =>
          retains.fieldSuits suited (fitted.of_part
            (.field (Descriptor.fields_of_record? isRecord ▸ isDeclared)))
        exact .record ((retains.record? placed).trans isRecord)
          (fun id isStruct => Nat.lt_of_lt_of_le (placed id isStruct) retains.places) isClass
          (retains.knows known) (retains.settled _ _ known found settled) settled names
          stillSuits.flip

theorem Retains.isTagged (fitted : registry.Fitted descriptor)
    (tagged : descriptor.IsTagged registry) : descriptor.IsTagged after := by
  intro record isRecord
  rw [retains.record? fitted.placed] at isRecord
  rw [tagged record isRecord]
  cases fitted with
  | object classless =>
      cases isRecord
      rw [show (FixedRecord.view _).cls = none from classless]
      rfl
  | record isSame _ isClass known found settled =>
      cases isRecord.symm.trans isSame
      rw [isClass, Option.bind_some, Option.bind_some, found,
        retains.settled _ _ known found settled]
  | _ => cases isRecord

end Retained

end Registry

end TypedReply
