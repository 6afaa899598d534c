import TypedReply.Proofs.Aligned
import TypedReply.Proofs.Value.Objects
import TypedReply.Proofs.Value.Parts
import Mathlib.Data.List.Nodup

/-!
# Equality up to the order of keys

Two values are the same data where their objects hold the same under every name, whatever the order
of their keys, and their lists hold the same item by item.
-/

namespace TypedReply

namespace Value

/-- Values that differ in the order of the keys of their objects only. -/
inductive SameUpToOrder : Value → Value → Prop where
  | refl (value : Value) : SameUpToOrder value value
  | list {items others : List Value} (each : List.Forall₂ SameUpToOrder items others) :
      SameUpToOrder (.list items) (.list others)
  | object {fields others : Fields} (distinct : (fields.map Prod.fst).Nodup)
      (othersDistinct : (others.map Prod.fst).Nodup)
      (each : ∀ name, Option.Rel SameUpToOrder (fields.get? name) (others.get? name)) :
      SameUpToOrder (Fields.node fields) (Fields.node others)

/-- Images of related optional values are related. -/
theorem rel_map {related implied : Value → Value → Prop} {f g : Value → Value}
    (implies : ∀ first second, related first second → implied (f first) (g second))
    {first second : Option Value} (rel : Option.Rel related first second) :
    Option.Rel implied (first.map f) (second.map g) := by
  cases rel with
  | none => exact .none
  | some related => exact .some (implies _ _ related)

theorem rel_refl (value : Option Value) : Option.Rel SameUpToOrder value value := by
  cases value with
  | none => exact .none
  | some value => exact .some (.refl value)

namespace SameUpToOrder

variable {fields others : Fields}

theorem get? (same : SameUpToOrder (Fields.node fields) (Fields.node others)) (name : String) :
    Option.Rel SameUpToOrder (fields.get? name) (others.get? name) := by
  generalize isNode : Fields.node fields = value at same
  generalize isOther : Fields.node others = other at same
  cases same with
  | refl =>
      obtain rfl := Value.ofFields_inj.mp (isNode.trans isOther.symm)
      exact rel_refl _
  | list => cases isNode
  | object _ _ each =>
      obtain rfl := Value.ofFields_inj.mp isNode
      obtain rfl := Value.ofFields_inj.mp isOther
      exact each name

end SameUpToOrder

/-! ## Named values side by side -/

section Aligned

variable {related : String → Value → Value → Prop} {fields others : Fields}
variable (aligned : List.Forall₂ (fun field other => field.1 = other.1 ∧
  related field.1 field.2 other.2) fields others)
include aligned

theorem get?_aligned (name : String) :
    Option.Rel (related name) (fields.get? name) (others.get? name) := by
  induction aligned with
  | nil => exact .none
  | @cons field other fields others isFirst _ ih =>
      obtain ⟨own, held⟩ := field
      obtain ⟨twin, kept⟩ := other
      obtain ⟨rfl, isRelated⟩ := isFirst
      rw [Fields.get?_cons, Fields.get?_cons]
      by_cases same : name = own
      · rw [if_pos same, if_pos same, same]
        exact .some isRelated
      · rw [if_neg same, if_neg same]
        exact ih

theorem put_aligned {name : String} {value twin : Value} (isRelated : related name value twin) :
    List.Forall₂ (fun field other => field.1 = other.1 ∧ related field.1 field.2 other.2)
      (fields.put name value) (others.put name twin) := by
  induction aligned with
  | nil => exact .cons ⟨rfl, isRelated⟩ .nil
  | @cons field other fields others isFirst rest ih =>
      obtain ⟨own, held⟩ := field
      obtain ⟨twinName, kept⟩ := other
      obtain ⟨rfl, isHeld⟩ := isFirst
      rw [Fields.put, Fields.put]
      by_cases same : own = name
      · rw [if_pos same, if_pos same]
        exact .cons ⟨rfl, isRelated⟩ rest
      · rw [if_neg same, if_neg same]
        exact .cons ⟨rfl, isHeld⟩ ih

/-- Aligned named values that are put one after another leave named values aligned. -/
theorem putAll_aligned {more moreOthers : Fields}
    (added : List.Forall₂ (fun field other => field.1 = other.1 ∧
      related field.1 field.2 other.2) more moreOthers) :
    List.Forall₂ (fun field other => field.1 = other.1 ∧ related field.1 field.2 other.2)
      (fields.putAll more) (others.putAll moreOthers) := by
  induction added generalizing fields others with
  | nil => exact aligned
  | @cons field other _ _ isFirst _ ih =>
      obtain ⟨own, held⟩ := field
      obtain ⟨twin, kept⟩ := other
      obtain ⟨rfl, isRelated⟩ := isFirst
      exact ih (put_aligned aligned isRelated)

end Aligned

/-- Objects that are made of aligned named values are the same up to the order of keys. -/
theorem SameUpToOrder.ofPairs {fields others : Fields}
    (aligned : List.Forall₂ (fun field other => field.1 = other.1 ∧ SameUpToOrder field.2 other.2)
      fields others) : SameUpToOrder (.object (Entries.ofPairs (entriesOf fields)))
        (.object (Entries.ofPairs (entriesOf others))) := by
  rw [ofPairs_entriesOf_eq, ofPairs_entriesOf_eq]
  have put := @putAll_aligned (fun _ => SameUpToOrder) [] [] .nil _ _ aligned
  exact .object (@Fields.nodup_putAll [] List.nodup_nil fields)
    (@Fields.nodup_putAll [] List.nodup_nil others) (get?_aligned put)

/-! ## Entries in another order -/

/-- Named values that are related under every name are aligned in some order. -/
theorem exists_perm_of_get? {related : String → Value → Value → Prop} {fields others : Fields}
    (distinct : (fields.map Prod.fst).Nodup) (othersDistinct : (others.map Prod.fst).Nodup)
    (each : ∀ name, Option.Rel (related name) (fields.get? name) (others.get? name)) :
    ∃ found : Fields, others.Perm found ∧ List.Forall₂ (fun field other =>
      field.1 = other.1 ∧ related field.1 field.2 other.2) fields found := by
  have partners : ∀ field ∈ fields, ∃ other : String × Value,
      field.1 = other.1 ∧ related field.1 field.2 other.2 ∧ others.get? field.1 = some other.2 := by
    intro field isField
    have isRelated := each field.1
    rw [Fields.get?_of_mem distinct isField] at isRelated
    cases isOther : others.get? field.1 with
    | none =>
        rw [isOther] at isRelated
        cases isRelated
    | some value =>
        rw [isOther] at isRelated
        cases isRelated with
        | some isRelated => exact ⟨(field.1, value), rfl, isRelated, rfl⟩
  obtain ⟨found, aligned⟩ := exists_aligned partners
  have names : fields.map Prod.fst = found.map Prod.fst :=
    map_eq_of_aligned aligned fun _ _ _ same => same.1
  refine ⟨found, ?_, aligned.imp fun _ _ same => ⟨same.1, same.2.1⟩⟩
  have foundDistinct : (found.map Prod.fst).Nodup := names ▸ distinct
  rw [List.perm_ext_iff_of_nodup (List.Nodup.of_map _ othersDistinct)
    (List.Nodup.of_map _ foundDistinct)]
  rintro ⟨name, value⟩
  constructor
  · intro isOther
    have isThere := Fields.get?_of_mem othersDistinct isOther
    have isRelated := each name
    rw [isThere] at isRelated
    cases isField : fields.get? name with
    | none =>
        rw [isField] at isRelated
        cases isRelated
    | some held =>
        obtain ⟨⟨other, kept⟩, isFound, same, -, isKept⟩ :=
          exists_right_of_mem aligned (Fields.mem_of_get? isField)
        obtain rfl : name = other := same
        obtain rfl : value = kept := Option.some.inj (isThere.symm.trans isKept)
        exact isFound
  · intro isFound
    obtain ⟨field, -, same, -, isOther⟩ := exists_left_of_mem aligned isFound
    obtain rfl : field.1 = name := same
    exact Fields.mem_of_get? isOther

theorem get?_of_perm {fields others : Fields} (distinct : (fields.map Prod.fst).Nodup)
    (perm : fields.Perm others) (name : String) : fields.get? name = others.get? name := by
  cases found : others.get? name with
  | none =>
      rw [Fields.get?_eq_none_iff] at found ⊢
      rwa [(perm.map Prod.fst).mem_iff]
  | some held => exact Fields.get?_of_mem distinct (perm.mem_iff.mpr (Fields.mem_of_get? found))

/-- Objects are the same up to the order of keys if the named values of one are those of the other in
another order. -/
theorem SameUpToOrder.of_perm {fields found others : Fields} (distinct : (fields.map Prod.fst).Nodup)
    (aligned : List.Forall₂ (fun field other => field.1 = other.1 ∧ SameUpToOrder field.2 other.2)
      fields found) (perm : found.Perm others) :
    SameUpToOrder (Fields.node fields) (Fields.node others) := by
  have names : fields.map Prod.fst = found.map Prod.fst :=
    map_eq_of_aligned aligned fun _ _ _ same => same.1
  have foundDistinct : (found.map Prod.fst).Nodup := names ▸ distinct
  apply SameUpToOrder.object distinct ((perm.map Prod.fst).nodup_iff.mp foundDistinct)
  intro name
  rw [← get?_of_perm foundDistinct perm]
  exact @get?_aligned (fun _ => SameUpToOrder) _ _ aligned name

theorem sameItems_of_aligned {items others : List Value}
    (aligned : List.Forall₂ (fun item other => ∀ value : Value, item.same value = other.same value)
      items others) (values : List Value) : sameItems items values = sameItems others values := by
  induction aligned generalizing values with
  | nil => rfl
  | cons first _ ih =>
      cases values with
      | nil => rfl
      | cons value values => rw [sameItems, sameItems, first, ih]

theorem entriesWithin_eq_all (entries values : Entries) :
    entriesWithin entries values = entries.all fun entry =>
      values.any fun value => entry.1.same value.1 && entry.2.same value.2 := by
  induction entries with
  | nil => rfl
  | cons entry entries ih => rw [entriesWithin, List.all_cons, ih]

namespace SameUpToOrder

variable {value other : Value} (same : SameUpToOrder value other)
include same

theorem isNull : value.isNull = other.isNull := by
  cases same <;> rfl

theorem isObject : value.isObject = other.isObject := by
  cases same <;> rfl

theorem text? : value.text? = other.text? := by
  cases same <;> rfl

theorem sameType (choice : Value) : value.sameType choice = other.sameType choice := by
  cases same <;> cases choice <;> rfl

theorem items? : Option.Rel (List.Forall₂ SameUpToOrder) value.items? other.items? := by
  cases same with
  | refl =>
      cases value.items? with
      | none => exact .none
      | some items => exact .some (List.forall₂_same.mpr fun item _ => .refl item)
  | list each => exact .some each
  | object => exact .none

theorem get?_rel (name : String) : Option.Rel SameUpToOrder (value.get? name) (other.get? name) := by
  cases same with
  | refl => exact rel_refl _
  | list => exact .none
  | object _ _ each =>
      rw [Fields.get?_node, Fields.get?_node]
      exact each name

theorem same_eq (choice : Value) : value.same choice = other.same choice := by
  induction value using Value.induction_parts generalizing other choice with
  | step value items entries =>
      cases same with
      | refl => rfl
      | list each =>
          cases choice with
          | list values =>
              rw [Value.same, Value.same]
              apply sameItems_of_aligned
              exact aligned_of_mem each fun item isItem _ same => items item isItem same
          | _ => rfl
      | @object fields others distinct othersDistinct each =>
          cases choice with
          | object values =>
              obtain ⟨found, perm, aligned⟩ :=
                @exists_perm_of_get? (fun _ => _) _ _ distinct othersDistinct each
              have written (fields : Fields) : (Fields.node fields).same (.object values) =
                  (fields.length == values.length && fields.all fun field => values.any fun value =>
                    (Value.str field.1).same value.1 && field.2.same value.2) := by
                change (Value.object (entriesOf fields)).same (.object values) = _
                rw [Value.same, entriesWithin_eq_all, entriesOf, List.length_map, List.all_map]
                rfl
              have within := aligned_of_mem aligned fun field isField other isSame =>
                And.intro isSame.1 ((entries _ rfl _ (List.mem_map_of_mem isField)).2 isSame.2)
              rw [written, written, perm.length_eq, ← within.length_eq, perm.all_eq]
              congr 1
              apply all_aligned within
              intro field other isSame
              congr 1
              funext value
              rw [isSame.1]
              exact congrArg (_ && ·) (isSame.2 value.2)
          | _ => rfl

end SameUpToOrder

end Value

end TypedReply
