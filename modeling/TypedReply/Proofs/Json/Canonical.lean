import TypedReply.Json.Stable
import TypedReply.Proofs.Json.Reading

/-!
# Canonical texts

Where keys are sorted, data that is the same up to the order of keys has one text: names that are all
different can be sorted in one way only. Since the text shows the data, no other data has it. The stable
text and the text that a fingerprint is taken of are such texts.
-/

namespace TypedReply

namespace Value

variable {value other : Value}

/-- What is the same as an object up to the order of keys is an object that holds the same, put in
another order. -/
theorem SameUpToOrder.exists_perm_node {fields : Fields} (distinct : (fields.map Prod.fst).Nodup)
    (same : (Fields.node fields).SameUpToOrder other) : ∃ others found : Fields,
      other = Fields.node others ∧ (others.map Prod.fst).Nodup ∧ others.Perm found ∧
        List.Forall₂ (fun field other => field.1 = other.1 ∧ field.2.SameUpToOrder other.2)
          fields found := by
  generalize isNode : Fields.node fields = value at same
  cases same with
  | refl =>
      exact ⟨fields, fields, isNode.symm, distinct, .refl _,
        List.forall₂_same.mpr fun field _ => ⟨rfl, .refl _⟩⟩
  | list => cases isNode
  | @object _ others _ othersDistinct each =>
      obtain rfl := Value.ofFields_inj.mp isNode
      obtain ⟨found, perm, aligned⟩ :=
        @exists_perm_of_get? (fun _ => SameUpToOrder) _ _ distinct othersDistinct each
      exact ⟨others, found, rfl, othersDistinct, perm, aligned⟩

theorem IsDiscrete.of_same (isDiscrete : value.IsDiscrete) (same : value.SameUpToOrder other) :
    other.IsDiscrete := by
  induction isDiscrete generalizing other with
  | @list items each ih =>
      cases same with
      | refl => exact .list each
      | list aligned =>
          apply IsDiscrete.list
          intro other isOther
          obtain ⟨item, isItem, isSame⟩ := exists_left_of_mem aligned isOther
          exact ih item isItem isSame
  | object distinct _ ih =>
      obtain ⟨others, found, rfl, othersDistinct, perm, aligned⟩ := same.exists_perm_node distinct
      apply IsDiscrete.object othersDistinct
      intro other isOther
      obtain ⟨field, isField, -, isSame⟩ := exists_left_of_mem aligned (perm.mem_iff.mp isOther)
      exact ih field isField isSame
  | null | bool | int | str =>
      cases same with
      | refl => constructor

end Value

namespace Json

variable {style : Style}

theorem inOrder_eq_of_perm {β : Type} {fields others : List (String × β)}
    (distinct : (fields.map Prod.fst).Nodup) (perm : fields.Perm others) :
    inOrder fields = inOrder others := by
  have precedes {field other : String × β} :
      (!decide (other.1 < field.1)) = true ↔ field.1 ≤ other.1 := by
    rw [Bool.not_eq_true', decide_eq_false_iff_not, String.not_lt]
  have sorted (fields : List (String × β)) :
      (inOrder fields).Pairwise fun field other => field.1 ≤ other.1 := by
    apply List.Pairwise.imp precedes.mp
    apply List.pairwise_mergeSort
    · intro first second third before after
      exact precedes.mpr (String.le_trans (precedes.mp before) (precedes.mp after))
    · intro first second
      rw [Bool.or_eq_true, precedes, precedes]
      exact String.le_total first.1 second.1
  have sorts := ((inOrder_perm fields).trans perm).trans (inOrder_perm others).symm
  apply List.Perm.eq_of_pairwise _ (sorted fields) (sorted others) sorts
  intro field other isField isOther before after
  have isThere := perm.mem_iff.mpr ((inOrder_perm others).subset isOther)
  exact List.inj_on_of_nodup_map distinct ((inOrder_perm fields).subset isField) isThere
    (String.le_antisymm before after)

theorem written_eq_of_same (sorts : style.sortKeys = true) {value other : Value}
    (isDiscrete : value.IsDiscrete) (same : value.SameUpToOrder other) (depth : Nat) :
    written style depth value = written style depth other := by
  have isOther := isDiscrete.of_same same
  induction isDiscrete generalizing other depth with
  | @list items each ih =>
      cases same with
      | refl => rfl
      | list aligned =>
          have parts := map_eq_of_aligned aligned fun item isItem other isSame =>
            ih item isItem isSame (depth + 1) ((each item isItem).of_same isSame)
          rw [written_list sorts (.list each), written_list sorts isOther, parts]
  | @object fields distinct each ih =>
      obtain ⟨others, found, rfl, othersDistinct, perm, aligned⟩ := same.exists_perm_node distinct
      -- Names decide on the order, so that sorting comes last: what is sorted is known by then.
      have parts : fields.map (fun field => (field.1, written style (depth + 1) field.2)) =
          found.map fun field => (field.1, written style (depth + 1) field.2) :=
        map_eq_of_aligned aligned fun field isField other isSame => by
          rw [isSame.1, ih field isField isSame.2 (depth + 1) ((each field isField).of_same isSame.2)]
      have ordered : inOrder (fields.map fun field => (field.1, written style (depth + 1) field.2)) =
          inOrder (others.map fun field => (field.1, written style (depth + 1) field.2)) := by
        rw [parts]
        apply inOrder_eq_of_perm _ (perm.symm.map _)
        rw [← parts, List.map_map]
        exact distinct
      rw [written_node sorts (.object distinct each), written_node sorts isOther]
      rw [inOrder_map, inOrder_map] at ordered
      have texts := congrArg (List.map fun part => stringText part.1 ++ style.colon ++ part.2) ordered
      rw [List.map_map, List.map_map] at texts
      exact congrArg (style.enclose depth '\x7b' '\x7d') texts
  | null | bool | int | str =>
      cases same with
      | refl => rfl

theorem written_eq_iff (comma : style.comma.head? = some ',') (sorts : style.sortKeys = true)
    {value other : Value} (isDiscrete : value.IsDiscrete) (isOther : other.IsDiscrete) :
    written style 0 value = written style 0 other ↔ value.SameUpToOrder other := by
  refine ⟨fun same => ?_, fun same => written_eq_of_same sorts isDiscrete same 0⟩
  have ended : StopsNumber [] := fun c isFirst => nomatch isFirst
  have sameText := congrArg (· ++ []) same
  exact (isShown comma sorts isDiscrete isOther ended ended sameText).1

/-- A text in a style with sorted keys is that of all data that is the same up to the order of keys, and
of no other. -/
theorem exists_text_iff (comma : style.comma.head? = some ',') (sorts : style.sortKeys = true)
    {value other : Value} (isDiscrete : value.IsDiscrete) (isOther : other.IsDiscrete) :
    ∃ first second, text style value = .ok first ∧ text style other = .ok second ∧
      (first = second ↔ value.SameUpToOrder other) := by
  have isText {value : Value} (isDiscrete : value.IsDiscrete) :
      text style value = .ok (String.ofList (written style 0 value)) := by
    rw [text, hasText_of_isDiscrete sorts isDiscrete]
    rfl
  exact ⟨_, _, isText isDiscrete, isText isOther,
    String.ofList_inj.trans (written_eq_iff comma sorts isDiscrete isOther)⟩

/-- The stable text, and the text that a fingerprint is taken of, is that of all data that is the same up
to the order of keys at any depth, and of no other. -/
theorem stable_texts_canonical {value other : Value} (isDiscrete : value.IsDiscrete)
    (isOther : other.IsDiscrete) :
    (∃ first second, stableText value = .ok first ∧ stableText other = .ok second ∧
      (first = second ↔ value.SameUpToOrder other)) ∧
    ∃ first second, text compact value = .ok first ∧ text compact other = .ok second ∧
      fingerprint value = .ok (fingerprintOf 16 first) ∧
      fingerprint other = .ok (fingerprintOf 16 second) ∧
      (first = second ↔ value.SameUpToOrder other) := by
  refine ⟨exists_text_iff rfl rfl isDiscrete isOther, ?_⟩
  obtain ⟨first, second, isFirst, isSecond, canonical⟩ :=
    @exists_text_iff compact rfl rfl _ _ isDiscrete isOther
  refine ⟨first, second, isFirst, isSecond, ?_, ?_, canonical⟩
  · rw [fingerprint, isFirst]
    rfl
  · rw [fingerprint, isSecond]
    rfl

def innerFields : Fields := [("size", .int 1), ("name", .null)]

/-- The named values of an object that holds a list with an object. -/
def outerFields (inner : Fields) : Fields := [("on", .bool true), ("parts", .list [Fields.node inner])]

/-- Keys in another order at two depths leave the texts. A number in place of a Boolean does not. -/
theorem stable_texts_reversed :
    stableText (Fields.node (outerFields innerFields)) =
        stableText (Fields.node (outerFields innerFields.reverse).reverse) ∧
      fingerprint (Fields.node (outerFields innerFields)) =
        fingerprint (Fields.node (outerFields innerFields.reverse).reverse) ∧
      stableText (.bool true) ≠ stableText (.int 1) := by
  have sameInner : (Fields.node innerFields).SameUpToOrder (Fields.node innerFields.reverse) :=
    .of_perm (by decide) (List.forall₂_same.mpr fun _ _ => ⟨rfl, .refl _⟩) (List.reverse_perm _).symm
  have same : (Fields.node (outerFields innerFields)).SameUpToOrder
      (Fields.node (outerFields innerFields.reverse).reverse) :=
    @Value.SameUpToOrder.of_perm _ (outerFields innerFields.reverse) _ (by decide)
      (.cons ⟨rfl, .refl _⟩ (.cons ⟨rfl, .list (.cons sameInner .nil)⟩ .nil)) (List.reverse_perm _).symm
  have isInner : (Fields.node innerFields).IsDiscrete := by
    apply Value.IsDiscrete.object (by decide)
    simp only [innerFields, List.forall_mem_cons, List.not_mem_nil, false_implies,
      implies_true, and_true]
    exact ⟨.int 1, .null⟩
  have isDiscrete : (Fields.node (outerFields innerFields)).IsDiscrete := by
    apply Value.IsDiscrete.object (by decide)
    simp only [outerFields, List.forall_mem_cons, List.not_mem_nil, false_implies,
      implies_true, and_true]
    exact ⟨.bool true, .list (List.forall_mem_singleton.mpr isInner)⟩
  obtain ⟨⟨first, second, isFirst, isSecond, stableSame⟩, hashed, hashedOther, -, -, isHash, isHashOther,
    hashedSame⟩ := stable_texts_canonical isDiscrete (isDiscrete.of_same same)
  obtain ⟨⟨ofTrue, ofOne, isTrue, isOne, differ⟩, -⟩ := stable_texts_canonical (.bool true) (.int 1)
  refine ⟨?_, ?_, fun sameText => ?_⟩
  · rw [isFirst, isSecond, stableSame.mpr same]
  · rw [isHash, isHashOther, hashedSame.mpr same]
  · rw [isTrue, isOne] at sameText
    cases differ.mp (Except.ok.inj sameText)

end Json

end TypedReply
