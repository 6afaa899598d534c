import TypedReply.Json.Text
import TypedReply.Proofs.Value.PlainData

/-!
# Discrete data and its JSON text

Discrete data is plain data without fractions: null, Booleans, integers and texts, lists of discrete
data, and objects that hold discrete data under different names. All of it has a JSON text. Where keys
are sorted, the parts of an object stand in the order of their names.
-/

namespace TypedReply

namespace Value

/-- Null, a Boolean, an integer, a text, a list of discrete data, or an object that holds discrete data
under different names. -/
inductive IsDiscrete : Value → Prop where
  | null : IsDiscrete .null
  | bool (b : Bool) : IsDiscrete (.bool b)
  | int (n : Int) : IsDiscrete (.int n)
  | str (text : String) : IsDiscrete (.str text)
  | list {items : List Value} (each : ∀ item ∈ items, IsDiscrete item) : IsDiscrete (.list items)
  | object {fields : Fields} (distinct : (fields.map Prod.fst).Nodup)
      (each : ∀ field ∈ fields, IsDiscrete field.2) : IsDiscrete (Fields.node fields)

theorem IsDiscrete.item {items : List Value} (isDiscrete : (Value.list items).IsDiscrete) :
    ∀ item ∈ items, item.IsDiscrete := by
  cases isDiscrete with
  | list each => exact each

theorem IsDiscrete.field {fields : Fields} (isDiscrete : (Fields.node fields).IsDiscrete) :
    (fields.map Prod.fst).Nodup ∧ ∀ field ∈ fields, field.2.IsDiscrete := by
  generalize isNode : Fields.node fields = value at isDiscrete
  cases isDiscrete with
  | object distinct each =>
      obtain rfl := ofFields_inj.mp isNode
      exact ⟨distinct, each⟩
  | _ => cases isNode

end Value

namespace Json

variable {style : Style} {depth : Nat}

/-! ## Names in order -/

section Order

variable {β : Type}

def inOrder (fields : List (String × β)) : List (String × β) :=
  fields.mergeSort fun field other => !decide (other.1 < field.1)

theorem inOrder_perm (fields : List (String × β)) : (inOrder fields).Perm fields :=
  List.mergeSort_perm fields _

/-- Only names decide on the order. -/
theorem inOrder_map {γ : Type} (image : β → γ) (fields : List (String × β)) :
    inOrder (fields.map fun field => (field.1, image field.2)) =
      (inOrder fields).map fun field => (field.1, image field.2) := by
  rw [inOrder, inOrder, List.map_mergeSort]
  exact fun _ _ _ _ => rfl

theorem checkOrder_texts (names : List String) : checkOrder (names.map .str) = .ok () := by
  induction names with
  | nil => rfl
  | cons name names ih =>
      cases names with
      | nil => rfl
      | cons next names => exact ih

theorem sorted_texts (fields : List (String × β)) :
    sorted (fields.map fun field => (Value.str field.1, field.2)) =
      .ok ((inOrder fields).map fun field => (Value.str field.1, field.2)) := by
  have keys : (fields.map fun field => (Value.str field.1, field.2)).map Prod.fst =
      (fields.map Prod.fst).map .str := by
    rw [List.map_map, List.map_map]
    rfl
  rw [sorted, keys, checkOrder_texts, inOrder, List.map_mergeSort]
  · rfl
  · exact fun _ _ _ _ => rfl

end Order

/-! ## Texts -/

def written (style : Style) (depth : Nat) (value : Value) : List Char :=
  (write style depth value).toOption.getD []

def fieldText (style : Style) (depth : Nat) (field : String × Value) : List Char :=
  stringText field.1 ++ style.colon ++ written style depth field.2

def HasText (style : Style) (value : Value) : Prop :=
  ∀ depth, write style depth value = .ok (written style depth value)

theorem written_of_write {value : Value} {text : List Char}
    (isText : write style depth value = .ok text) : written style depth value = text := by
  rw [written, isText]
  rfl

theorem write_list {items : List Value} (each : ∀ item ∈ items, HasText style item) (depth : Nat) :
    write style depth (.list items) =
      .ok (style.enclose depth '[' ']' (items.map (written style (depth + 1)))) := by
  rw [write, writeItems_eq_mapM, mapM_eq_ok_map fun item isItem => each item isItem (depth + 1)]
  rfl

theorem write_node (sorts : style.sortKeys = true) {fields : Fields}
    (each : ∀ field ∈ fields, HasText style field.2) (depth : Nat) :
    write style depth (Fields.node fields) =
      .ok (style.enclose depth '\x7b' '\x7d' ((inOrder fields).map (fieldText style (depth + 1)))) := by
  have entries : writeEntries style (depth + 1) (Value.entriesOf fields) =
      (fields.map fun field => (field.1, write style (depth + 1) field.2)).map
        fun entry => (Value.str entry.1, entry.2) := by
    rw [writeEntries_eq_map, Value.entriesOf, List.map_map, List.map_map]
    rfl
  change write style depth (.object (Value.entriesOf fields)) = _
  simp only [write, sorts, if_true, entries]
  rw [sorted_texts, inOrder_map]
  apply bind_eq_ok_iff.mpr
  refine ⟨_, rfl, bind_eq_ok_iff.mpr ⟨(inOrder fields).map (fieldText style (depth + 1)), ?_, rfl⟩⟩
  rw [mapM_eq_ok_iff, List.forall₂_map_left_iff, List.forall₂_map_left_iff,
    List.forall₂_map_right_iff, List.forall₂_same]
  intro field isField
  rw [each field ((inOrder_perm fields).subset isField) (depth + 1)]
  rfl

/-- Discrete data has a text. -/
theorem hasText_of_isDiscrete (sorts : style.sortKeys = true) {value : Value}
    (isDiscrete : value.IsDiscrete) :
    HasText style value := by
  induction isDiscrete with
  | null => exact fun _ => rfl
  | bool => exact fun _ => rfl
  | int => exact fun _ => rfl
  | str => exact fun _ => rfl
  | list _ ih =>
      intro depth
      have isText := write_list ih depth
      rw [isText, written_of_write isText]
  | object _ _ ih =>
      intro depth
      have isText := write_node sorts ih depth
      rw [isText, written_of_write isText]

theorem written_list (sorts : style.sortKeys = true) {items : List Value}
    (isDiscrete : (Value.list items).IsDiscrete) (depth : Nat) : written style depth (.list items) =
      style.enclose depth '[' ']' (items.map (written style (depth + 1))) :=
  written_of_write
    (write_list (fun item isItem => hasText_of_isDiscrete sorts (isDiscrete.item item isItem)) depth)

theorem written_node (sorts : style.sortKeys = true) {fields : Fields}
    (isDiscrete : (Fields.node fields).IsDiscrete) (depth : Nat) : written style depth
    (Fields.node fields) =
      style.enclose depth '\x7b' '\x7d' ((inOrder fields).map (fieldText style (depth + 1))) :=
  written_of_write (write_node sorts
    (fun field isField => hasText_of_isDiscrete sorts (isDiscrete.field.2 field isField)) depth)

end Json

end TypedReply
