import TypedReply.Proofs.Coerce.Members
import TypedReply.Proofs.Json.Characters
import TypedReply.Proofs.Json.Written
import TypedReply.Proofs.Value.KeyOrder

/-!
# Reading JSON texts

The text of discrete data shows the data, up to the order of keys, and where it ends. The first character
tells the kind of the value. A text runs to its closing quote, since no character is escaped to one; an
integer runs as far as its digits do; and what follows an item is a comma or the closing bracket.
-/

namespace TypedReply.Json

open Text

variable {style : Style} {depth : Nat} {rest last : List Char}

/-! ## Integers -/

def IsNumeral (c : Char) : Prop := c.isDigit = true ∨ c = '-'

instance (c : Char) : Decidable (IsNumeral c) := inferInstanceAs (Decidable (_ ∨ _))

theorem isNumeral_of_mem_integerText {n : Int} {c : Char} (isChar : c ∈ integerText n) :
    IsNumeral c := by
  rw [integerText, List.mem_append] at isChar
  rcases isChar with isSign | isDigit
  · right
    split at isSign
    · exact List.mem_singleton.mp isSign
    · cases isSign
  · exact .inl (Value.isDigit_of_mem_decimalDigits isDigit)

theorem integerText_append_inj {m n : Int} (stops : ∀ c ∈ rest.head?, ¬IsNumeral c)
    (stopsOther : ∀ c ∈ last.head?, ¬IsNumeral c)
    (same : integerText m ++ rest = integerText n ++ last) : m = n ∧ rest = last := by
  obtain ⟨sameText, sameRest⟩ := run_unique (fun _ => isNumeral_of_mem_integerText)
    (fun _ => isNumeral_of_mem_integerText) stops stopsOther same
  exact ⟨Value.intText_inj.mp (congrArg String.ofList sameText), sameRest⟩

/-! ## Items between brackets -/

def IsClosing (c : Char) : Prop := c = ']' ∨ c = '\x7d'

instance (c : Char) : Decidable (IsClosing c) := inferInstanceAs (Decidable (_ ∨ _))

def StopsNumber (rest : List Char) : Prop := ∀ c ∈ rest.head?, ¬IsNumeral c

/-- Whether the break before a closing bracket is in front, or the bracket itself. -/
def ClosesItems (rest : List Char) : Prop := ∃ c ∈ rest.head?, c = '\n' ∨ IsClosing c

theorem ClosesItems.stopsNumber (closes : ClosesItems rest) : StopsNumber rest := by
  obtain ⟨c, isFirst, isEnd⟩ := closes
  intro d isHead
  obtain rfl : c = d := Option.some.inj (isFirst.symm.trans isHead)
  rcases isEnd with rfl | rfl | rfl <;> simp [IsNumeral]

theorem closesItems_lineBreak (style : Style) (depth : Nat) {right : Char} (isClosing : IsClosing right)
    (rest : List Char) : ClosesItems (style.lineBreak depth ++ right :: rest) := by
  unfold Style.lineBreak
  cases style.indent with
  | none => exact ⟨right, rfl, .inr isClosing⟩
  | some width => exact ⟨'\n', rfl, .inl rfl⟩

theorem append_intercalate (separator part : List Char) (parts : List (List Char)) :
    separator ++ separator.intercalate (part :: parts) =
      (part :: parts).flatMap (separator ++ ·) := by
  induction parts generalizing part with
  | nil => simp
  | cons next parts ih =>
      rw [List.intercalate_cons_cons, List.flatMap_cons, ← ih, List.append_assoc, List.append_assoc]

section Enclosed

variable {α : Type} {part : α → List Char} {related : α → α → Prop} {values others : List α}
variable {left right : Char}

/-- After a comma, each of several parts between brackets is preceded by one. -/
theorem exists_inside (style : Style) (depth : Nat) (left right : Char) (part : α → List Char)
    (value : α) (values : List α) : ∃ inside,
      style.enclose depth left right ((value :: values).map part) = left :: inside ∧
      ∀ rest, style.comma ++ (inside ++ rest) =
        (value :: values).flatMap (fun value => style.comma ++ style.lineBreak
          (depth + 1) ++ part value) ++
          (style.lineBreak depth ++ right :: rest) := by
  refine ⟨_, rfl, fun rest => ?_⟩
  have parts := append_intercalate (style.comma ++ style.lineBreak (depth + 1)) (part value)
    (values.map part)
  rw [← List.map_cons, List.flatMap_map] at parts
  rw [← parts]
  simp only [List.append_assoc, List.cons_append, List.nil_append, List.map_cons]

theorem enclose_ne_empty (isClosing : IsClosing right) {value : α}
    (begins : ∃ c ∈ (part value).head?, ¬IsClosing c) (values : List α) :
    style.enclose depth left right ((value :: values).map part) ++ rest ≠ left :: right :: last := by
  intro same
  obtain ⟨inside, isText, isInside⟩ := exists_inside style depth left right part value values
  rw [isText] at same
  have sameInside : inside ++ rest = right :: last := (List.cons.inj same).2
  have after := isInside rest
  rw [sameInside, List.flatMap_cons, List.append_assoc, List.append_assoc, List.append_assoc,
    List.append_cancel_left_eq] at after
  obtain ⟨c, isFirst, notClosing⟩ := begins
  obtain ⟨more, isPart⟩ := List.head?_eq_some_iff.mp isFirst
  rw [isPart, Style.lineBreak] at after
  split at after
  next =>
    rw [List.cons_append, List.cons.injEq] at after
    rw [after.1] at isClosing
    rcases isClosing with isLine | isLine <;> cases isLine
  next =>
    rw [List.nil_append, List.cons_append, List.cons.injEq] at after
    exact notClosing (after.1 ▸ isClosing)

/-- Parts that can each be told from what follows can be told between brackets. -/
theorem enclose_append_inj (comma : style.comma.head? = some ',') (isClosing : IsClosing right)
    (begins : ∀ value ∈ values ++ others, ∃ c ∈ (part value).head?, ¬IsClosing c)
    (each : ∀ value ∈ values, ∀ other ∈ others, ∀ rest last, StopsNumber rest → StopsNumber last →
      part value ++ rest = part other ++ last → related value other ∧ rest = last)
    (same : style.enclose depth left right (values.map part) ++ rest =
      style.enclose depth left right (others.map part) ++ last) :
    List.Forall₂ related values others ∧ rest = last := by
  match values, others with
  | [], [] => exact ⟨.nil, (List.cons.inj (List.cons.inj same).2).2⟩
  | [], other :: others =>
      have begins := begins other (List.mem_append_right _ List.mem_cons_self)
      exact (enclose_ne_empty isClosing begins _ same.symm).elim
  | value :: values, [] =>
      have begins := begins value (List.mem_append_left _ List.mem_cons_self)
      exact (enclose_ne_empty isClosing begins _ same).elim
  | value :: values, other :: others =>
      obtain ⟨more, isComma⟩ := List.head?_eq_some_iff.mp comma
      obtain ⟨inside, isText, isInside⟩ := exists_inside style depth left right part value values
      obtain ⟨insideOther, isOther, isInsideOther⟩ :=
        exists_inside style depth left right part other others
      rw [isText, isOther, List.cons_append, List.cons_append] at same
      have sameInside := congrArg (style.comma ++ ·) (List.cons.inj same).2
      rw [isInside, isInsideOther] at sameInside
      have goesOn (value : α) (rest : List Char) :
          StopsNumber (style.comma ++ style.lineBreak (depth + 1) ++ part value ++ rest) ∧
            ¬ClosesItems (style.comma ++ style.lineBreak (depth + 1) ++ part value ++ rest) := by
        rw [isComma]
        constructor
        · intro c isFirst
          obtain rfl : ',' = c := Option.some.inj isFirst
          simp [IsNumeral]
        · rintro ⟨c, isFirst, isEnd⟩
          obtain rfl : ',' = c := Option.some.inj isFirst
          simp [IsClosing] at isEnd
      obtain ⟨areRelated, sameEnd⟩ := aligned_of_flatMap_eq
        (fun value isValue other isOther rest last stops stopsOther same => by
          rw [List.append_assoc _ (part value), List.append_assoc _ (part other),
            List.append_cancel_left_eq] at same
          exact each value isValue other isOther rest last stops stopsOther same)
        goesOn (fun _ => ClosesItems.stopsNumber) (closesItems_lineBreak style depth isClosing rest)
        (closesItems_lineBreak style depth isClosing last) sameInside
      rw [List.append_cancel_left_eq] at sameEnd
      exact ⟨areRelated, (List.cons.inj sameEnd).2⟩

end Enclosed

/-! ## Forms -/

/-- The forms of discrete data. -/
inductive Form where
  | null
  | truth
  | integer
  | text
  | list
  | object

/-- The form of a value. -/
def formOf? : Value → Option Form
  | .null => some .null
  | .bool _ => some .truth
  | .int _ => some .integer
  | .str _ => some .text
  | .list _ => some .list
  | .object _ => some .object
  | _ => none

/-- The form of a value whose text begins with a character. -/
def formFrom? (c : Char) : Option Form :=
  if c = 'n' then some .null
  else if c = 't' ∨ c = 'f' then some .truth
  else if c = '"' then some .text
  else if c = '[' then some .list
  else if c = '\x7b' then some .object
  else if c = ']' ∨ c = '\x7d' then none
  else some .integer

theorem formFrom?_of_isNumeral {c : Char} (isNumeral : IsNumeral c) :
    formFrom? c = some .integer ∧ ¬IsClosing c := by
  have apart {d : Char} (noNumeral : ¬IsNumeral d) : c ≠ d := fun same => noNumeral (same ▸ isNumeral)
  have letters : c ≠ 'n' ∧ c ≠ 't' ∧ c ≠ 'f' :=
    ⟨apart (by decide), apart (by decide), apart (by decide)⟩
  have opening : c ≠ '"' ∧ c ≠ '[' ∧ c ≠ '\x7b' :=
    ⟨apart (by decide), apart (by decide), apart (by decide)⟩
  have closing : c ≠ ']' ∧ c ≠ '\x7d' := ⟨apart (by decide), apart (by decide)⟩
  simp [formFrom?, IsClosing, letters, opening, closing]

theorem head?_enclose (style : Style) (depth : Nat) (left right : Char) (parts : List (List Char)) :
    (style.enclose depth left right parts).head? = some left := by
  rw [Style.enclose]
  split <;> rfl

theorem exists_head_integerText (n : Int) : ∃ c ∈ (integerText n).head?, IsNumeral c := by
  cases isText : integerText n with
  | nil => exact absurd (List.append_eq_nil_iff.mp isText).2 Nat.toDigits_ne_nil
  | cons c rest => exact ⟨c, rfl, isNumeral_of_mem_integerText (isText ▸ List.mem_cons_self)⟩

theorem exists_head_written (sorts : style.sortKeys = true) {value : Value}
    (isDiscrete : value.IsDiscrete) (depth : Nat) :
    ∃ c ∈ (written style depth value).head?, formFrom? c = formOf? value ∧ ¬IsClosing c := by
  cases isDiscrete with
  | null => exact ⟨'n', rfl, rfl, by decide⟩
  | bool b =>
      cases b with
      | true => exact ⟨'t', rfl, rfl, by decide⟩
      | false => exact ⟨'f', rfl, rfl, by decide⟩
  | int n =>
      obtain ⟨c, isFirst, isNumeral⟩ := exists_head_integerText n
      exact ⟨c, isFirst, formFrom?_of_isNumeral isNumeral⟩
  | str text => exact ⟨'"', rfl, rfl, by decide⟩
  | list each =>
      rw [written_list sorts (.list each)]
      exact ⟨'[', head?_enclose _ _ _ _ _, rfl, by decide⟩
  | object distinct each =>
      rw [written_node sorts (.object distinct each)]
      exact ⟨'\x7b', head?_enclose _ _ _ _ _, rfl, by decide⟩

theorem formOf?_eq_of_append_eq (sorts : style.sortKeys = true) {value other : Value}
    (isDiscrete : value.IsDiscrete) (isOther : other.IsDiscrete)
    (same : written style depth value ++ rest = written style depth other ++ last) :
    formOf? value = formOf? other := by
  obtain ⟨c, isFirst, isForm, -⟩ := exists_head_written sorts isDiscrete depth
  obtain ⟨d, isFirstOther, isFormOther, -⟩ := exists_head_written sorts isOther depth
  obtain ⟨more, isText⟩ := List.head?_eq_some_iff.mp isFirst
  obtain ⟨moreOther, isTextOther⟩ := List.head?_eq_some_iff.mp isFirstOther
  rw [isText, isTextOther] at same
  obtain rfl : c = d := (List.cons.inj same).1
  exact isForm.symm.trans isFormOther

/-! ## Values -/

/-- Whether the text of a value shows it up to the order of keys, and where it ends if no digit
follows. -/
def IsShown (style : Style) (value : Value) : Prop :=
  ∀ ⦃other : Value⦄, other.IsDiscrete → ∀ ⦃depth rest last⦄, StopsNumber rest → StopsNumber last →
    written style depth value ++ rest = written style depth other ++ last →
      value.SameUpToOrder other ∧ rest = last

theorem boolText_append_inj {b c : Bool} (same : boolText b ++ rest = boolText c ++ last) :
    b = c ∧ rest = last := by
  cases b <;> cases c <;> simp_all [boolText]

/-- Objects are the same up to the order of keys if they hold the same in the order of names. -/
theorem sameUpToOrder_of_inOrder {fields others : Fields} (distinct : (fields.map Prod.fst).Nodup)
    (othersDistinct : (others.map Prod.fst).Nodup)
    (aligned : List.Forall₂ (fun field other => field.1 = other.1 ∧ field.2.SameUpToOrder other.2)
      (inOrder fields) (inOrder others)) :
    (Fields.node fields).SameUpToOrder (Fields.node others) := by
  apply Value.SameUpToOrder.object distinct othersDistinct
  intro name
  rw [Value.get?_of_perm distinct (inOrder_perm fields).symm,
    Value.get?_of_perm othersDistinct (inOrder_perm others).symm]
  exact @Value.get?_aligned (fun _ => Value.SameUpToOrder) _ _ aligned name

section Shown

variable (comma : style.comma.head? = some ',') (sorts : style.sortKeys = true)
include comma sorts

theorem isShown_list {items : List Value} (each : ∀ item ∈ items, item.IsDiscrete)
    (shown : ∀ item ∈ items, IsShown style item) : IsShown style (.list items) := by
  intro other isOther depth rest last stops stopsOther same
  have sameForm := formOf?_eq_of_append_eq sorts (.list each) isOther same
  cases isOther with
  | @list others eachOther =>
      have begins : ∀ item ∈ items ++ others,
          ∃ c ∈ (written style (depth + 1) item).head?, ¬IsClosing c := by
        intro item isItem
        have isDiscrete := (List.mem_append.mp isItem).elim (each item) (eachOther item)
        obtain ⟨c, isFirst, -, notClosing⟩ := exists_head_written sorts isDiscrete (depth + 1)
        exact ⟨c, isFirst, notClosing⟩
      rw [written_list sorts (.list each), written_list sorts (.list eachOther)] at same
      obtain ⟨aligned, sameRest⟩ := enclose_append_inj comma (.inl rfl) begins
        (fun item isItem other isOther _ _ => @shown item isItem other
          (eachOther other isOther) _ _ _) same
      exact ⟨.list aligned, sameRest⟩
  | _ => cases sameForm

theorem isShown_node {fields : Fields} (distinct : (fields.map Prod.fst).Nodup)
    (each : ∀ field ∈ fields, field.2.IsDiscrete) (shown : ∀ field ∈ fields, IsShown style field.2) :
    IsShown style (Fields.node fields) := by
  intro other isOther depth rest last stops stopsOther same
  have sameForm := formOf?_eq_of_append_eq sorts (.object distinct each) isOther same
  cases isOther with
  | @object others othersDistinct eachOther =>
      have parts : ∀ field ∈ inOrder fields, ∀ other ∈ inOrder others, ∀ rest last,
          StopsNumber rest → StopsNumber last →
          fieldText style (depth + 1) field ++ rest = fieldText style (depth + 1) other ++ last →
            (field.1 = other.1 ∧ field.2.SameUpToOrder other.2) ∧ rest = last := by
        intro field isField other isOther rest last stops stopsOther same
        simp only [fieldText, List.append_assoc] at same
        obtain ⟨sameName, same⟩ := stringText_append_inj same
        obtain ⟨sameValue, sameRest⟩ := shown field ((inOrder_perm fields).subset isField)
          (eachOther other ((inOrder_perm others).subset isOther)) stops stopsOther
          (List.append_cancel_left same)
        exact ⟨⟨sameName, sameValue⟩, sameRest⟩
      rw [written_node sorts (.object distinct each),
        written_node sorts (.object othersDistinct eachOther)] at same
      obtain ⟨aligned, sameRest⟩ := enclose_append_inj comma (.inr rfl)
        (fun field _ => ⟨'"', rfl, by decide⟩) parts same
      exact ⟨sameUpToOrder_of_inOrder distinct othersDistinct aligned, sameRest⟩
  | _ => cases sameForm

theorem isShown {value : Value} (isDiscrete : value.IsDiscrete) : IsShown style value := by
  induction isDiscrete with
  | null =>
      intro other isOther depth rest last stops stopsOther same
      have sameForm := formOf?_eq_of_append_eq sorts .null isOther same
      cases isOther with
      | null => exact ⟨.refl _, List.append_cancel_left same⟩
      | _ => cases sameForm
  | bool b =>
      intro other isOther depth rest last stops stopsOther same
      have sameForm := formOf?_eq_of_append_eq sorts (.bool b) isOther same
      cases isOther with
      | bool c =>
          obtain ⟨rfl, sameRest⟩ := boolText_append_inj same
          exact ⟨.refl _, sameRest⟩
      | _ => cases sameForm
  | int n =>
      intro other isOther depth rest last stops stopsOther same
      have sameForm := formOf?_eq_of_append_eq sorts (.int n) isOther same
      cases isOther with
      | int m =>
          obtain ⟨rfl, sameRest⟩ := integerText_append_inj stops stopsOther same
          exact ⟨.refl _, sameRest⟩
      | _ => cases sameForm
  | str text =>
      intro other isOther depth rest last stops stopsOther same
      have sameForm := formOf?_eq_of_append_eq sorts (.str text) isOther same
      cases isOther with
      | str other =>
          obtain ⟨rfl, sameRest⟩ := stringText_append_inj same
          exact ⟨.refl _, sameRest⟩
      | _ => cases sameForm
  | list each ih => exact isShown_list comma sorts each ih
  | object distinct each ih => exact isShown_node comma sorts distinct each ih

end Shown

end TypedReply.Json
