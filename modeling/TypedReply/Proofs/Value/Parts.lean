import TypedReply.Value.Fold

/-!
# The parts of a value

A fold takes a step at a value and its parts, each of which carries its own fold.
-/

namespace TypedReply.Value

variable {ρ : Type}

theorem entries?_eq_some_iff {value : Value} {entries : Entries} :
    value.entries? = some entries ↔ value = .object entries := by
  cases value <;> simp [entries?]

theorem Entries.exists_mem_of_get? {entries : Entries} {name : String} {part : Value}
    (found : entries.get? name = some part) : ∃ key, (key, part) ∈ entries := by
  obtain ⟨entry, isEntry, rfl⟩ := Option.map_eq_some_iff.mp found
  exact ⟨entry.1, List.mem_of_find?_eq_some isEntry⟩

/-- The parts of a value, each with its fold. -/
def parts (step : Value → Parts ρ → ρ) : Value → Parts ρ
  | .list items => ⟨items.map (toPart step), []⟩
  | .tuple items => ⟨items.map (toPart step), []⟩
  | .set items => ⟨items.map (toPart step), []⟩
  | .frozenset items => ⟨items.map (toPart step), []⟩
  | .object entries => ⟨[], entries.map fun (key, value) => (toPart step key, toPart step value)⟩
  | .record _ fields => ⟨foldFields step fields, []⟩
  | _ => .none

theorem fold_eq (step : Value → Parts ρ → ρ) (value : Value) :
    value.fold step = step value (value.parts step) := by
  cases value <;> simp [fold, parts, foldItems_eq_map, foldEntries_eq_map]

theorem get?_parts (step : Value → Parts ρ → ρ) (entries : Entries) (name : String) :
    ((object entries).parts step).get? name = (entries.get? name).map (toPart step) := by
  simp only [parts, Parts.get?, Entries.get?]
  induction entries with
  | nil => rfl
  | cons entry rest ih =>
      by_cases hit : entry.1.isText name = true
      · simp [hit, toPart]
      · simpa [hit, toPart] using ih

/-- What a value is iterated over: the items of a collection, or the fields of an instance as
pairs. -/
def iterated : Value → List Value
  | .list items => items
  | .tuple items => items
  | .set items => items
  | .frozenset items => items
  | .record _ fields => fields.map fun (tag, value) => .tuple [.str tag.name, value]
  | _ => []

theorem iterated_of_items? {value : Value} {items : List Value}
    (isList : value.items? = some items) : value.iterated = items := by
  cases value <;> cases isList <;> rfl

theorem foldFields_eq_map (step : Value → Parts ρ → ρ) (fields : List (FieldTag × Value)) :
    foldFields step fields = (fields.map fun (tag, value) =>
      (.tuple [.str tag.name, value] : Value)).map (toPart step) := by
  induction fields with
  | nil => rfl
  | cons field fields ih => simp [foldFields, foldItems, fold, toPart, ih]

theorem parts_items (step : Value → Parts ρ → ρ) (value : Value) :
    (value.parts step).items = value.iterated.map (toPart step) := by
  cases value <;> first | rfl | exact foldFields_eq_map step _

/-- The parts of an object are its keys and values. -/
theorem parts_entries (step : Value → Parts ρ → ρ) {value : Value} {entries : Entries}
    (isObject : value.entries? = some entries) : (value.parts step).entries =
      entries.map fun (key, part) => (toPart step key, toPart step part) := by
  obtain rfl := entries?_eq_some_iff.mp isObject
  rfl

/-- An entry among the parts is a key and a value of an object. -/
theorem exists_entry_of_mem_parts (step : Value → Parts ρ → ρ) {value : Value}
    {entry : Part ρ × Part ρ} (isEntry : entry ∈ (value.parts step).entries) : ∃ entries key part,
      value.entries? = some entries ∧ (key, part) ∈ entries ∧
        (toPart step key, toPart step part) = entry := by
  cases value with
  | object entries =>
      obtain ⟨⟨key, part⟩, isPair, same⟩ := List.mem_map.mp isEntry
      exact ⟨entries, key, part, rfl, isPair, same⟩
  | _ => simp [parts, Parts.none] at isEntry

/-- What holds of a value whenever it holds of what the value is iterated over and of its keys and the
values under them holds of all values. -/
@[elab_as_elim]
theorem induction_parts {motive : Value → Prop}
    (step : ∀ value, (∀ item ∈ value.iterated, motive item) →
      (∀ entries, value.entries? = some entries → ∀ entry ∈ entries,
        motive entry.1 ∧ motive entry.2) → motive value) (value : Value) : motive value := by
  have text (content : String) : motive (.str content) :=
    step _ (fun _ isItem => nomatch isItem) fun _ isObject => nomatch isObject
  induction size : sizeOf value using Nat.strongRecOn generalizing value with
  | ind size ih =>
      subst size
      refine step value (fun item isItem => ?_) ?_
      · cases value with
        | record tag fields =>
            obtain ⟨⟨name, part⟩, isField, rfl⟩ := List.mem_map.mp isItem
            have smaller := List.sizeOf_lt_of_mem isField
            have isPart : motive part := ih (sizeOf part) (by simp_all; omega) part rfl
            refine step _ ?_ fun _ isObject => nomatch isObject
            exact List.forall_mem_cons.mpr ⟨text _, List.forall_mem_singleton.mpr isPart⟩
        | list items | tuple items | set items | frozenset items =>
            have smaller := List.sizeOf_lt_of_mem (show item ∈ items from isItem)
            exact ih (sizeOf item) (by simp; omega) item rfl
        | _ => cases isItem
      · rintro entries isObject ⟨key, part⟩ isEntry
        have smaller := List.sizeOf_lt_of_mem isEntry
        obtain rfl := entries?_eq_some_iff.mp isObject
        simp only [Prod.mk.sizeOf_spec, object.sizeOf_spec] at smaller ih
        exact ⟨ih _ (by omega) key rfl, ih _ (by omega) part rfl⟩

end TypedReply.Value
