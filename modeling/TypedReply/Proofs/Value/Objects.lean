import TypedReply.Schema.Fields

/-!
# Objects of named values

An object whose keys are texts is a list of named values. Looking up a name, setting one and going
through pairs in order are the same for the object as for the list.
-/

namespace TypedReply

/-- Where each item adds its name behind the names that are there, unless it is one of them, several
items add the new names in order of their first appearance. -/
theorem names_foldl {σ α : Type} {names : σ → List String} {name : α → String} {step : σ → α → σ}
    (each : ∀ state item, names (step state item) =
      if name item ∈ names state then names state else names state ++ [name item])
    (state : σ) (items : List α) :
    names (items.foldl step state) =
      names state ++ ((items.map name).filter (· ∉ names state)).eraseDups := by
  induction items generalizing state with
  | nil => simp
  | cons item rest ih =>
      rw [List.foldl_cons, ih, each]
      split
      next known => simp [known]
      next new =>
        have others : (rest.map name).filter (· ∉ names state ++ [name item]) =
            ((rest.map name).filter (· ∉ names state)).filter fun other => !other == name item := by
          rw [List.filter_filter]
          congr 1
          funext other
          rw [Bool.eq_iff_iff]
          simp [or_comm]
        rw [others, List.map_cons, List.filter_cons_of_pos (by simpa using new),
          List.eraseDups_cons, List.append_assoc]
        rfl

namespace Fields

theorem get?_append (fields more : Fields) (name : String) :
    get? (fields ++ more) name = (fields.get? name).or (more.get? name) := List.lookup_append

/-- Removing a name leaves the values of the others. -/
theorem get?_filter_ne (fields : Fields) (removed name : String) :
    get? (fields.filter fun field => field.1 != removed) name =
      if name = removed then none else fields.get? name := by
  induction fields with
  | nil => simp
  | cons field rest ih =>
      obtain ⟨other, held⟩ := field
      by_cases dropped : other = removed
      · by_cases same : name = removed
        · simp_all
        · simp_all [get?_cons]
      · by_cases same : name = other
        · simp_all [get?_cons]
        · simp_all [get?_cons]

theorem get?_put (fields : Fields) (name other : String) (value : Value) :
    (fields.put name value).get? other = if other = name then some value else fields.get? other := by
  by_cases same : other = name
  · simp [same]
  · simp [same, get?_put_of_ne]

theorem get?_putAll {more : Fields} (distinct : (more.map Prod.fst).Nodup) (fields : Fields)
    (name : String) : (fields.putAll more).get? name = (more.get? name).or (fields.get? name) := by
  induction more generalizing fields with
  | nil => simp [putAll]
  | cons field rest ih =>
      obtain ⟨other, held⟩ := field
      simp only [List.map_cons, List.nodup_cons] at distinct
      have step : (fields.putAll ((other, held) :: rest)).get? name =
          ((fields.put other held).putAll rest).get? name := rfl
      rw [step, ih distinct.2, get?_put, get?_cons]
      by_cases same : name = other
      · subst same
        have absent : get? rest name = none :=
          List.lookup_eq_none_iff.mpr fun entry member => by
            have different : name ≠ entry.1 := by
              rintro rfl
              exact distinct.1 (List.mem_map_of_mem member)
            simpa using different
        simp [absent]
      · simp [same]

theorem get?_putAll_of_not_mem {more : Fields} {name : String} (absent : name ∉ more.map Prod.fst)
    (fields : Fields) : (fields.putAll more).get? name = fields.get? name := by
  induction more generalizing fields with
  | nil => rfl
  | cons field rest ih =>
      rw [List.map_cons, List.mem_cons, not_or] at absent
      exact (ih absent.2 _).trans (get?_put_of_ne fields field.2 absent.1)

/-- The last value that is put under a name stays there. -/
theorem get?_putAll_of_last (fields earlier : Fields) {name : String} (value : Value)
    {later : Fields} (last : name ∉ later.map Prod.fst) :
    (fields.putAll (earlier ++ (name, value) :: later)).get? name = some value := by
  have split : fields.putAll (earlier ++ (name, value) :: later) =
      ((fields.putAll earlier).put name value).putAll later := by
    rw [putAll, List.foldl_append]
    rfl
  rw [split, get?_putAll_of_not_mem last, get?_put_self]

theorem mem_of_get? {fields : Fields} {name : String} {held : Value}
    (found : fields.get? name = some held) : (name, held) ∈ fields := by
  induction fields with
  | nil => cases found
  | cons field rest ih =>
      obtain ⟨other, old⟩ := field
      rw [get?_cons] at found
      split at found
      next same =>
        cases found
        simp [same]
      next => exact List.mem_cons_of_mem _ (ih found)

theorem get?_of_mem {fields : Fields} (distinct : (fields.map Prod.fst).Nodup) {name : String}
    {held : Value} (member : (name, held) ∈ fields) : fields.get? name = some held := by
  induction fields with
  | nil => cases member
  | cons field rest ih =>
      obtain ⟨other, old⟩ := field
      simp only [List.map_cons, List.nodup_cons] at distinct
      rw [get?_cons]
      rcases List.mem_cons.mp member with same | later
      · cases same
        simp
      · have different : name ≠ other := by
          rintro rfl
          exact distinct.1 (List.mem_map_of_mem later)
        simp [different, ih distinct.2 later]

theorem get?_eq_none_of_not_mem {fields : Fields} {name : String}
    (absent : name ∉ fields.map Prod.fst) : fields.get? name = none := by
  cases found : fields.get? name with
  | none => rfl
  | some held => exact (absent (List.mem_map_of_mem (mem_of_get? found))).elim

theorem get?_eq_none_iff {fields : Fields} {name : String} :
    fields.get? name = none ↔ name ∉ fields.map Prod.fst := by
  refine ⟨fun absent isName => ?_, get?_eq_none_of_not_mem⟩
  obtain ⟨entry, isEntry, rfl⟩ := List.mem_map.mp isName
  have differs := List.lookup_eq_none_iff.mp absent entry isEntry
  simp at differs

theorem put_of_not_mem {fields : Fields} {name : String} (new : name ∉ fields.map Prod.fst)
    (value : Value) : fields.put name value = fields ++ [(name, value)] := by
  induction fields with
  | nil => rfl
  | cons field rest ih =>
      obtain ⟨other, held⟩ := field
      rw [List.map_cons, List.mem_cons, not_or] at new
      rw [put, if_neg (Ne.symm new.1), ih new.2, List.cons_append]

/-- Distinct names that are not there yet are put behind those that are. -/
theorem putAll_eq_append {more : Fields} (distinct : (more.map Prod.fst).Nodup) {fields : Fields}
    (free : ∀ name ∈ more.map Prod.fst, name ∉ fields.map Prod.fst) :
    fields.putAll more = fields ++ more := by
  induction more generalizing fields with
  | nil => simp [putAll]
  | cons field more ih =>
      obtain ⟨name, value⟩ := field
      simp only [List.map_cons, List.nodup_cons] at distinct
      have absent := free name (by simp)
      have rest := @ih distinct.2 (fields ++ [(name, value)]) fun other isMore isThere => by
        rw [List.map_append, List.mem_append] at isThere
        rcases isThere with isThere | same
        · exact free other (List.mem_cons_of_mem _ isMore) isThere
        · obtain rfl : other = name := by simpa using same
          exact distinct.1 isMore
      simpa [putAll, put_of_not_mem absent] using rest

/-- The names after several are put: those that were there, then the new ones in order of their first
appearance. -/
theorem map_fst_putAll (fields more : Fields) :
    (fields.putAll more).map Prod.fst = fields.map Prod.fst ++
      ((more.map Prod.fst).filter (· ∉ fields.map Prod.fst)).eraseDups :=
  names_foldl (fun fields (name, value) => map_fst_put fields name value) fields more

theorem mem_map_fst_putAll {fields more : Fields} {name : String} :
    name ∈ (fields.putAll more).map Prod.fst ↔
      name ∈ fields.map Prod.fst ∨ name ∈ more.map Prod.fst := by
  rw [map_fst_putAll, List.mem_append, List.mem_eraseDups, List.mem_filter]
  by_cases isThere : name ∈ fields.map Prod.fst <;> simp [isThere]

theorem nodup_put {fields : Fields} (distinct : (fields.map Prod.fst).Nodup) (name : String)
    (value : Value) : ((fields.put name value).map Prod.fst).Nodup := by
  rw [map_fst_put]
  split
  · exact distinct
  next new =>
      refine List.nodup_append.mpr ⟨distinct, by simp, ?_⟩
      rintro old isOld _ isName rfl
      exact new (List.mem_singleton.mp isName ▸ isOld)

theorem nodup_putAll {fields : Fields} (distinct : (fields.map Prod.fst).Nodup) (more : Fields) :
    ((fields.putAll more).map Prod.fst).Nodup := by
  induction more generalizing fields with
  | nil => exact distinct
  | cons field more ih => exact ih (nodup_put distinct field.1 field.2)

/-- What is there after a value is put was there before or is that value. -/
theorem mem_or_eq_of_mem_put {fields : Fields} {name : String} {value : Value}
    {entry : String × Value} (isEntry : entry ∈ fields.put name value) :
    entry ∈ fields ∨ entry = (name, value) := by
  induction fields with
  | nil => exact .inr (List.mem_singleton.mp isEntry)
  | cons field rest ih =>
      obtain ⟨other, old⟩ := field
      rw [put] at isEntry
      split at isEntry
      · exact (List.mem_cons.mp isEntry).symm.imp_left (List.mem_cons_of_mem _)
      · rcases List.mem_cons.mp isEntry with rfl | isLater
        · exact .inl List.mem_cons_self
        · exact (ih isLater).imp_left (List.mem_cons_of_mem _)

theorem mem_or_mem_of_mem_putAll {fields more : Fields} {entry : String × Value}
    (isEntry : entry ∈ fields.putAll more) : entry ∈ fields ∨ entry ∈ more := by
  induction more generalizing fields with
  | nil => exact .inl isEntry
  | cons field more ih =>
      rcases ih isEntry with isThere | isLater
      · rcases mem_or_eq_of_mem_put isThere with isOld | isNew
        · exact .inl isOld
        · exact .inr (List.mem_cons.mpr (.inl isNew))
      · exact .inr (List.mem_cons_of_mem _ isLater)

end Fields

namespace Value

theorem isText_str (text name : String) : (Value.str text).isText name = (text == name) := by
  simp [isText, text?]

theorem isNull_iff {value : Value} : value.isNull = true ↔ value = .null := by
  cases value <;> simp [isNull]

def entriesOf (fields : Fields) : Entries := fields.map fun (name, value) => (.str name, value)

theorem ofFields_eq (fields : Fields) : ofFields fields = .object (entriesOf fields) := rfl

theorem keys_entriesOf (fields : Fields) :
    Entries.keys (entriesOf fields) = (fields.map Prod.fst).map .str := by
  rw [Entries.keys, entriesOf, List.map_map, List.map_map]
  rfl

theorem ofFields_inj {fields others : Fields} :
    ofFields fields = ofFields others ↔ fields = others := by
  rw [ofFields_eq, ofFields_eq, Value.object.injEq]
  refine List.map_inj_right ?_
  rintro ⟨name, value⟩ ⟨other, held⟩ same
  cases same
  rfl

@[simp]
theorem get?_ofFields (fields : Fields) (name : String) :
    (ofFields fields).get? name = fields.get? name := by
  simp only [get?, entries?, ofFields, Option.bind_some, Entries.get?]
  induction fields with
  | nil => rfl
  | cons field rest ih =>
      obtain ⟨other, held⟩ := field
      rw [Fields.get?_cons, ← ih]
      by_cases same : other = name
      · simp [isText, text?, same]
      · simp [isText, text?, same, Ne.symm same]

theorem get?_entriesOf (fields : Fields) (name : String) :
    (entriesOf fields).get? name = fields.get? name := get?_ofFields fields name

@[simp]
theorem isObject_ofFields (fields : Fields) : (ofFields fields).isObject = true := rfl

end Value

namespace Fields

@[simp]
theorem get?_node (fields : Fields) (name : String) :
    (node fields).get? name = fields.get? name := Value.get?_ofFields fields name

@[simp]
theorem isObject_node (fields : Fields) : (node fields).isObject = true := rfl

end Fields

theorem put_ofFields (fields : Fields) (name : String) (value : Value) :
    (Value.entriesOf fields).put name value = Value.entriesOf (fields.put name value) := by
  induction fields with
  | nil => rfl
  | cons field rest ih =>
      obtain ⟨other, held⟩ := field
      have sameText : (Value.str other).same (.str name) = (other == name) := by
        simp [Value.same, Value.sameScalar, Value.number?, Value.integer?, Value.text?]
      simp only [Value.Entries.put, Value.Entries.insert, Value.entriesOf] at ih
      by_cases same : other = name
      · subst same
        simp [Value.entriesOf, Value.Entries.put, Value.Entries.insert, setBy, Fields.put, sameText]
      · simp [Value.entriesOf, Value.Entries.put, Value.Entries.insert, setBy, Fields.put,
          sameText, same,
          ih]

/-- Inserting a value under a new name puts it last. -/
theorem insert_entriesOf {fields : Fields} {name : String} (new : name ∉ fields.map Prod.fst)
    (value : Value) : (Value.entriesOf fields).insert (.str name) value =
      Value.entriesOf (fields ++ [(name, value)]) := by
  rw [← Fields.put_of_not_mem new, ← put_ofFields]
  rfl

/-- Erasing a name leaves the values of the others. -/
theorem erase_entriesOf (fields : Fields) (name : String) :
    (Value.entriesOf fields).erase name =
      Value.entriesOf (fields.filter fun field => field.1 != name) := by
  rw [Value.Entries.erase, Value.entriesOf, List.filter_map]
  congr 1

/-- Named values, set one after another, are what is put one after another. -/
theorem ofPairs_entriesOf_eq (fields : Fields) :
    Value.Entries.ofPairs (Value.entriesOf fields) =
      Value.entriesOf (Fields.putAll [] fields) := by
  have after (done : Fields) :
      (Value.entriesOf fields).foldl (fun entries entry => entries.insert entry.1 entry.2)
        (Value.entriesOf done) = Value.entriesOf (done.putAll fields) := by
    induction fields generalizing done with
    | nil => rfl
    | cons field rest ih =>
        change (Value.entriesOf rest).foldl _ ((Value.entriesOf done).put field.1 field.2) = _
        rw [put_ofFields]
        exact ih _
  exact after []

theorem ofPairs_entriesOf {fields : Fields} (distinct : (fields.map Prod.fst).Nodup) :
    Value.Entries.ofPairs (Value.entriesOf fields) = Value.entriesOf fields := by
  rw [ofPairs_entriesOf_eq, Fields.putAll_eq_append distinct (by simp), List.nil_append]

end TypedReply
