import TypedReply.Proofs.Schema.Narrowing
import TypedReply.Proofs.Schema.Sweeping

/-!
# Strict documents of any form

A document can be made strict exactly if all that the walk comes to in it is objects: a Boolean among
the properties or the definitions is a schema, but not one that the walk can enter. Where it can be
made strict it is so in one go, and nothing has changed in it but what closes its nodes.
-/

namespace TypedReply.Strict

open Value (entriesOf IsJson)

variable {defsKey : String} {roles : Roles} {role : Role} {bound : Nat} {fields : Fields}
variable {value : Value} {change : Value.Entries → Outcome Value.Entries}

/-! ## One step of the walk -/

/-- Changes a schema that need not be a node. -/
def onAnySchema (change : Value.Entries → Outcome Value.Entries) : Value → Outcome Value
  | .object entries => onSchema change (.object entries)
  | other => .ok other

/-- Changes the schemas that a value holds, by what it is taken for. -/
def Role.apply (change : Value.Entries → Outcome Value.Entries) : Role → Value → Outcome Value
  | .schema, value => onAnySchema change value
  | .table, .object entries => onSchema (onValues change) (.object entries)
  | .members, .list items => do .ok (.list (← items.mapM (onAnySchema change)))
  | _, value => .ok value

/-- Changes the schemas that a node holds at a place. -/
def onPlace (change : Value.Entries → Outcome Value.Entries) (node : Value.Entries)
    (place : String × Role) : Outcome Value.Entries :=
  match place.2 with
  | .schema => onObject change place.1 node
  | .table => onObject (onValues change) place.1 node
  | .members => onMembers change node place.1

theorem walk_eq (defsKey : String) (change : Value.Entries → Outcome Value.Entries)
    (node : Value.Entries) :
    walk defsKey change node = (places defsKey).foldlM (onPlace change) node := rfl

theorem onPlace_absent {name : String} (absent : fields.get? name = none) :
    onPlace change (entriesOf fields) (name, role) = .ok (entriesOf fields) := by
  cases role <;> simp [onPlace, onObject, onMembers, Value.get?_entriesOf, absent]

theorem onPlace_found (distinct : (fields.map Prod.fst).Nodup) {name : String}
    (found : fields.get? name = some value) :
    onPlace change (entriesOf fields) (name, role) =
      (role.apply change value).map fun result => entriesOf (fields.put name result) := by
  have kept : entriesOf (fields.put name value) = entriesOf fields :=
    congrArg entriesOf ((Fields.mappedAt_eq_put distinct id found).symm.trans
      (Fields.mappedAt_eq_self distinct fun _ _ => rfl))
  cases role with
  | schema =>
      cases value with
      | object entries =>
          simp only [onPlace, onObject, Value.get?_entriesOf, found, Role.apply, onAnySchema, onSchema]
          cases change entries with
          | error failure => rfl
          | ok changed => exact congrArg Except.ok (put_ofFields ..)
      | _ => simp [onPlace, onObject, Value.get?_entriesOf, found, Role.apply, onAnySchema, Except.map,
          kept]
  | table =>
      cases value with
      | object entries =>
          simp only [onPlace, onObject, Value.get?_entriesOf, found, Role.apply, onSchema]
          cases onValues change entries with
          | error failure => rfl
          | ok changed => exact congrArg Except.ok (put_ofFields ..)
      | _ => simp [onPlace, onObject, Value.get?_entriesOf, found, Role.apply, Except.map, kept]
  | members =>
      cases value with
      | list members =>
          simp only [onPlace, onMembers, Value.get?_entriesOf, found, Role.apply]
          refine Eq.trans (congrArg (· >>= fun changed =>
            Except.ok ((entriesOf fields).put name (.list changed))) (mapM_congr fun member _ =>
              show _ = onAnySchema change member by cases member <;> rfl)) ?_
          cases members.mapM (onAnySchema change) with
          | error failure => rfl
          | ok changed => exact congrArg Except.ok (put_ofFields ..)
      | _ => simp [onPlace, onMembers, Value.get?_entriesOf, found, Role.apply, Except.map, kept]

/-- A change makes of a schema what sweeping does, exactly if all that the walk comes to is objects. -/
def Sweeps (defsKey : String) (change : Value.Entries → Outcome Value.Entries) (value : Value) :
    Prop :=
  ∀ result, onSchema change value = .ok result ↔
    value.isObject = true ∧ FitsIn defsKey .schema value ∧
      result = swept defsKey (.only .schema) value

theorem Sweeps.onAnySchema (sweeps : Sweeps defsKey change value) (result : Value) :
    onAnySchema change value = .ok result ↔
      FitsIn defsKey .schema value ∧ result = swept defsKey (.only .schema) value := by
  by_cases isObject : value.isObject = true
  · have same : Strict.onAnySchema change value = onSchema change value := by
      cases value with
      | object entries => rfl
      | _ => cases isObject
    simp [same, sweeps result, isObject]
  · have noObject : value.isObject = false := Bool.eq_false_iff.mpr isObject
    have kept : Strict.onAnySchema change value = .ok value := by
      cases value with
      | object entries => cases noObject
      | _ => rfl
    have same : swept defsKey (.only .schema) value = value :=
      swept_of_idle (fun _ _ => rfl) fun isObject => nomatch noObject.symm.trans isObject
    rw [kept, same, Except.ok.injEq, eq_comm, and_iff_right (fitsIn_schema_of_noObject noObject)]

theorem onValues_eq_ok_iff (each : ∀ field ∈ fields, Sweeps defsKey change field.2) (result : Value) :
    onSchema (onValues change) (Fields.node fields) = .ok result ↔
      FitsIn defsKey .table (Fields.node fields) ∧
        result = swept defsKey (.only .table) (Fields.node fields) := by
  have entries (entry : Value × Value) (isEntry : entry ∈ entriesOf fields)
      (result : Value × Value) :
      (do .ok (entry.1, ← onSchema change entry.2) : Outcome (Value × Value)) = .ok result ↔
        (entry.2.isObject = true ∧ FitsIn defsKey .schema entry.2) ∧
          result = (entry.1, swept defsKey (.only .schema) entry.2) := by
    obtain ⟨field, isField, rfl⟩ := List.mem_map.mp isEntry
    rw [bind_eq_ok_iff_of_known fun made => (each field isField made).trans and_assoc.symm,
      Except.ok.injEq]
    exact and_congr_right' eq_comm
  have image : Value.object ((entriesOf fields).map fun entry =>
      (entry.1, swept defsKey (.only .schema) entry.2)) =
        swept defsKey (.only .table) (Fields.node fields) := by
    rw [swept_node, entriesOf, List.map_map]
    change _ = Value.object ((fields.map _).map _)
    rw [List.map_map]
    rfl
  rw [fitsIn_table_node, ← image, Fields.node, Value.ofFields_eq, onSchema, onValues,
    bind_eq_ok_iff_of_known fun _ => mapM_eq_ok_iff_map entries, Except.ok.injEq, eq_comm, entriesOf,
    List.forall_mem_map]

/-- Changing the alternatives in a list is sweeping the list. -/
theorem onItems_eq_ok_iff {items : List Value}
    (each : ∀ item ∈ items, Sweeps defsKey change item) (result : Value) :
    Role.members.apply change (.list items) = .ok result ↔
      FitsIn defsKey .members (.list items) ∧
        result = swept defsKey (.only .members) (.list items) := by
  have inner (item : Value) (isItem : item ∈ items) := (each item isItem).onAnySchema
  rw [Role.apply, bind_eq_ok_iff_of_known fun _ => mapM_eq_ok_iff_map inner, Except.ok.injEq, eq_comm,
    fitsIn_members_list, swept_list]
  rfl

theorem apply_eq_ok_iff (json : IsJson bound value)
    (each : ∀ sub, IsJson bound sub → nesting sub ≤ nesting value → Sweeps defsKey change sub)
    (result : Value) : role.apply change value = .ok result ↔
      FitsIn defsKey role value ∧ result = swept defsKey (.only role) value := by
  -- What a value of another kind is taken for does not matter.
  have idle (kept : role.apply change value = .ok value)
      (nothing : ∀ sub, ¬role.Holds value sub)
      (same : swept defsKey (.only role) value = value) :
      role.apply change value = .ok result ↔
        FitsIn defsKey role value ∧ result = swept defsKey (.only role) value := by
    rw [kept, same, Except.ok.injEq, eq_comm, and_iff_right]
    exact fun sub holds => (nothing sub holds).elim
  cases role with
  | schema => exact (each value json (Nat.le_refl _)).onAnySchema result
  | table =>
      by_cases isObject : value.isObject = true
      · obtain ⟨fields, rfl⟩ := exists_node json isObject
        exact onValues_eq_ok_iff (fun field isField => each field.2 ((isJson_node.mp json).2 field
          isField) (Nat.le_of_lt (nesting_lt_of_mem_node isField))) result
      · cases value with
        | object entries => exact (isObject rfl).elim
        | _ => exact idle rfl (fun _ holds => nomatch holds) (swept_of_idle (fun _ _ => rfl)
            fun isObject => nomatch isObject)
  | members =>
      cases value with
      | list items =>
          exact onItems_eq_ok_iff (fun item isItem => each item (json.item isItem)
            (Nat.le_trans (nesting_le_of_mem isItem) (Nat.le_succ _))) result
      | _ => exact idle rfl (fun _ holds => nomatch holds) (swept_of_idle
          (fun _ isList => nomatch isList) fun _ => ⟨rfl, rfl⟩)

/-! ## The whole walk -/

/-- What the places of a list take a value for under a name. -/
def rolesAt (places : List (String × Role)) (name : String) : Roles :=
  fun role => places.contains (name, role)

theorem rolesAt_append_self (done : List (String × Role)) (name : String) (role : Role) :
    rolesAt (done ++ [(name, role)]) name = (rolesAt done name).union (.only role) := by
  funext other
  rw [Bool.eq_iff_iff]
  simp [rolesAt, Roles.union, Roles.only]

theorem rolesAt_append_of_ne (done : List (String × Role)) {name other : String}
    (different : other ≠ name) (role : Role) :
    rolesAt (done ++ [(name, role)]) other = rolesAt done other := by
  funext taken
  simp [rolesAt, different]

/-- Named values, each swept for what some places take it for. -/
def sweptAt (defsKey : String) (done : List (String × Role)) (fields : Fields) : Fields :=
  fields.mapped fun name => swept defsKey (rolesAt done name)

section Steps

variable (json : IsJson bound (Fields.node fields)) {done : List (String × Role)}
variable (fits : ∀ field ∈ fields, Fits defsKey (rolesAt done field.1) field.2)
include json fits

theorem mappedAt_sweptAt {name : String}
    (last : ∀ value, fields.get? name = some value → FitsIn defsKey role value) :
    (sweptAt defsKey done fields).mappedAt name (swept defsKey (.only role)) =
      sweptAt defsKey (done ++ [(name, role)]) fields := by
  obtain ⟨distinct, isJson⟩ := isJson_node.mp json
  rw [sweptAt, sweptAt, Fields.mappedAt, Fields.mapped_mapped]
  refine Fields.mapped_congr fun field isField => ?_
  rcases eq_or_ne field.1 name with rfl | different
  · have fitsLast : Fits defsKey (.only role) field.2 :=
      fits_only.mpr (last _ (Fields.get?_of_mem distinct isField))
    rw [if_pos rfl, rolesAt_append_self, swept_swept (isJson field isField) (fits field isField)
      fitsLast]
  · rw [if_neg different, rolesAt_append_of_ne done different]

/-- One step of the walk sweeps what stands at one more place. -/
theorem onPlace_sweptAt (each : ∀ sub, IsJson bound sub →
      nesting sub < nesting (Fields.node fields) → Sweeps defsKey change sub)
    (place : String × Role) (result : Value.Entries) :
    onPlace change (entriesOf (sweptAt defsKey done fields)) place = .ok result ↔
      (∀ value, fields.get? place.1 = some value → FitsIn defsKey place.2 value) ∧
        result = entriesOf (sweptAt defsKey (done ++ [place]) fields) := by
  obtain ⟨name, role⟩ := place
  obtain ⟨distinct, isJson⟩ := isJson_node.mp json
  have distinctSwept : ((sweptAt defsKey done fields).map Prod.fst).Nodup := by
    rwa [sweptAt, Fields.map_fst_mapped]
  have found_swept : (sweptAt defsKey done fields).get? name =
      (fields.get? name).map (swept defsKey (rolesAt done name)) := Fields.get?_mapped ..
  cases found : fields.get? name with
  | none =>
      rw [found] at found_swept
      have last : ∀ value, fields.get? name = some value → FitsIn defsKey role value := by
        simp [found]
      rw [onPlace_absent found_swept, ← mappedAt_sweptAt json fits last,
        Fields.mappedAt_eq_self distinctSwept (by simp [found_swept]), Except.ok.injEq, eq_comm]
      simp
  | some value =>
      have isJsonValue := isJson _ (Fields.mem_of_get? found)
      have fitsValue := fits _ (Fields.mem_of_get? found)
      have inner (sub : Value) (isJsonSub : IsJson bound sub)
          (smaller : nesting sub ≤ nesting (swept defsKey (rolesAt done name) value)) :
          Sweeps defsKey change sub :=
        each sub isJsonSub (Nat.lt_of_le_of_lt (Nat.le_trans smaller (nesting_swept_le isJsonValue))
          (nesting_lt_of_get? found))
      rw [found] at found_swept
      rw [onPlace_found distinctSwept found_swept, map_eq_ok_iff]
      simp only [apply_eq_ok_iff (isJson_swept isJsonValue) inner, fitsIn_swept isJsonValue fitsValue,
        Option.some.injEq, forall_eq']
      constructor
      · rintro ⟨_, ⟨last, rfl⟩, rfl⟩
        rw [← mappedAt_sweptAt json fits (by simpa [found] using last),
          Fields.mappedAt_eq_put distinctSwept _ found_swept]
        exact ⟨last, rfl⟩
      · rintro ⟨last, rfl⟩
        refine ⟨_, ⟨last, rfl⟩, ?_⟩
        rw [← mappedAt_sweptAt json fits (by simpa [found] using last),
          Fields.mappedAt_eq_put distinctSwept _ found_swept]

/-- The steps at all places sweep all that stands at them. -/
theorem foldlM_onPlace (each : ∀ sub, IsJson bound sub →
      nesting sub < nesting (Fields.node fields) → Sweeps defsKey change sub)
    (todo : List (String × Role)) (result : Value.Entries) :
    todo.foldlM (onPlace change) (entriesOf (sweptAt defsKey done fields)) = .ok result ↔
      (∀ place ∈ todo, ∀ value, fields.get? place.1 = some value → FitsIn defsKey place.2 value) ∧
        result = entriesOf (sweptAt defsKey (done ++ todo) fields) := by
  induction todo generalizing done with
  | nil => simp [pure, Except.pure, eq_comm]
  | cons place todo ih =>
      have next (last : ∀ value, fields.get? place.1 = some value → FitsIn defsKey place.2 value) :
          ∀ field ∈ fields, Fits defsKey (rolesAt (done ++ [place]) field.1) field.2 := by
        intro field isField role isRole
        rcases List.mem_append.mp (List.contains_iff_mem.mp isRole) with isDone | isLast
        · exact fits field isField role (List.contains_iff_mem.mpr isDone)
        · obtain rfl := List.mem_singleton.mp isLast
          exact last _ (Fields.get?_of_mem (isJson_node.mp json).1 isField)
      rw [List.foldlM_cons, bind_eq_ok_iff_of_known (onPlace_sweptAt json fits each place),
        List.forall_mem_cons, List.append_cons done place todo, and_assoc]
      exact and_congr_right fun last => ih (next last)

end Steps

theorem sweptAt_places : sweptAt defsKey (places defsKey) fields =
    fields.mapped (sweptPart defsKey (.only .schema)) := by
  have same (name : String) : rolesAt (places defsKey) name = (Roles.only .schema).under defsKey name
      := by
    funext role
    simp [rolesAt, Roles.under, Roles.only]
  rw [sweptAt]
  simp only [same]
  rfl

/-- While fuel is left for its nesting, a JSON value is closed exactly if all that the walk comes to is
objects, and closing it is sweeping it. -/
theorem sweeps_close (fuel : Nat) (json : IsJson bound value) (enough : nesting value < fuel) :
    Sweeps defsKey (close defsKey fuel) value := by
  induction fuel generalizing value with
  | zero => cases enough
  | succ fuel ih =>
      intro result
      by_cases isObject : value.isObject = true
      · obtain ⟨fields, rfl⟩ := exists_node json isObject
        have closed := isJson_closedFields json
        have smaller := nesting_closedFields_le json
        have start : sweptAt defsKey [] (closedFields fields) = closedFields fields :=
          Fields.mapped_eq_self fun _ _ => swept_none _
        have untouched (field) (_ : field ∈ closedFields fields) :
            Fits defsKey (rolesAt [] field.1) field.2 := fun _ isRole => (Bool.false_ne_true isRole).elim
        have walked := foldlM_onPlace closed untouched
          (fun sub isJson inner => ih isJson (by omega)) (places defsKey)
        rw [start, List.nil_append, sweptAt_places] at walked
        rw [fitsIn_schema_node, swept_node, Fields.node, Value.ofFields_eq, onSchema, close_succ,
          closeHere_entriesOf, walk_eq, bind_eq_ok_iff_of_known walked, Except.ok.injEq, eq_comm]
        exact (and_iff_right rfl).symm
      · have noObject : value.isObject = false := Bool.eq_false_iff.mpr isObject
        refine iff_of_false (fun isClosed => ?_) fun sweeps => isObject sweeps.1
        cases value with
        | object => cases noObject
        | _ => cases isClosed

theorem sanitize_eq_ok_iff (json : IsJson bound value) (result : Value) :
    sanitize defsKey value = .ok result ↔
      value.isObject = true ∧ FitsIn defsKey .schema value ∧
        result = swept defsKey (.only .schema) value :=
  sweeps_close _ json (Nat.lt_succ_self _) result

/-! ## What has changed -/

/-- A value and what it may become by closing nodes in it, given what the value is taken for. A node
that is closed is taken for a schema, is one of objects and declares properties. -/
inductive Tightens (defsKey : String) : Roles → Value → Value → Prop where
  | same (roles : Roles) (value : Value) : Tightens defsKey roles value value
  | items {roles : Roles} {items : List Value} (image : Value → Value)
      (each : ∀ item ∈ items, Tightens defsKey roles.among item (image item)) :
      Tightens defsKey roles (.list items) (.list (items.map image))
  | node {roles : Roles} {fields : Fields} (image : String → Value → Value)
      (each : ∀ field ∈ fields,
        Tightens defsKey (roles.under defsKey field.1) field.2 (image field.1 field.2)) :
      Tightens defsKey roles (Fields.node fields) (Fields.node (fields.mapped image))
  | closed {roles : Roles} {fields : Fields} (image : String → Value → Value)
      (isNode : roles .schema = true) (declares : Declares fields)
      (each : ∀ field ∈ closedFields fields,
        Tightens defsKey (roles.under defsKey field.1) field.2 (image field.1 field.2)) :
      Tightens defsKey roles (Fields.node fields)
        (Fields.node ((closedFields fields).mapped image))

theorem tightens_swept (json : IsJson bound value) :
    Tightens defsKey roles value (swept defsKey roles value) := by
  induction value, json using closing_induction generalizing roles with
  | atom value json noObject noList =>
      rw [swept_atom noObject noList]
      exact .same roles value
  | list items json ih =>
      rw [swept_list]
      exact .items _ fun item isItem => ih item isItem (json.item isItem)
  | node fields json ih ihClosed =>
      have inside (field : String × Value) (isField : field ∈ fields) :
          Tightens defsKey (roles.under defsKey field.1) field.2
            (sweptPart defsKey roles field.1 field.2) :=
        ih field isField ((isJson_node.mp json).2 field isField)
      rw [swept_node, closedFor]
      split
      next isNode =>
        by_cases declares : Declares fields
        · exact .closed _ isNode declares fun field isField => ihClosed field isField
            ((isJson_node.mp (isJson_closedFields json)).2 field isField)
        · rw [closedFields_of_not_declares declares]
          exact .node _ inside
      next => exact .node _ inside

/-- A value that sweeping leaves as it is. -/
structure IsSettled (defsKey : String) (bound : Nat) (role : Role) (value : Value) : Prop where
  json : IsJson bound value
  fits : FitsIn defsKey role value
  same : swept defsKey (.only role) value = value

theorem isSettled_of_swept (json : IsJson bound value) (fits : Fits defsKey roles value)
    (same : swept defsKey roles value = value) (isRole : roles role = true) :
    IsSettled defsKey bound role value := by
  have fitsRole : Fits defsKey (.only role) value := fits_only.mpr (fits role isRole)
  have absorbs : roles.union (.only role) = roles := by
    funext other
    by_cases isOther : other = role
    · simp [Roles.union, Roles.only, isOther, isRole]
    · simp [Roles.union, Roles.only, isOther]
  refine ⟨json, fits role isRole, ?_⟩
  have twice := swept_swept json fits fitsRole
  rwa [absorbs, same] at twice

theorem IsSettled.of_holds {sub : Value} (settled : IsSettled defsKey bound role value)
    (holds : role.Holds value sub) : IsSettled defsKey bound .schema sub := by
  obtain ⟨json, fits, same⟩ := settled
  cases holds with
  | schema => exact ⟨json, fits, same⟩
  | @entry entries _ isEntry =>
      obtain ⟨fields, isNode⟩ := exists_node json rfl
      cases isNode
      obtain ⟨field, isField, rfl⟩ := List.mem_map.mp isEntry
      change swept defsKey (.only .table) (Fields.node fields) = Fields.node fields at same
      rw [swept_node] at same
      exact ⟨(isJson_node.mp json).2 field isField, (fitsIn_table_node.mp fits field isField).2,
        Fields.eq_of_mapped_eq_self (Fields.node_inj.mp same) field isField⟩
  | member isMember =>
      rw [swept_list, Value.list.injEq] at same
      exact ⟨json.item isMember, fitsIn_members_list.mp fits _ isMember,
        List.map_inj_left.mp (same.trans (List.map_id _).symm) _ isMember⟩

/-- A settled node is closed, and what the walk goes to from it is settled. -/
theorem IsSettled.node (settled : IsSettled defsKey bound .schema (Fields.node fields)) :
    closedFields fields = fields ∧
      ∀ sub, Visits defsKey (Fields.node fields) sub → IsSettled defsKey bound .schema sub := by
  obtain ⟨json, fits, same⟩ := settled
  have distinct := (isJson_node.mp json).1
  rw [swept_node] at same
  have unchanged : (closedFields fields).mapped (sweptPart defsKey (.only .schema)) = fields :=
    Fields.node_inj.mp same
  have closed : closedFields fields = fields := by
    have again : closedFields ((closedFields fields).mapped (sweptPart defsKey (.only .schema))) =
        (closedFields fields).mapped (sweptPart defsKey (.only .schema)) :=
      closedFields_swept distinct rfl
    rwa [unchanged] at again
  refine ⟨closed, fun sub visits => ?_⟩
  obtain ⟨name, role, value, isPlace, found, holds⟩ := exists_place_of_visits visits
  have isField := Fields.mem_of_get? found
  have fitsNode : Fits defsKey (.only .schema) (Fields.node fields) := fits_only.mpr fits
  have isRole : (Roles.only .schema).under defsKey name role = true := by
    simpa [Roles.under, Roles.only] using isPlace
  rw [closed] at unchanged
  have settled := isSettled_of_swept
    ((isJson_node.mp (isJson_closedFields json)).2 _ isField) (fitsNode.under json _ isField)
    (Fields.eq_of_mapped_eq_self unchanged _ (closed ▸ isField)) isRole
  exact settled.of_holds holds

theorem IsSettled.reaches {sub : Value} (settled : IsSettled defsKey bound .schema value)
    (reaches : Relation.ReflTransGen (Visits defsKey) value sub) :
    IsSettled defsKey bound .schema sub := by
  induction reaches with
  | refl => exact settled
  | tail _ visits ih =>
      cases visits with
      | inside isPlace found holds => exact ih.node.2 _ (.inside isPlace found holds)

/-- A JSON object is made strict exactly if all that the walk comes to in it is objects. What is made
of it stays the same when it is made strict again, differs from it only in what closes nodes of objects
that declare properties, and is closed at every node that the walk comes to. -/
theorem sanitizes_where_objects (defsKey : String) {schema : Value} (json : IsJson bound schema)
    (isObject : schema.isObject = true) :
    ((∃ result, sanitize defsKey schema = .ok result) ↔
      ∀ visited, Relation.ReflTransGen (Visits defsKey) schema visited → visited.isObject = true) ∧
    ∀ result, sanitize defsKey schema = .ok result →
      sanitize defsKey result = .ok result ∧
      Tightens defsKey (.only .schema) schema result ∧
      ∀ fields, Relation.ReflTransGen (Visits defsKey) result (Fields.node fields) →
        closedFields fields = fields := by
  constructor
  · constructor
    · rintro ⟨result, made⟩ visited reaches
      exact ((sanitize_eq_ok_iff json result).mp made).2.1 schema (.schema isObject) visited reaches
    · intro objects
      refine ⟨_, (sanitize_eq_ok_iff json _).mpr ⟨isObject, fun sub holds => ?_, rfl⟩⟩
      cases holds
      exact objects
  · intro result made
    obtain ⟨-, fitsIn, rfl⟩ := (sanitize_eq_ok_iff json result).mp made
    have fits : Fits defsKey (.only .schema) schema := fits_only.mpr fitsIn
    have settled : IsSettled defsKey bound .schema (swept defsKey (.only .schema) schema) :=
      ⟨isJson_swept json, (fitsIn_swept json fits).mpr fitsIn, by
        rw [swept_swept json fits fits, Roles.union_self]⟩
    refine ⟨?_, tightens_swept json, fun fields reaches => (settled.reaches reaches).node.1⟩
    rw [sanitize_eq_ok_iff settled.json, isObject_swept]
    exact ⟨isObject, settled.fits, settled.same.symm⟩

/-- A loose schema: Booleans stand only where the walk need not find schemas. -/
def looseTags : Fields :=
  [("type", .str "object"),
   ("properties", Fields.node [("tags", Fields.node [("type", .str "array"), ("items", .bool true)])]),
   ("additionalProperties", .bool true),
   ("anyOf", .list [.bool true])]

theorem looseTags_sanitized :
    IsJson 1 (Fields.node looseTags) ∧ (Fields.node looseTags).isObject = true ∧
    ∃ result, sanitize "$defs" (Fields.node looseTags) = .ok result ∧
      result.get? "additionalProperties" = some (.bool false) ∧
      result.get? "required" = some (.list [.str "tags"]) ∧
      sanitize "$defs" result = .ok result ∧
      Tightens "$defs" (.only .schema) (Fields.node looseTags) result := by
  have tags : IsJson 1 (Fields.node [("type", .str "array"), ("items", .bool true)]) :=
    isJson_node.mpr ⟨by decide, by simpa using ⟨.str "array", .bool true⟩⟩
  have json : IsJson 1 (Fields.node looseTags) := by
    refine isJson_node.mpr ⟨by decide, ?_⟩
    simp only [looseTags, List.forall_mem_cons]
    refine ⟨.str _, isJson_node.mpr ⟨by decide, by simpa using tags⟩, .bool _, .list ?_, by simp⟩
    simpa using .bool true
  obtain ⟨again, tightens, -⟩ := (sanitizes_where_objects "$defs" json rfl).2 _ rfl
  exact ⟨json, rfl, _, rfl, rfl, rfl, again, tightens⟩

/-- An object that declares a property by the schema that admits everything. -/
def anyProperty : Value :=
  Fields.node [("type", .str "object"), ("properties", Fields.node [("a", .bool true)])]

/-- A Boolean among the properties cannot be entered, nor can the keywords of the items where they
are taken for definitions. -/
theorem anyProperty_refused :
    IsJson 1 anyProperty ∧ anyProperty.isObject = true ∧
    sanitize "$defs" anyProperty = .fault (.noAttribute "bool" "get") ∧
    sanitize "items" (Fields.node [("items", Fields.node [("type", .str "string")])]) =
      .fault (.noAttribute "str" "get") := by
  refine ⟨isJson_node.mpr ⟨by decide, ?_⟩, rfl, rfl, rfl⟩
  simpa using ⟨.str "object", isJson_node.mpr ⟨by decide, by simpa using .bool true⟩⟩

end TypedReply.Strict
