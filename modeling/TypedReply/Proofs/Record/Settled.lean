import TypedReply.Proofs.Aligned
import TypedReply.Proofs.Record.Typing

/-!
# Settled types

A type expression that mentions no name to be declared later is settled: no declaration changes it.
A class of settled types is declared as it is, and is found again whatever is declared after it.
-/

namespace TypedReply

/-! ## Types -/

namespace TypeExpr

/-- What holds of a type expression whenever it holds of those in it holds of all. -/
@[elab_as_elim]
theorem induction {motive : TypeExpr → Prop}
    (none : motive .none) (any : motive .any) (complex : motive .complex) (bytes : motive .bytes)
    (object : motive .object) (scalar : ∀ kind, motive (.scalar kind))
    (bare : ∀ kind, motive (.bare kind))
    (collection : ∀ kind element, motive element → motive (.collection kind element))
    (tuple : ∀ items, (∀ item ∈ items, motive item) → motive (.tuple items))
    (bareDict : motive .bareDict)
    (dict : ∀ key value, motive key → motive value → motive (.dict key value))
    (union : ∀ members, (∀ member ∈ members, motive member) → motive (.union members))
    (literal : ∀ values, motive (.literal values))
    (annotated : ∀ inner, motive inner → motive (.annotated inner))
    (enum : ∀ cls, motive (.enum cls)) (record : ∀ key, motive (.record key))
    (unresolved : ∀ name, motive (.unresolved name)) (expr : TypeExpr) : motive expr :=
  @TypeExpr.rec motive (fun members => ∀ member ∈ members, motive member)
    none any complex bytes object scalar bare collection tuple bareDict dict union literal annotated
    enum record unresolved (fun _ isMember => nomatch isMember)
    (fun _ _ first rest => List.forall_mem_cons.mpr ⟨first, rest⟩) expr

theorem unresolvedNames_of_mem {exprs : List TypeExpr} (settled : unresolvedNamesOf exprs = []) :
    ∀ expr ∈ exprs, expr.unresolvedNames = [] := by
  induction exprs with
  | nil => exact fun _ isMember => nomatch isMember
  | cons expr rest ih =>
      rw [unresolvedNamesOf, List.append_eq_nil_iff] at settled
      exact List.forall_mem_cons.mpr ⟨settled.1, ih settled.2⟩

theorem settleEach_eq_self {scope : Scope} {exprs : List TypeExpr}
    (each : ∀ expr ∈ exprs, expr.settle scope = expr) : settleEach scope exprs = exprs := by
  induction exprs with
  | nil => rfl
  | cons expr rest ih =>
      obtain ⟨first, others⟩ := List.forall_mem_cons.mp each
      rw [settleEach, first, ih others]

theorem settle_eq_self {expr : TypeExpr} (settled : expr.unresolvedNames = []) (scope : Scope) :
    expr.settle scope = expr := by
  induction expr using TypeExpr.induction with
  | collection kind element ih => rw [settle, ih settled]
  | tuple items ih =>
      rw [settle, settleEach_eq_self fun item isItem =>
        ih item isItem (unresolvedNames_of_mem settled item isItem)]
  | dict key value keyIh valueIh =>
      rw [unresolvedNames, List.append_eq_nil_iff] at settled
      rw [settle, keyIh settled.1, valueIh settled.2]
  | union members ih =>
      rw [settle, settleEach_eq_self fun member isMember =>
        ih member isMember (unresolvedNames_of_mem settled member isMember)]
  | annotated inner ih => rw [settle, ih settled]
  | unresolved name => cases settled
  | _ => rfl

end TypeExpr

/-! ## Classes -/

namespace RecordClass

theorem unresolvedNames_of_mem {cls : RecordClass} (settled : cls.unresolvedNames = [])
    {field : ClassField} (isField : field ∈ cls.fields) : field.type.unresolvedNames = [] :=
  TypeExpr.unresolvedNames_of_mem settled _ (List.mem_map_of_mem isField)

@[simp]
theorem key_settle (scope : Scope) (cls : RecordClass) : (cls.settle scope).key = cls.key := by
  unfold settle
  split <;> rfl

theorem settle_field_eq_self {field : ClassField} (settled : field.type.unresolvedNames = [])
    (scope : Scope) : field.settle scope = field := by
  rw [ClassField.settle, TypeExpr.settle_eq_self settled]

theorem settle_eq_self {cls : RecordClass} (settled : cls.unresolvedNames = []) (scope : Scope) :
    cls.settle scope = cls := by
  have same (field) (isField : field ∈ cls.fields) : ClassField.settle scope field = id field :=
    settle_field_eq_self (unresolvedNames_of_mem settled isField) scope
  unfold settle
  split
  · rw [List.map_congr_left same, List.map_id]
  · rfl

theorem latest_eq_self {fields : List ClassField} (distinct : (fields.map (·.name)).Nodup) :
    latest fields = fields := by
  have joined (kept : List ClassField) (apart : ((kept ++ fields).map (·.name)).Nodup) :
      fields.foldl (fun kept field =>
        if kept.any (·.name == field.name) then
          kept.map fun old => if old.name == field.name then field else old
        else kept ++ [field]) kept = kept ++ fields := by
    induction fields generalizing kept with
    | nil => simp
    | cons field rest ih =>
        have new : kept.any (·.name == field.name) = false := by
          rw [List.map_append, List.nodup_append] at apart
          rw [List.any_eq_false]
          intro old isOld
          simpa using apart.2.2 _ (List.mem_map_of_mem isOld) field.name (by simp)
        rw [List.foldl_cons, new, if_neg (by simp)]
        rw [List.append_cons kept field rest] at apart ⊢
        exact ih (List.nodup_cons.mp distinct).2 (kept ++ [field]) apart
  exact joined [] distinct

end RecordClass

namespace Catalog

theorem get?_cons_self {catalog : Catalog} {cls : RecordClass} (isNew : cls.key = catalog.nextKey) :
    Catalog.get? (cls :: catalog) cls.key = some cls := by
  rw [isNew]
  change (cls :: catalog).find? (fun other => other.key == catalog.nextKey) = some cls
  simp [isNew]

/-- A class of settled types is found as it was in what a declaration makes of the catalog. -/
theorem get?_settle {catalog : Catalog} {key : ClassKey} {cls : RecordClass}
    (found : catalog.get? key = some cls) (settled : cls.unresolvedNames = []) (scope : Scope) :
    Catalog.get? (catalog.map (·.settle scope)) key = some cls := by
  cases key with
  | base => exact found
  | anonymous => exact found
  | declared number =>
      have same : (fun cls : RecordClass => cls.key == ClassKey.declared number) ∘
          RecordClass.settle scope = fun cls => cls.key == ClassKey.declared number := by
        funext cls
        simp
      change (catalog.map (·.settle scope)).find? (·.key == .declared number) = some cls
      rw [List.find?_map, same]
      change (catalog.get? (.declared number)).map _ = _
      rw [found, Option.map_some, RecordClass.settle_eq_self settled]

end Catalog

end TypedReply
