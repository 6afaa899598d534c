import TypedReply.Proofs.Schema.Depth
import TypedReply.Proofs.Schema.Documents

/-!
# Keywords of documents

Keywords are looked for where schemas stand: in a node, and in what stands in it as properties,
definitions, items, further values and combinations. The names of properties and of definitions and
the choices of enumerations are no keywords, so whatever they are, a document of a compiled schema
uses the keywords that are emitted and no others, and nothing but its depth is objected to.
-/

namespace TypedReply

namespace Compatibility

open Value (Seen toPart)

variable {keywords : List String} {fields : Fields}

/-! ## The search -/

/-- Whether the definitions among parts use keywords. A table of definitions is gone through name by
name; anything else under its key is taken for a schema. -/
def definitionsUse (parts : Parts (Seen Bool)) : Bool :=
  match parts.get? "$defs" with
  | some ⟨.object _, seen⟩ => seen.entries.any fun (_, _, uses) => uses
  | some part => part.result.result
  | none => false

theorem usesStep_object (keywords : List String) (entries : Value.Entries)
    (parts : Parts (Seen Bool)) :
    usesStep keywords (.object entries) parts =
      (keywords.any (Value.Entries.has entries) ||
        ((Value.Parts.valuesOf parts "properties").any fun (_, _, uses) => uses) ||
        definitionsUse parts ||
        nestedKeywords.any fun keyword =>
          (parts.get? keyword).any fun part => part.result.result) :=
  rfl

theorem uses_list (keywords : List String) (items : List Value) :
    uses keywords (.list items) = items.any (uses keywords) := by
  rw [uses, Value.foldDeep, Value.fold_list, Seen.make, usesStep, List.any_map]
  rfl

/-- The schemas in a table of definitions, or the schema that stands in its place. -/
def defined : Option Value → List Value
  | some (.object table) => table.map Prod.snd
  | some other => [other]
  | none => []

/-- A node uses keywords if it has one itself, or a schema in it uses them. -/
theorem uses_node (keywords : List String) (fields : Fields) :
    uses keywords (Fields.node fields) =
      (keywords.any (fun keyword => (fields.get? keyword).isSome) ||
        (tabled (fields.get? "properties")).any (uses keywords) ||
        (defined (fields.get? "$defs")).any (uses keywords) ||
        nestedKeywords.any fun keyword => (fields.get? keyword).any (uses keywords)) := by
  generalize areParts : (Fields.node fields).parts (Seen.make (usesStep keywords)) = parts
  have part (name : String) : parts.get? name =
      (fields.get? name).map (toPart (Seen.make (usesStep keywords))) := by
    rw [← areParts, Fields.node, Value.ofFields_eq, Value.get?_parts, Value.get?_entriesOf]
  have here : keywords.any (Value.Entries.has (Value.entriesOf fields)) =
      keywords.any fun keyword => (fields.get? keyword).isSome := by
    refine congrArg (keywords.any ·) (funext fun keyword => ?_)
    rw [Value.Entries.has, Value.get?_entriesOf]
  have properties : ((Value.Parts.valuesOf parts "properties").any fun (_, _, uses) => uses) =
      (tabled (fields.get? "properties")).any (uses keywords) := by
    rw [Value.Parts.valuesOf, part]
    cases fields.get? "properties" with
    | none => rfl
    | some value =>
        rw [Option.map_some, toPart, Value.fold_eq, Seen.make]
        cases value with
        | object => simp [tabled, Value.parts, Function.comp_def, toPart, uses, Value.foldDeep]
        | _ => rfl
  have definitions : definitionsUse parts = (defined (fields.get? "$defs")).any (uses keywords) := by
    rw [definitionsUse, part]
    cases fields.get? "$defs" with
    | none => rfl
    | some value =>
        rw [Option.map_some, toPart]
        cases value with
        | object =>
            rw [Value.fold_eq, Seen.make]
            simp [defined, Value.parts, Function.comp_def, toPart, uses, Value.foldDeep]
        | _ => simp [defined, uses, Value.foldDeep]
  have nested (keyword : String) : ((parts.get? keyword).any fun part => part.result.result) =
      (fields.get? keyword).any (uses keywords) := by
    rw [part]
    cases fields.get? keyword <;> rfl
  calc uses keywords (Fields.node fields) = usesStep keywords (Fields.node fields) parts := by
        rw [uses, Value.foldDeep, Value.fold_eq, areParts]
        rfl
    _ = _ := by
        rw [Fields.node, Value.ofFields_eq, usesStep_object, here, properties, definitions]
        simp only [nested]

/-- Keywords are not used in a schema that is built of others, whatever its properties and
definitions are called. -/
theorem uses_eq_false_of_schema {condition : Fields → Prop} {schema : Value}
    (isSchema : IsSchema ["properties", "$defs"] condition schema)
    (foreign : ∀ keyword ∈ keywords, keyword ∉ emittedKeywords ++ ["properties", "$defs"]) :
    uses keywords schema = false := by
  induction isSchema with
  | node fields regular _ isTable _ _ _ isList _ inTable items additional among =>
      have absent (keyword : String)
          (unknown : keyword ∉ emittedKeywords ++ ["properties", "$defs"]) :
          fields.get? keyword = none :=
        Fields.get?_eq_none_of_not_mem fun isName =>
          unknown (List.mem_append.mpr (regular.known keyword isName))
      have table (name : String) (isName : name ∈ ["properties", "$defs"]) (value : Value)
          (found : fields.get? name = some value) :
          ∃ table, value = .object table ∧ ∀ sub ∈ table.map Prod.snd, uses keywords sub = false := by
        obtain ⟨table, rfl⟩ := isTable name isName value found
        refine ⟨Value.entriesOf table, rfl, fun sub isSub => ?_⟩
        obtain ⟨_, isEntry, rfl⟩ := List.mem_map.mp isSub
        obtain ⟨entry, isListed, rfl⟩ := List.mem_map.mp isEntry
        exact inTable name isName table found entry isListed
      have here : (keywords.any fun keyword => (fields.get? keyword).isSome) = false := by
        rw [List.any_eq_false]
        intro keyword isKeyword
        simp [absent keyword (foreign keyword isKeyword)]
      have properties : (tabled (fields.get? "properties")).any (uses keywords) = false := by
        rw [List.any_eq_false]
        intro sub isSub
        obtain ⟨entries, declared, isSub⟩ := mem_tabled_iff.mp isSub
        obtain ⟨_, ⟨⟩, each⟩ := table "properties" (by simp) _ declared
        simp [each sub isSub]
      have definitions : (defined (fields.get? "$defs")).any (uses keywords) = false := by
        cases found : fields.get? "$defs" with
        | none => rfl
        | some value =>
            obtain ⟨entries, rfl, each⟩ := table "$defs" (by simp) value found
            rw [List.any_eq_false]
            exact fun sub isSub => by simp [each sub isSub]
      have nested : (nestedKeywords.any fun keyword =>
          (fields.get? keyword).any (uses keywords)) = false := by
        rw [List.any_eq_false]
        intro keyword isKeyword
        cases found : fields.get? keyword with
        | none => simp
        | some value =>
            suffices uses keywords value = false by simp [this]
            simp only [nestedKeywords, combinations, List.cons_append, List.nil_append,
              List.mem_cons, List.not_mem_nil, or_false] at isKeyword
            rcases isKeyword with rfl | rfl | rfl | rfl | rfl
            · exact items value found
            · by_cases isClosed : value = .bool false
              · rw [isClosed]
                rfl
              · exact additional value found isClosed
            · obtain ⟨members, rfl⟩ := isList value found
              rw [uses_list, List.any_eq_false]
              exact fun member isMember => by simp [among members found member isMember]
            · cases found.symm.trans (absent "oneOf" (by decide))
            · cases found.symm.trans (absent "allOf" (by decide))
      rw [uses_node, here, properties, definitions, nested]
      rfl

/-! ## Documents -/

/-- No document of a compiled schema uses a keyword that strict schemas may not use, whatever its
properties and definitions are called: none of the schemas in it has one, and all that any provider
objects to is the depth, exactly where it is greater than the limit. -/
theorem only_depth_objected_to {options : Options} {store : Store} {target : Descriptor}
    {compiled : Compiled} (compiles : compile options store target = .ok compiled)
    (isDefault : options.defsKey = Options.defaults.defsKey) :
    (∀ node, Relation.ReflTransGen (Value.Child ["properties", options.defsKey])
        (compiled.document none) node →
      ∀ keyword ∈ strictIssues.flatMap Prod.fst, node.get? keyword = none) ∧
    ∀ env provider limit,
      Compatibility.validate env (compiled.document none) (Provider.name provider) limit =
        (limit.elim ((Options.ofEnvironment env none none none).map (·.maxDepth)) .ok).map
          fun bound : Int => if bound < depth (compiled.document none) then
            [depthIssue (depth (compiled.document none)) bound] else [] := by
  have free : options.defsKey ∉ emittedKeywords := isDefault ▸ by decide
  have isSchema : IsSchema ["properties", options.defsKey] (fun _ => True) (compiled.document none) :=
    isSchema_document compiles free
      ⟨fun _ _ _ => trivial, fun _ _ _ _ => trivial, fun _ _ => trivial, fun _ _ => trivial⟩
      fun _ _ => trivial
  rw [isDefault] at isSchema ⊢
  have foreign : ∀ keyword ∈ strictIssues.flatMap Prod.fst,
      keyword ∉ emittedKeywords ++ ["properties", "$defs"] := by decide
  refine ⟨fun node reaches keyword isKeyword => ?_, fun env provider limit => ?_⟩
  · rcases isSchema.reaches reaches with rfl | isNode
    · rfl
    · obtain ⟨fields, rfl⟩ := isNode.exists_fields
      exact (Fields.get?_node _ _).trans (isNode.get?_eq_none (foreign keyword isKeyword))
  · have unused : ∀ group ∈ strictIssues, uses group.1 (compiled.document none) = false :=
      fun group isGroup => uses_eq_false_of_schema isSchema fun keyword isKeyword =>
        foreign keyword (List.mem_flatMap.mpr ⟨group, isGroup, isKeyword⟩)
    have isNamed : Provider.named provider.name = .ok provider := by cases provider <;> rfl
    have known (bound : Int) : issues (compiled.document none) provider bound =
        if bound < depth (compiled.document none) then
          [depthIssue (depth (compiled.document none)) bound] else [] := by
      unfold issues
      cases provider with
      | openai =>
          refine (congrArg _ (List.filterMap_eq_nil_iff.mpr fun group isGroup => ?_)).trans
            (List.append_nil _)
          exact if_neg (by simp [unused group isGroup])
      | gemini => exact List.append_nil _
    rw [Compatibility.validate, isNamed]
    cases limit.elim ((Options.ofEnvironment env none none none).map (·.maxDepth)) .ok with
    | error failure => rfl
    | ok bound => exact congrArg Except.ok (known bound)

/-- Conditions that are told apart by fields called like keywords, the second with the first in it. -/
def conditions : Store :=
  [⟨"else", none, [⟨"if", .scalar .bool, true, none, none⟩,
      ⟨"patternProperties", .map (.scalar .string) (.scalar .int), false, none, none⟩], none⟩,
    ⟨"$defs", none, [⟨"oneOf", .array (.struct 0), true, none, none⟩,
      ⟨"then", .union [.struct 0, .scalar .string], true, none, none⟩,
      ⟨"items", .enum (.choices [.str "if", .str "then"]), true, none, none⟩], none⟩]

/-- Conditions whose fields and structs are called like keywords are only ever too deep. -/
theorem conditions_only_deep :
    ∃ compiled, compile Options.defaults conditions (.struct 1) = .ok compiled ∧
      Options.defaults.defsKey = "$defs" ∧ depth (compiled.document none) = 3 ∧
      (∀ env provider, Compatibility.validate env (compiled.document none) (Provider.name provider)
        (some 3) = .ok []) ∧
      ∀ env provider, Compatibility.validate env (compiled.document none) (Provider.name provider)
        (some 2) = .ok ["Schema depth (3) exceeds recommended limit of 2 levels"] := by
  obtain ⟨-, objections⟩ := @only_depth_objected_to Options.defaults conditions (.struct 1) _ rfl rfl
  exact ⟨_, rfl, rfl, rfl, fun env provider => objections env provider (some 3),
    fun env provider => objections env provider (some 2)⟩

end Compatibility

end TypedReply
