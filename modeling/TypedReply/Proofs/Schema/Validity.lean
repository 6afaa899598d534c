import TypedReply.Proofs.Value.Objects
import TypedReply.Schema.Compile

/-!
# What a schema admits

The standard meaning of the keywords that compiled schemas use: `type`, `enum`, `const`, `items`,
`properties`, `required`, `additionalProperties`, `anyOf` and `$ref`. All keywords of a node apply
together, and each says something only about values of its own kind: `properties` about objects,
`items` about lists. Annotations such as `description` and `format` say nothing.
-/

namespace TypedReply

/-! ## JSON values -/

namespace Value

/-- Plain data as JSON text denotes it: finite numbers, the integers among them below a bound in
size, and objects whose keys are different texts. -/
inductive IsJson (bound : Nat) : Value → Prop where
  | null : IsJson bound .null
  | bool (b : Bool) : IsJson bound (.bool b)
  | int (n : Int) (small : n.natAbs < bound) : IsJson bound (.int n)
  | float (negative : Bool) (code : Fin Double.codeCount) :
      IsJson bound (.float (.finite negative code))
  | str (text : String) : IsJson bound (.str text)
  | list {items : List Value} (each : ∀ item ∈ items, IsJson bound item) :
      IsJson bound (.list items)
  | object {fields : Fields} (distinct : (fields.map Prod.fst).Nodup)
      (each : ∀ field ∈ fields, IsJson bound field.2) : IsJson bound (ofFields fields)

/-- Whether a value is of a type in the words of JSON; a number without a fraction is an integer. -/
def hasType (name : String) : Value → Bool
  | .null => name == "null"
  | .bool _ => name == "boolean"
  | .int _ => name == "integer" || name == "number"
  | .float x => name == "number" || (name == "integer" && x.toInt?.isSome)
  | .str _ => name == "string"
  | .list _ => name == "array"
  | .object _ => name == "object"
  | _ => false

mutual

/-- Equality of JSON values: numbers are compared by size, objects without regard to order, and a
Boolean equals no number. -/
def sameJson : Value → Value → Bool
  | .bool b, w => match w with
    | .bool c => b == c
    | _ => false
  | .list vs, w => match w with
    | .list ws => sameJsonItems vs ws
    | _ => false
  | .object vs, w => match w with
    | .object ws => vs.length == ws.length && sameJsonWithin vs ws
    | _ => false
  | v, w => match w with
    | .bool _ => false
    | _ => v.sameScalar w
termination_by structural v => v

/-- Equality of JSON arrays, item by item. -/
def sameJsonItems : List Value → List Value → Bool
  | [], [] => true
  | v :: vs, w :: ws => v.sameJson w && sameJsonItems vs ws
  | _, _ => false
termination_by structural vs => vs

/-- Whether every entry of a JSON object has its equal among the others. -/
def sameJsonWithin : List (Value × Value) → List (Value × Value) → Bool
  | [], _ => true
  | (k, v) :: entries, others =>
    others.any (fun (l, w) => k.same l && v.sameJson w) && sameJsonWithin entries others
termination_by structural entries => entries

end

@[simp]
theorem hasType_null (value : Value) : value.hasType "null" = true ↔ value = .null := by
  cases value <;> simp [hasType]

@[simp]
theorem hasType_string (value : Value) :
    value.hasType "string" = true ↔ ∃ text, value = .str text := by
  cases value <;> simp [hasType]

@[simp]
theorem hasType_array (value : Value) :
    value.hasType "array" = true ↔ ∃ items, value = .list items := by
  cases value <;> simp [hasType]

@[simp]
theorem hasType_object (value : Value) :
    value.hasType "object" = true ↔ ∃ entries, value = .object entries := by
  cases value <;> simp [hasType]

@[simp]
theorem sameJson_null (value : Value) : value.sameJson .null = true ↔ value = .null := by
  cases value with
  | member tag name held =>
      simp only [sameJson, sameScalar, number?, integer?, text?]
      split <;> simp_all
  | bool b => simp [sameJson]
  | _ => simp [sameJson, sameScalar, number?, integer?, text?]

@[simp]
theorem sameJson_str (text other : String) :
    (str text).sameJson (.str other) = true ↔ text = other := by
  simp [sameJson, sameScalar, number?, text?, integer?]

theorem sizeOf_lt_of_mem_list {items : List Value} {item : Value} (member : item ∈ items) :
    sizeOf item < sizeOf (list items) := by
  have smaller := List.sizeOf_lt_of_mem member
  simp only [list.sizeOf_spec]
  omega

theorem sizeOf_lt_of_get? {value part : Value} {name : String}
    (found : value.get? name = some part) : sizeOf part < sizeOf value := by
  cases value with
  | object entries =>
      obtain ⟨⟨key, held⟩, hit, rfl⟩ := Option.map_eq_some_iff.mp found
      have smaller := List.sizeOf_lt_of_mem (List.mem_of_find?_eq_some hit)
      simp only [Prod.mk.sizeOf_spec] at smaller
      simp only [object.sizeOf_spec]
      omega
  | _ => simp [get?, entries?] at found

end Value

/-! ## Validity -/

/-- What the references of a schema lead to: each is a prefix followed by the name of a node. -/
structure Definitions where
  refPrefix : String
  nodes : Value.Entries

def Definitions.Refers (definitions : Definitions) (ref target : Value) : Prop :=
  ∃ name, ref = .str (definitions.refPrefix ++ name) ∧ definitions.nodes.get? name = some target

/-- Whether a `type` keyword, the name of a type or a list of such names, allows a value. -/
def admitsType : Value → Value → Bool
  | .str name, value => value.hasType name
  | .list names, value => names.any fun
    | .str name => value.hasType name
    | _ => false
  | _, _ => false

/-- A value is admitted by a schema node: by `true`, or by an object all of whose keywords it meets.
An alternative of `anyOf` and the target of `$ref` are chosen once for all. -/
inductive Validates (definitions : Definitions) : (node value : Value) → Prop where
  | always (value : Value) : Validates definitions (.bool true) value
  | keywords {node value : Value} (chosen target : Value) (isObject : node.isObject = true)
      (type : ∀ kinds, node.get? "type" = some kinds → admitsType kinds value = true)
      (enum : ∀ choices, node.get? "enum" = some (.list choices) →
        ∃ choice ∈ choices, choice.sameJson value = true)
      (const : ∀ choice, node.get? "const" = some choice → choice.sameJson value = true)
      (items : ∀ sub, node.get? "items" = some sub → ∀ elements, value = .list elements →
        ∀ item ∈ elements, Validates definitions sub item)
      (required : ∀ names, node.get? "required" = some (.list names) → value.isObject = true →
        ∀ name, .str name ∈ names → (value.get? name).isSome = true)
      (properties : ∀ name part, value.get? name = some part →
        ∀ sub, (node.get? "properties").bind (·.get? name) = some sub →
          Validates definitions sub part)
      (additional : ∀ sub, node.get? "additionalProperties" = some sub →
        ∀ name part, value.get? name = some part →
          (node.get? "properties").bind (·.get? name) = none → Validates definitions sub part)
      (isAlternative : ∀ alternatives, node.get? "anyOf" = some (.list alternatives) →
        chosen ∈ alternatives)
      (anyOf : ∀ alternatives, node.get? "anyOf" = some (.list alternatives) →
        Validates definitions chosen value)
      (refers : ∀ reference, node.get? "$ref" = some reference →
        definitions.Refers reference target)
      (ref : ∀ reference, node.get? "$ref" = some reference →
        Validates definitions target value) :
      Validates definitions node value

/-- The keywords of a node, as they apply to a value. -/
structure Keywords (definitions : Definitions) (node value : Value) : Prop where
  type : ∀ kinds, node.get? "type" = some kinds → admitsType kinds value = true
  enum : ∀ choices, node.get? "enum" = some (.list choices) →
    ∃ choice ∈ choices, choice.sameJson value = true
  const : ∀ choice, node.get? "const" = some choice → choice.sameJson value = true
  items : ∀ sub, node.get? "items" = some sub → ∀ elements, value = .list elements →
    ∀ item ∈ elements, Validates definitions sub item
  required : ∀ names, node.get? "required" = some (.list names) → value.isObject = true →
    ∀ name, .str name ∈ names → (value.get? name).isSome = true
  properties : ∀ name part, value.get? name = some part →
    ∀ sub, (node.get? "properties").bind (·.get? name) = some sub →
      Validates definitions sub part
  additional : ∀ sub, node.get? "additionalProperties" = some sub →
    ∀ name part, value.get? name = some part →
      (node.get? "properties").bind (·.get? name) = none → Validates definitions sub part
  anyOf : ∀ alternatives, node.get? "anyOf" = some (.list alternatives) →
    ∃ alternative ∈ alternatives, Validates definitions alternative value
  ref : ∀ reference, node.get? "$ref" = some reference →
    ∃ target, definitions.Refers reference target ∧ Validates definitions target value

/-- An object admits the values that meet all its keywords. -/
theorem validates_iff {definitions : Definitions} {node value : Value}
    (isObject : node.isObject = true) :
    Validates definitions node value ↔ Keywords definitions node value := by
  constructor
  · intro valid
    cases valid with
    | always => cases isObject
    | keywords chosen target _ type enum const items required properties additional
        isAlternative anyOf refers ref =>
        exact ⟨type, enum, const, items, required, properties, additional,
          fun alternatives found =>
            ⟨chosen, isAlternative alternatives found, anyOf alternatives found⟩,
          fun reference found => ⟨target, refers reference found, ref reference found⟩⟩
  · intro met
    have alternative : ∃ chosen, ∀ alternatives,
        node.get? "anyOf" = some (.list alternatives) →
          chosen ∈ alternatives ∧ Validates definitions chosen value := by
      by_cases present : ∃ alternatives, node.get? "anyOf" = some (.list alternatives)
      · obtain ⟨alternatives, found⟩ := present
        obtain ⟨chosen, member, valid⟩ := met.anyOf alternatives found
        refine ⟨chosen, fun others again => ?_⟩
        cases found.symm.trans again
        exact ⟨member, valid⟩
      · exact ⟨.null, fun alternatives found => (present ⟨alternatives, found⟩).elim⟩
    have reached : ∃ target, ∀ reference, node.get? "$ref" = some reference →
        definitions.Refers reference target ∧ Validates definitions target value := by
      cases present : node.get? "$ref" with
      | none => exact ⟨.null, fun reference found => by cases found⟩
      | some reference =>
          obtain ⟨target, refers, valid⟩ := met.ref reference present
          refine ⟨target, fun other again => ?_⟩
          cases again
          exact ⟨refers, valid⟩
    obtain ⟨chosen, chosenMeets⟩ := alternative
    obtain ⟨target, targetMeets⟩ := reached
    exact .keywords chosen target isObject met.type met.enum met.const met.items met.required
      met.properties met.additional
      (fun alternatives found => (chosenMeets alternatives found).1)
      (fun alternatives found => (chosenMeets alternatives found).2)
      (fun reference found => (targetMeets reference found).1)
      (fun reference found => (targetMeets reference found).2)

def keywordNames : List String :=
  ["type", "enum", "const", "items", "required", "properties", "additionalProperties", "anyOf", "$ref"]

/-- Two nodes with the same keywords admit the same values, whatever else they hold. -/
theorem Keywords.of_same {definitions : Definitions} {node other value : Value}
    (same : ∀ name ∈ keywordNames, node.get? name = other.get? name)
    (met : Keywords definitions node value) : Keywords definitions other value := by
  simp only [keywordNames, List.forall_mem_cons] at same
  obtain ⟨type, enum, const, items, required, properties, additional, anyOf, ref, -⟩ := same
  constructor
  · exact type ▸ met.type
  · exact enum ▸ met.enum
  · exact const ▸ met.const
  · exact items ▸ met.items
  · exact required ▸ met.required
  · exact properties ▸ met.properties
  · exact additional ▸ properties ▸ met.additional
  · exact anyOf ▸ met.anyOf
  · exact ref ▸ met.ref

@[simp]
theorem not_validates_false (definitions : Definitions) (value : Value) :
    ¬Validates definitions (.bool false) value := by
  intro valid
  cases valid with
  | keywords chosen target isObject => cases isObject

/-- What the references of a compiled schema lead to. -/
def Compiled.targets (compiled : Compiled) : Definitions :=
  ⟨"#/" ++ compiled.defsKey ++ "/", compiled.definitions⟩

/-- A value is admitted by a compiled schema with its definitions. -/
def Compiled.Admits (compiled : Compiled) (value : Value) : Prop :=
  Validates compiled.targets compiled.schema value

/-- The document of a compiled schema admits what the schema does, unless its definitions are mounted
under a keyword. -/
theorem Compiled.validates_document_iff {compiled : Compiled} {fields : Fields}
    (isNode : compiled.schema = Fields.node fields) (free : compiled.defsKey ∉ keywordNames)
    (value : Value) :
    Validates compiled.targets (compiled.document none) value ↔ compiled.Admits value := by
  have same : ∀ name ∈ keywordNames,
      (compiled.document none).get? name = compiled.schema.get? name := by
    intro name isKeyword
    rw [document, isNode]
    split
    · rfl
    · have different : name ≠ compiled.defsKey := fun isKey => free (isKey ▸ isKeyword)
      show (Value.object ((Value.entriesOf fields).put _ _)).get? name = _
      rw [put_ofFields, ← Value.ofFields_eq, Value.get?_ofFields, Fields.get?_put, if_neg different]
      exact (Value.get?_ofFields fields name).symm
  have isObject : compiled.schema.isObject = true := isNode ▸ rfl
  rw [Admits, validates_iff rfl, validates_iff isObject]
  exact ⟨.of_same same, .of_same fun name isKeyword => (same name isKeyword).symm⟩

end TypedReply
