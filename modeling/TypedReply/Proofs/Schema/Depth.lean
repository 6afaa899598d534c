import TypedReply.Proofs.Schema.Cutting
import TypedReply.Schema.Compatibility

/-!
# The depth of a shape

The depth that is checked before shaping is that of the document, in which references end. Shaping
drops what maps hold and null alternatives and takes a single alternative for the node itself, so
that it never nests a schema deeper but through references: a reference is as deep as what it is
replaced by, at the level where it stands.
-/

namespace TypedReply

/-- A schema has no keywords but those that are emitted and those of its tables. -/
theorem IsSchema.get?_eq_none {tables : List String} {condition : Fields → Prop} {fields : Fields}
    (isSchema : IsSchema tables condition (Fields.node fields)) {name : String}
    (unknown : name ∉ emittedKeywords ++ tables) : fields.get? name = none := by
  apply Fields.get?_eq_none_of_not_mem
  intro isName
  rcases isSchema.isRegular.known name isName with isKeyword | isTable
  · exact unknown (List.mem_append_left _ isKeyword)
  · exact unknown (List.mem_append_right _ isTable)

/-- The properties of a schema are schemas. -/
theorem IsSchema.property {tables : List String} {condition : Fields → Prop} {fields : Fields}
    (isSchema : IsSchema tables condition (Fields.node fields)) (isTable : "properties" ∈ tables)
    {table : Value.Entries} (declared : fields.get? "properties" = some (.object table))
    {inner : Value} (isProperty : inner ∈ table.map Prod.snd) :
    IsSchema tables condition inner := by
  obtain ⟨properties, isTabled, each⟩ := isSchema.table isTable declared
  cases isTabled
  obtain ⟨_, isEntry, rfl⟩ := List.mem_map.mp isProperty
  obtain ⟨property, isListed, rfl⟩ := List.mem_map.mp isEntry
  exact each property isListed

namespace Compatibility

open Value (Seen toPart)

/-! ## Depth -/

theorem foldl_max_le_iff {numbers : List Nat} {start bound : Nat} :
    numbers.foldl max start ≤ bound ↔ start ≤ bound ∧ ∀ number ∈ numbers, number ≤ bound := by
  induction numbers generalizing start with
  | nil => simp
  | cons number rest ih =>
      rw [List.foldl_cons, ih, Nat.max_le, List.forall_mem_cons, and_assoc]

/-- The schemas in a table, if there is one. -/
def tabled : Option Value → List Value
  | some (.object table) => table.map Prod.snd
  | _ => []

/-- The schema that stands somewhere, if there is one. -/
def placed : Option Value → List Value
  | some (.object entries) => [.object entries]
  | _ => []

/-- The schemas in a list, if there is one. -/
def listed : Option Value → List Value
  | some (.list members) => members
  | _ => []

section Members

variable {value : Option Value} {sub : Value}

theorem mem_tabled_iff :
    sub ∈ tabled value ↔ ∃ table, value = some (.object table) ∧ sub ∈ table.map Prod.snd := by
  unfold tabled
  split <;> simp_all

theorem mem_placed_iff : sub ∈ placed value ↔ value = some sub ∧ sub.isObject = true := by
  unfold placed
  split
  next entries =>
    rw [List.mem_singleton, Option.some.injEq, eq_comm]
    exact (and_iff_left_of_imp fun same => same ▸ rfl).symm
  next other =>
    refine iff_of_false List.not_mem_nil ?_
    rintro ⟨found, isObject⟩
    obtain ⟨entries, isEntries⟩ := Option.isSome_iff_exists.mp isObject
    exact other entries (found.trans (congrArg some (Value.entries?_eq_some_iff.mp isEntries)))

theorem mem_listed_iff :
    sub ∈ listed value ↔ ∃ members, value = some (.list members) ∧ sub ∈ members := by
  unfold listed
  split <;> simp_all

end Members

/-- The schemas that depth counts in a node: its properties, its items, and the members of its
combinations. -/
def nested (fields : Fields) : List Value :=
  tabled (fields.get? "properties") ++ placed (fields.get? "items") ++
    combinations.flatMap fun keyword => listed (fields.get? keyword)

theorem mem_nested_iff {fields : Fields} {sub : Value} : sub ∈ nested fields ↔
    (∃ table, fields.get? "properties" = some (.object table) ∧ sub ∈ table.map Prod.snd) ∨
    (fields.get? "items" = some sub ∧ sub.isObject = true) ∨
    ∃ keyword ∈ combinations, ∃ members, fields.get? keyword = some (.list members) ∧
      sub ∈ members := by
  simp only [nested, List.mem_append, List.mem_flatMap, mem_tabled_iff, mem_placed_iff,
    mem_listed_iff, or_assoc]

/-- The depth of the items among parts. -/
def itemsDepth (parts : Parts (Seen Nat)) : List Nat :=
  match parts.get? "items" with
  | some ⟨.object _, seen⟩ => [seen.result]
  | _ => []

theorem depthStep_eq (schema : Value) (parts : Parts (Seen Nat)) :
    depthStep schema parts =
      (((Value.Parts.valuesOf parts "properties").map (fun entry => entry.2.2) ++
        itemsDepth parts ++ combinations.flatMap fun keyword =>
          (Value.Parts.itemsOf parts keyword).map Prod.snd).map (· + 1)).foldl max 0 :=
  rfl

theorem depth_node (fields : Fields) :
    depth (Fields.node fields) = ((nested fields).map (depth · + 1)).foldl max 0 := by
  generalize areParts : (Fields.node fields).parts (Seen.make depthStep) = parts
  have part (name : String) : parts.get? name =
      (fields.get? name).map (toPart (Seen.make depthStep)) := by
    rw [← areParts, Fields.node, Value.ofFields_eq, Value.get?_parts, Value.get?_entriesOf]
  have properties : ((Value.Parts.valuesOf parts "properties").map fun entry => entry.2.2) =
      (tabled (fields.get? "properties")).map depth := by
    rw [Value.Parts.valuesOf, part]
    cases fields.get? "properties" with
    | none => rfl
    | some value =>
        rw [Option.map_some, toPart, Value.fold_eq, Seen.make]
        cases value with
        | object => simp [tabled, Value.parts, Function.comp_def, toPart, depth, Value.foldDeep]
        | _ => rfl
  have members (keyword : String) : (Value.Parts.itemsOf parts keyword).map Prod.snd =
      (listed (fields.get? keyword)).map depth := by
    rw [Value.Parts.itemsOf, part]
    cases fields.get? keyword with
    | none => rfl
    | some value =>
        rw [Option.map_some, toPart, Value.fold_eq, Seen.make]
        cases value with
        | list => simp [listed, Value.parts, Function.comp_def, toPart, depth, Value.foldDeep]
        | _ => rfl
  have items : itemsDepth parts = (placed (fields.get? "items")).map depth := by
    rw [itemsDepth, part]
    cases fields.get? "items" with
    | none => rfl
    | some value => cases value <;> rfl
  calc depth (Fields.node fields) = depthStep (Fields.node fields) parts := by
        rw [depth, Value.foldDeep, Value.fold_eq, areParts]
        rfl
    _ = _ := by
        rw [depthStep_eq, properties, items, nested, ← Function.comp_def (· + 1) depth,
          ← List.map_map]
        simp only [members, List.map_append, List.map_flatMap]

theorem depth_le_iff {fields : Fields} {bound : Nat} :
    depth (Fields.node fields) ≤ bound ↔ ∀ sub ∈ nested fields, depth sub + 1 ≤ bound := by
  rw [depth_node, foldl_max_le_iff, List.forall_mem_map]
  exact and_iff_right (Nat.zero_le _)

/-- Where only alternatives are combined, depth counts properties, items and alternatives. -/
theorem depth_le_iff_of_alternatives {fields : Fields} {bound : Nat}
    (noOneOf : fields.get? "oneOf" = none) (noAllOf : fields.get? "allOf" = none) :
    depth (Fields.node fields) ≤ bound ↔
      (∀ table, fields.get? "properties" = some (.object table) →
        ∀ sub ∈ table.map Prod.snd, depth sub + 1 ≤ bound) ∧
      (∀ sub, fields.get? "items" = some sub → sub.isObject = true → depth sub + 1 ≤ bound) ∧
      ∀ members, fields.get? "anyOf" = some (.list members) →
        ∀ member ∈ members, depth member + 1 ≤ bound := by
  rw [depth_le_iff]
  simp only [mem_nested_iff]
  constructor
  · intro each
    refine ⟨fun table declared sub isSub => each sub (.inl ⟨table, declared, isSub⟩),
      fun sub found isObject => each sub (.inr (.inl ⟨found, isObject⟩)),
      fun members found member isMember => ?_⟩
    exact each member (.inr (.inr ⟨"anyOf", by simp [combinations], members, found, isMember⟩))
  · rintro ⟨properties, items, alternatives⟩ sub (⟨table, declared, isSub⟩ | ⟨found, isObject⟩ |
      ⟨keyword, isKeyword, members, found, isMember⟩)
    · exact properties table declared sub isSub
    · exact items sub found isObject
    · simp only [combinations, List.mem_cons, List.not_mem_nil, or_false] at isKeyword
      rcases isKeyword with rfl | rfl | rfl
      · exact alternatives members found sub isMember
      · rw [noOneOf] at found
        cases found
      · rw [noAllOf] at found
        cases found

/-- Nodes with the same properties and items that combine the same members are equally deep. -/
theorem depth_congr {fields others : Fields}
    (same : ∀ name ∈ ["properties", "items"], others.get? name = fields.get? name)
    (combined : ∀ keyword ∈ combinations, ∀ members,
      others.get? keyword = some (.list members) ↔ fields.get? keyword = some (.list members)) :
    depth (Fields.node others) = depth (Fields.node fields) := by
  have sameNested (sub : Value) : sub ∈ nested others ↔ sub ∈ nested fields := by
    rw [mem_nested_iff, mem_nested_iff, same "properties" (by simp), same "items" (by simp)]
    refine or_congr_right (or_congr_right (exists_congr fun keyword => ?_))
    refine and_congr_right fun isKeyword => ?_
    exact exists_congr fun members => and_congr_left' (combined keyword isKeyword members)
  apply Nat.le_antisymm
  · rw [depth_le_iff]
    exact fun sub isSub => depth_le_iff.mp le_rfl sub ((sameNested sub).mp isSub)
  · rw [depth_le_iff]
    exact fun sub isSub => depth_le_iff.mp le_rfl sub ((sameNested sub).mpr isSub)

end Compatibility

namespace Gemini

open Compile (saysNull)
open Compatibility (depth depth_le_iff_of_alternatives depth_congr)

variable {expand : String → Outcome Value} {node : Value}

/-! ## References at their levels -/

/-- A name is referred to by a node that shaping keeps, at a level of the shape: properties, items
and one of several alternatives are a level deeper than the node that they stand in. -/
inductive RefersAt : Value → Nat → String → Prop where
  | here {node : Value} {reference : String}
      (isReference : node.get? "$ref" = some (.str reference)) :
      RefersAt node 0 (Compile.refName reference)
  | property {node inner : Value} {table : Value.Entries} {level : Nat} {name : String}
      (noReference : node.get? "$ref" = none) (noAlternatives : node.get? "anyOf" = none)
      (declared : node.get? "properties" = some (.object table))
      (isProperty : inner ∈ table.map Prod.snd) (refers : RefersAt inner level name) :
      RefersAt node (level + 1) name
  | item {node inner : Value} {level : Nat} {name : String}
      (noReference : node.get? "$ref" = none) (noAlternatives : node.get? "anyOf" = none)
      (found : node.get? "items" = some inner) (refers : RefersAt inner level name) :
      RefersAt node (level + 1) name
  | only {node single : Value} {members : List Value} {level : Nat} {name : String}
      (noReference : node.get? "$ref" = none) (found : node.get? "anyOf" = some (.list members))
      (others : members.filter (!saysNull ·) = [single]) (refers : RefersAt single level name) :
      RefersAt node level name
  | alternative {node member : Value} {members : List Value} {level : Nat} {name : String}
      (noReference : node.get? "$ref" = none) (found : node.get? "anyOf" = some (.list members))
      (several : (members.filter (!saysNull ·)).length ≠ 1)
      (isOther : member ∈ members.filter (!saysNull ·)) (refers : RefersAt member level name) :
      RefersAt node (level + 1) name

/-- What the references in a node are replaced by stays within a depth. -/
def StaysWithin (expand : String → Outcome Value) (node : Value) (bound : Nat) : Prop :=
  ∀ level name, RefersAt node level name → ∀ shaped, expand name = .ok shaped →
    level + depth shaped ≤ bound

/-- What the references in a node are replaced by stays within a depth, one level further in. -/
def StaysBelow (expand : String → Outcome Value) (node : Value) (bound : Nat) : Prop :=
  ∀ level name, RefersAt node level name → ∀ shaped, expand name = .ok shaped →
    level + 1 + depth shaped ≤ bound

section Stays

variable {bound : Nat} {members : List Value}

theorem staysWithin_reference {reference : String}
    (isReference : node.get? "$ref" = some (.str reference)) :
    StaysWithin expand node bound ↔
      ∀ shaped, expand (Compile.refName reference) = .ok shaped → depth shaped ≤ bound := by
  constructor
  · intro stays shaped isShaped
    have within := stays 0 _ (.here isReference) shaped isShaped
    rwa [Nat.zero_add] at within
  · intro within level name refers shaped isShaped
    cases refers with
    | here found =>
        cases found.symm.trans isReference
        rw [Nat.zero_add]
        exact within shaped isShaped
    | property noReference | item noReference | only noReference | alternative noReference =>
        cases noReference.symm.trans isReference

theorem staysWithin_only {single : Value} (noReference : node.get? "$ref" = none)
    (found : node.get? "anyOf" = some (.list members))
    (others : members.filter (!saysNull ·) = [single]) :
    StaysWithin expand node bound ↔ StaysWithin expand single bound := by
  constructor
  · exact fun stays level name refers => stays level name (.only noReference found others refers)
  · intro stays level name refers
    cases refers with
    | here isReference => cases noReference.symm.trans isReference
    | property _ noAlternatives | item _ noAlternatives => cases noAlternatives.symm.trans found
    | only _ foundToo othersToo refers =>
        cases foundToo.symm.trans found
        cases othersToo.symm.trans others
        exact stays level name refers
    | alternative _ foundToo several =>
        cases foundToo.symm.trans found
        rw [others] at several
        exact (several rfl).elim

theorem staysWithin_alternatives (noReference : node.get? "$ref" = none)
    (found : node.get? "anyOf" = some (.list members))
    (several : (members.filter (!saysNull ·)).length ≠ 1) :
    StaysWithin expand node bound ↔
      ∀ member ∈ members.filter (!saysNull ·), StaysBelow expand member bound := by
  constructor
  · intro stays member isOther level name refers
    exact stays (level + 1) name (.alternative noReference found several isOther refers)
  · intro below level name refers
    cases refers with
    | here isReference => cases noReference.symm.trans isReference
    | property _ noAlternatives | item _ noAlternatives => cases noAlternatives.symm.trans found
    | only _ foundToo others =>
        cases foundToo.symm.trans found
        rw [others] at several
        exact (several rfl).elim
    | alternative _ foundToo _ isOther refers =>
        cases foundToo.symm.trans found
        exact below _ isOther _ name refers

theorem staysWithin_plain (noReference : node.get? "$ref" = none)
    (noAlternatives : node.get? "anyOf" = none) :
    StaysWithin expand node bound ↔
      (∀ table, node.get? "properties" = some (.object table) →
        ∀ inner ∈ table.map Prod.snd, StaysBelow expand inner bound) ∧
      ∀ inner, node.get? "items" = some inner → StaysBelow expand inner bound := by
  constructor
  · intro stays
    refine ⟨fun table declared inner isProperty level name refers => ?_,
      fun inner found level name refers => ?_⟩
    · exact stays (level + 1) name
        (.property noReference noAlternatives declared isProperty refers)
    · exact stays (level + 1) name (.item noReference noAlternatives found refers)
  · rintro ⟨properties, items⟩ level name refers
    cases refers with
    | here isReference => cases noReference.symm.trans isReference
    | property _ _ declared isProperty refers =>
        exact properties _ declared _ isProperty _ name refers
    | item _ _ found refers => exact items _ found _ name refers
    | only _ found | alternative _ found => cases noAlternatives.symm.trans found

end Stays

/-! ## The depth of an image -/

/-- The shape of a node is within a depth that the node is within, exactly if what its references
are replaced by is. -/
def IsBounded (expand : String → Outcome Value) (node : Value) : Prop :=
  ∀ bound, depth node ≤ bound →
    (depth (shapeImage expand node) ≤ bound ↔ StaysWithin expand node bound)

theorem IsBounded.below {bound : Nat} (isBounded : IsBounded expand node)
    (fits : depth node + 1 ≤ bound) :
    depth (shapeImage expand node) + 1 ≤ bound ↔ StaysBelow expand node bound := by
  obtain ⟨less, rfl⟩ : ∃ less, bound = less + 1 := ⟨bound - 1, by omega⟩
  have same (level depth : Nat) : level + 1 + depth ≤ less + 1 ↔ level + depth ≤ less := by omega
  simp only [StaysBelow, same, Nat.add_le_add_iff_right]
  exact isBounded less (by omega)

section Inside

variable {condition : Fields → Prop} {fields : Fields}
variable (isSchema : IsSchema ["properties"] condition (Fields.node fields))
include isSchema

/-- In a schema depth counts properties, items and alternatives. -/
theorem depth_le_iff_of_schema {bound : Nat} :
    depth (Fields.node fields) ≤ bound ↔
      (∀ table, fields.get? "properties" = some (.object table) →
        ∀ sub ∈ table.map Prod.snd, depth sub + 1 ≤ bound) ∧
      (∀ sub, fields.get? "items" = some sub → sub.isObject = true → depth sub + 1 ≤ bound) ∧
      ∀ members, fields.get? "anyOf" = some (.list members) →
        ∀ member ∈ members, depth member + 1 ≤ bound :=
  depth_le_iff_of_alternatives (isSchema.get?_eq_none (by decide))
    (isSchema.get?_eq_none (by decide))

theorem depth_property_lt {table : Value.Entries} {inner : Value}
    (declared : fields.get? "properties" = some (.object table))
    (isProperty : inner ∈ table.map Prod.snd) : depth inner < depth (Fields.node fields) :=
  ((depth_le_iff_of_schema isSchema).mp le_rfl).1 table declared inner isProperty

theorem depth_item_lt {inner : Value} (found : fields.get? "items" = some inner) :
    depth inner < depth (Fields.node fields) :=
  ((depth_le_iff_of_schema isSchema).mp le_rfl).2.1 inner found (isSchema.item found).isObject

theorem depth_member_lt {members : List Value} {member : Value}
    (found : fields.get? "anyOf" = some (.list members)) (isMember : member ∈ members) :
    depth member < depth (Fields.node fields) :=
  ((depth_le_iff_of_schema isSchema).mp le_rfl).2.2 members found member isMember

end Inside

section Nodes

variable {fields : Fields} {bound : Nat}
variable (total : ∀ name, IsShape (expand name))
variable (isSchema : IsSchema ["properties"] IsTextual (Fields.node fields))
include total

theorem isBounded_reference {reference : String}
    (isReference : fields.get? "$ref" = some (.str reference)) :
    IsBounded expand (Fields.node fields) := by
  intro bound _
  obtain ⟨shaped, -, isShape⟩ := total (Compile.refName reference)
  rw [staysWithin_reference ((Fields.get?_node _ _).trans isReference), shapeImage,
    shapeWith_reference isReference, isShape]
  simp

include isSchema

theorem isBounded_alternatives {members : List Value} (noReference : fields.get? "$ref" = none)
    (areMembers : fields.get? "anyOf" = some (.list members))
    (each : ∀ member ∈ members, IsBounded expand member) :
    IsBounded expand (Fields.node fields) := by
  intro bound fits
  obtain ⟨base, -, isBase, image⟩ := image_alternatives total isSchema noReference areMembers
  have unmarked : depth (Fields.node (noted (members.any saysNull)
      (fields.get? "description") base)) = depth (Fields.node base) := by
    apply depth_congr
    · intro name isCounted
      apply get?_noted_of_ne
      constructor <;> (rintro rfl; simp at isCounted)
    · intro keyword isCombination _
      rw [get?_noted_of_ne]
      constructor <;> (rintro rfl; simp [Compatibility.combinations] at isCombination)
  have fit {member : Value} (isMember : member ∈ members) : depth member + 1 ≤ bound :=
    (depth_member_lt isSchema areMembers isMember).trans_le fits
  rw [image, unmarked]
  rw [← Fields.get?_node] at noReference areMembers
  by_cases isOne : (members.filter (!saysNull ·)).length = 1
  · obtain ⟨member, others⟩ := List.length_eq_one_iff.mp isOne
    have isMember : member ∈ members := List.mem_of_mem_filter (p := (!saysNull ·))
      (others ▸ List.mem_singleton_self member)
    rw [others] at isBase
    rw [staysWithin_only noReference areMembers others, ← isBase]
    exact each member isMember bound ((Nat.le_succ _).trans (fit isMember))
  · have below (member : Value) (isOther : member ∈ members.filter (!saysNull ·)) :=
      (each member (List.mem_of_mem_filter isOther)).below (fit (List.mem_of_mem_filter isOther))
    rw [staysWithin_alternatives noReference areMembers isOne, isBase.of_several isOne,
      depth_le_iff_of_alternatives rfl rfl]
    constructor
    · rintro ⟨-, -, deep⟩ member isOther
      exact (below member isOther).mp (deep _ rfl _ (List.mem_map_of_mem isOther))
    · intro stays
      refine ⟨by simp [Fields.get?_cons], by simp [Fields.get?_cons], ?_⟩
      intro _ areShapes shape isShape
      cases areShapes
      obtain ⟨member, isOther, rfl⟩ := List.mem_map.mp isShape
      exact (below member isOther).mpr (stays member isOther)

/-- The shape of a plain node nests the shapes of its properties and of its items. -/
theorem depth_plain_le_iff {shaped : Fields}
    (shapes : ShapesTo (shapeImage expand) fields shaped) :
    depth (Fields.node shaped) ≤ bound ↔
      (∀ table, fields.get? "properties" = some (.object table) →
        ∀ inner ∈ table.map Prod.snd, depth (shapeImage expand inner) + 1 ≤ bound) ∧
      ∀ inner, fields.get? "items" = some inner →
        depth (shapeImage expand inner) + 1 ≤ bound := by
  rw [depth_le_iff_of_alternatives (shapes.get?_of_not_mem (by decide))
      (shapes.get?_of_not_mem (by decide)),
    shapes.properties, shapes.items, shapes.get?_of_not_mem (by decide : "anyOf" ∉ plainKeywords)]
  constructor
  · rintro ⟨properties, items, -⟩
    refine ⟨fun table declared inner isProperty => ?_, fun inner found => ?_⟩
    · obtain ⟨entry, isEntry, rfl⟩ := List.mem_map.mp isProperty
      exact properties (table.map fun entry => (entry.1, shapeImage expand entry.2))
        (by rw [declared]; rfl) _ (List.mem_map.mpr ⟨_, List.mem_map_of_mem isEntry, rfl⟩)
    · obtain ⟨shape, -, isShape⟩ := exists_shape total (isSchema.item found)
      refine items _ (by rw [found]; rfl) ?_
      rw [shapeImage, isShape]
      rfl
  · rintro ⟨properties, items⟩
    refine ⟨fun table declared sub isSub => ?_, fun sub found _ => ?_, by simp⟩
    · obtain ⟨value, isGiven, isTabled⟩ := Option.map_eq_some_iff.mp declared
      obtain ⟨given, rfl, -⟩ := isSchema.table (List.mem_singleton_self _) isGiven
      cases isTabled
      obtain ⟨_, isShown, rfl⟩ := List.mem_map.mp isSub
      obtain ⟨entry, isEntry, rfl⟩ := List.mem_map.mp isShown
      exact properties _ isGiven _ (List.mem_map_of_mem isEntry)
    · obtain ⟨inner, isInner, rfl⟩ := Option.map_eq_some_iff.mp found
      exact items inner isInner

/-- A plain node bounds its shape where its properties and its items do. -/
theorem isBounded_plain (noReference : fields.get? "$ref" = none)
    (noAlternatives : fields.get? "anyOf" = none)
    (properties : ∀ table, fields.get? "properties" = some (.object table) →
      ∀ inner ∈ table.map Prod.snd, IsBounded expand inner)
    (items : ∀ inner, fields.get? "items" = some inner → IsBounded expand inner) :
    IsBounded expand (Fields.node fields) := by
  intro bound fits
  obtain ⟨shaped, image, shapes⟩ := image_plain total isSchema noReference noAlternatives
  rw [image, depth_plain_le_iff total isSchema shapes,
    staysWithin_plain ((Fields.get?_node _ _).trans noReference)
      ((Fields.get?_node _ _).trans noAlternatives)]
  simp only [Fields.get?_node]
  apply and_congr
  · refine forall₂_congr fun table declared => forall₂_congr fun inner isProperty => ?_
    have fit := (depth_property_lt isSchema declared isProperty).trans_le fits
    exact (properties table declared inner isProperty).below fit
  · refine forall₂_congr fun inner found => ?_
    exact (items inner found).below ((depth_item_lt isSchema found).trans_le fits)

end Nodes

theorem isBounded_of_schema (total : ∀ name, IsShape (expand name))
    (isSchema : IsSchema ["properties"] IsTextual node) : IsBounded expand node :=
  shaping_induction isSchema
    (fun _ _ isReference => isBounded_reference total isReference)
    (fun _ _ isSchema => isBounded_alternatives total isSchema)
    (fun _ isSchema => isBounded_plain total isSchema)

/-! ## The depths of definitions -/

variable {definitions : Value.Entries} {expanding : List String}

def unexpanded (definitions : Value.Entries) (expanding : List String) : Value.Entries :=
  definitions.filter fun entry => !expanding.any entry.1.isText

/-- How deep some definitions are together. -/
def totalDepth : Value.Entries → Nat
  | [] => 0
  | entry :: rest => depth entry.2 + totalDepth rest

theorem totalDepth_filter_le (keep : Value × Value → Bool) :
    totalDepth (definitions.filter keep) ≤ totalDepth definitions := by
  induction definitions with
  | nil => exact le_rfl
  | cons entry rest ih =>
      rw [List.filter_cons]
      split
      · exact Nat.add_le_add_left ih _
      · exact ih.trans (Nat.le_add_left _ _)

theorem totalDepth_filter_of_mem {keep : Value × Value → Bool} {entry : Value × Value}
    (isEntry : entry ∈ definitions) (dropped : keep entry = false) :
    depth entry.2 + totalDepth (definitions.filter keep) ≤ totalDepth definitions := by
  induction isEntry with
  | head rest =>
      rw [List.filter_cons_of_neg (by simp [dropped])]
      exact Nat.add_le_add_left (totalDepth_filter_le keep) _
  | tail other _ ih =>
      rw [List.filter_cons]
      split <;> (simp only [totalDepth]; omega)

theorem totalDepth_unexpanded {name : String} {target : Value}
    (defined : definitions.get? name = some target) (free : name ∉ expanding) :
    depth target + totalDepth (unexpanded definitions (name :: expanding)) ≤
      totalDepth (unexpanded definitions expanding) := by
  obtain ⟨entry, hit, rfl⟩ := Option.map_eq_some_iff.mp defined
  have isName := List.find?_some hit
  have isFree : entry ∈ unexpanded definitions expanding := by
    refine List.mem_filter.mpr ⟨List.mem_of_find?_eq_some hit, ?_⟩
    rw [Bool.not_eq_true', List.any_eq_false]
    intro other isExpanding isOther
    have same : some name = some other := by
      simp only [Value.isText, beq_iff_eq] at isName isOther
      exact isName.symm.trans isOther
    exact free (Option.some.inj same ▸ isExpanding)
  have left : unexpanded definitions (name :: expanding) =
      (unexpanded definitions expanding).filter fun entry => !entry.1.isText name := by
    rw [unexpanded, unexpanded, List.filter_filter]
    congr 1
    funext entry
    rw [List.any_cons, Bool.not_or]
  rw [left]
  exact totalDepth_filter_of_mem isFree (congrArg Bool.not isName)

theorem RefersAt.level_le {level : Nat} {name : String} (refers : RefersAt node level name)
    (isSchema : IsSchema ["properties"] IsTextual node) : level ≤ depth node := by
  induction refers with
  | here => exact Nat.zero_le _
  | property _ _ declared isProperty _ ih =>
      obtain ⟨fields, rfl⟩ := isSchema.exists_fields
      rw [Fields.get?_node] at declared
      have within := ih (isSchema.property (List.mem_singleton_self _) declared isProperty)
      exact (Nat.succ_le_succ within).trans (depth_property_lt isSchema declared isProperty)
  | item _ _ found _ ih =>
      obtain ⟨fields, rfl⟩ := isSchema.exists_fields
      rw [Fields.get?_node] at found
      exact (Nat.succ_le_succ (ih (isSchema.item found))).trans (depth_item_lt isSchema found)
  | only _ found others _ ih =>
      obtain ⟨fields, rfl⟩ := isSchema.exists_fields
      rw [Fields.get?_node] at found
      have isMember := List.mem_of_mem_filter (p := (!saysNull ·))
        (others ▸ List.mem_singleton_self _)
      obtain ⟨_, ⟨⟩, each⟩ := isSchema.members found
      exact (ih (each _ isMember)).trans (depth_member_lt isSchema found isMember).le
  | alternative _ found _ isOther _ ih =>
      obtain ⟨fields, rfl⟩ := isSchema.exists_fields
      rw [Fields.get?_node] at found
      have isMember := List.mem_of_mem_filter isOther
      obtain ⟨_, ⟨⟩, each⟩ := isSchema.members found
      exact (Nat.succ_le_succ (ih (each _ isMember))).trans
        (depth_member_lt isSchema found isMember)

/-- A shape is no deeper than its schema and the definitions that it may expand are together. -/
theorem depth_image_le
    (schemas : ∀ name target, definitions.get? name = some target →
      IsSchema ["properties"] IsTextual target)
    (isSchema : IsSchema ["properties"] IsTextual node) :
    depth (shapeImage (replacement definitions expanding) node) ≤
      depth node + totalDepth (unexpanded definitions expanding) := by
  induction left : (pending definitions expanding).length using Nat.strongRecOn
    generalizing expanding node with
  | _ left ih =>
    subst left
    have total := isShape_replacement schemas expanding
    rw [isBounded_of_schema total isSchema _ (Nat.le_add_right _ _)]
    intro level name refers shaped isShaped
    have isLevel := refers.level_le isSchema
    have ofBare (isBare : shaped = bareObject) :
        level + depth shaped ≤ depth node + totalDepth (unexpanded definitions expanding) := by
      have flat : depth bareObject = 0 := rfl
      rw [isBare, flat]
      omega
    rw [replacement] at isShaped
    cases defined : definitions.get? name with
    | none =>
        rw [defined] at isShaped
        exact ofBare (Except.ok.inj isShaped).symm
    | some target =>
        simp only [defined] at isShaped
        split at isShaped
        · exact ofBare (Except.ok.inj isShaped).symm
        next outside =>
          have free : name ∉ expanding := by simpa using outside
          have isTarget := schemas name target defined
          rw [inlined_eq, (exists_shape (isShape_replacement schemas _) isTarget).eq_image]
            at isShaped
          obtain rfl := Except.ok.inj isShaped
          have inner := ih _ (pending_lt defined free) isTarget rfl
          have left := totalDepth_unexpanded defined free
          omega

/-! ## Documents -/

/-- The definitions add nothing to the depth of a document, unless their key takes the place of what
depth counts. -/
theorem depth_mounted {condition : Fields → Prop} {fields : Fields} (key : String) (table : Fields)
    (isSchema : IsSchema ["properties"] condition (Fields.node fields))
    (apart : key ∉ ["properties", "items", "anyOf"]) :
    depth (Fields.node (mounted key fields table)) = depth (Fields.node fields) := by
  unfold mounted
  split
  next => rfl
  next =>
    apply depth_congr
    · intro name isCounted
      have different : name ≠ key := by
        rintro rfl
        exact apart (List.mem_append_left ["anyOf"] isCounted)
      rw [Fields.get?_put, if_neg different]
    · intro keyword isCombination members
      by_cases same : keyword = key
      · subst same
        have unknown : keyword ∉ emittedKeywords ++ ["properties"] := by
          simp only [Compatibility.combinations, List.mem_cons, List.not_mem_nil, or_false]
            at isCombination
          rcases isCombination with rfl | rfl | rfl
          · simp at apart
          · decide
          · decide
        rw [Fields.get?_put_self, isSchema.get?_eq_none unknown]
        simp [Fields.node, Value.ofFields_eq]
      · rw [Fields.get?_put, if_neg same]

/-- The document of a compiled schema is as deep as its root, unless the key of the definitions
takes the place of what depth counts. -/
theorem depth_document {options : Options} {store : Store} {target : Descriptor}
    {compiled : Compiled} (compiles : compile options store target = .ok compiled)
    (apart : options.defsKey ∉ ["properties", "items", "anyOf"]) :
    depth (compiled.document none) = depth compiled.schema := by
  obtain ⟨pass, finishes⟩ := exists_finishes compiles
  obtain ⟨_, -, isCompiled⟩ := Compile.exists_pass_of_compile compiles
  have isSchema := finishes.isSchema
  obtain ⟨fields, isNode⟩ := isSchema.exists_fields
  rw [isNode] at isSchema
  rw [isCompiled, isNode, document_eq_mounted]
  exact depth_mounted options.defsKey _ isSchema apart

theorem validate_gemini_iff (env : Environment) (schema : Value) (limit : Int) :
    Compatibility.validate env schema "gemini" (some limit) = .ok [] ↔
      (depth schema : Int) ≤ limit := by
  have checked : Compatibility.validate env schema "gemini" (some limit) =
      .ok (Compatibility.issues schema .gemini limit) := rfl
  rw [checked, Except.ok.injEq]
  simp [Compatibility.issues]

/-- The shape of a compiled schema is as deep as the check of its document allows exactly if each
reference that shaping keeps is replaced by something that stays within the limit at the level of
the reference; without such references it always is. It is never deeper than the document and the
definitions that may be expanded are together. -/
theorem shape_depth_of_document {options : Options} {store : Store} {target : Descriptor}
    {compiled : Compiled} (compiles : compile options store target = .ok compiled)
    (apart : options.defsKey ∉ ["properties", "items", "anyOf"]) :
    ∃ expanding shaped, rootName compiled = .ok expanding ∧ ofCompiled compiled = .ok shaped ∧
      (∀ limit, depth (compiled.document none) ≤ limit →
        (depth shaped ≤ limit ↔
          StaysWithin (replacement compiled.definitions expanding) compiled.schema limit)) ∧
      (∀ env limit,
        Compatibility.validate env (compiled.document none) "gemini" (some limit) = .ok [] →
          ((depth shaped : Int) ≤ limit ↔ StaysWithin (replacement compiled.definitions expanding)
            compiled.schema limit.toNat)) ∧
      ((∀ level name, ¬RefersAt compiled.schema level name) →
        depth shaped ≤ depth (compiled.document none)) ∧
      depth shaped ≤ depth (compiled.document none) +
        totalDepth (unexpanded compiled.definitions expanding) := by
  obtain ⟨pass, finishes⟩ := exists_finishes compiles
  have isRoot := rootName_eq (fun _ => IsTextual.constant) finishes.isSchema
  have shapes := ofCompiled_eq finishes.isSchema finishes.schemas
  rw [expansion_eq_replacement ((length_pending_le _ _).trans (Nat.le_succ _))] at shapes
  have bounded := isBounded_of_schema (isShape_replacement finishes.schemas
    ((tagOf compiled.schema).toList.filter compiled.definitions.has)) finishes.isSchema
  refine ⟨_, _, isRoot, shapes, ?_, ?_, ?_, ?_⟩
  · rw [depth_document compiles apart]
    exact bounded
  · intro env limit allowed
    rw [validate_gemini_iff, depth_document compiles apart] at allowed
    rw [← bounded limit.toNat (by omega)]
    omega
  · intro without
    rw [depth_document compiles apart]
    exact (bounded _ le_rfl).mpr fun level name refers => (without level name refers).elim
  · rw [depth_document compiles apart]
    exact depth_image_le finishes.schemas finishes.isSchema

/-- The way between two points is no deeper in its shape than in its document: what stands for the
point that is referred to stays within the depth of the point that is written out. -/
theorem wayBetween_stays_within :
    ∃ compiled shaped, compile Options.defaults points wayBetween = .ok compiled ∧
      Options.defaults.defsKey ∉ ["properties", "items", "anyOf"] ∧
      ofCompiled compiled = .ok shaped ∧ depth (compiled.document none) = 2 ∧ depth shaped = 2 ∧
      StaysWithin (replacement compiled.definitions []) compiled.schema 2 := by
  have apart : Options.defaults.defsKey ∉ ["properties", "items", "anyOf"] := by decide
  obtain ⟨expanding, shaped, isRoot, shapes, within, -⟩ :=
    @shape_depth_of_document Options.defaults points wayBetween _ rfl apart
  cases isRoot
  cases shapes
  exact ⟨_, _, rfl, apart, rfl, rfl, rfl, (within 2 (Nat.le_of_eq rfl)).mp (Nat.le_of_eq rfl)⟩

/-- A peek, and others in a list, which refers to the first. -/
def peeksInList : Descriptor :=
  .fixed ⟨[⟨"first", .struct 1, true, none, none⟩,
    ⟨"others", .array (.struct 1), true, none, none⟩], none, none, none⟩

/-- A peek beside numbers in lists of lists of lists. -/
def peekBesideLists : Descriptor :=
  .fixed ⟨[⟨"peek", .struct 1, true, none, none⟩,
    ⟨"lists", .array (.array (.array (.scalar .int))), true, none, none⟩], none, none, none⟩

/-- The peeks in a list are written out a level deeper than the first one, which the document does
not count; and where definitions take the place of properties, the document does not count those. -/
theorem peeksInList_and_peekBesideLists_deepen :
    (∃ compiled shaped, compile Options.defaults treesAndPeeks peeksInList = .ok compiled ∧
      ofCompiled compiled = .ok shaped ∧ depth (compiled.document none) = 2 ∧
      (∀ env, Compatibility.validate env (compiled.document none) "gemini" (some 2) = .ok []) ∧
      depth shaped = 3) ∧
    ∃ compiled shaped,
      compile { Options.defaults with defsKey := "properties" } treesAndPeeks peekBesideLists =
        .ok compiled ∧
      ofCompiled compiled = .ok shaped ∧ depth (compiled.document none) = 2 ∧
      (∀ env, Compatibility.validate env (compiled.document none) "gemini" (some 2) = .ok []) ∧
      depth shaped = 4 := by
  refine ⟨⟨_, _, rfl, rfl, rfl, fun env => ?_, rfl⟩, _, _, rfl, rfl, rfl, fun env => ?_, rfl⟩
  · exact (validate_gemini_iff env _ 2).mpr (by decide)
  · exact (validate_gemini_iff env _ 2).mpr (by decide)

end Gemini

end TypedReply
