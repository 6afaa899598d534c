import TypedReply.Reference.Validate
import TypedReply.Registry

/-!
# A library to run with

The library that requests are run with when they name no other. It stands in for the library that
programs are linked with, in one of its releases: what it says of classes, which fields it objects to,
and what its classes make of values.
-/

namespace TypedReply

/-- The documentation of the class that all others extend, line by line. -/
def baseDocLines : List String :=
  ["!!! abstract \"Usage Documentation\"",
   "    [Models](../concepts/models.md)",
   "",
   "A base class for creating Pydantic models.",
   "",
   "Attributes:",
   "    __class_vars__: The names of the class variables defined on the model.",
   "    __private_attributes__: Metadata about the private attributes of the model.",
   "    __signature__: The synthesized `__init__` [`Signature`][inspect.Signature] of the model.",
   "",
   "    __pydantic_complete__: Whether model building is completed, or if there are still undefined fields.",
   "    __pydantic_core_schema__: The core schema of the model.",
   "    __pydantic_custom_init__: Whether the model has a custom `__init__` function.",
   "    __pydantic_decorators__: Metadata containing the decorators defined on the model.",
   "        This replaces `Model.__validators__` and `Model.__root_validators__` from Pydantic V1.",
   "    __pydantic_generic_metadata__: A dictionary containing metadata about generic Pydantic models.",
   "        The `origin` and `args` items map to the [`__origin__`][genericalias.__origin__]",
   "        and [`__args__`][genericalias.__args__] attributes of [generic aliases][types-genericalias],",
   "        and the `parameter` item maps to the `__parameter__` attribute of generic classes.",
   "    __pydantic_parent_namespace__: Parent namespace of the model, used for automatic rebuilding of models.",
   "    __pydantic_post_init__: The name of the post-init method for the model, if defined.",
   "    __pydantic_root_model__: Whether the model is a [`RootModel`][pydantic.root_model.RootModel].",
   "    __pydantic_serializer__: The `pydantic-core` `SchemaSerializer` used to dump instances of the model.",
   "    __pydantic_validator__: The `pydantic-core` `SchemaValidator` used to validate instances of the model.",
   "",
   "    __pydantic_fields__: A dictionary of field names and their corresponding [`FieldInfo`][pydantic.fields.FieldInfo] objects.",
   "    __pydantic_computed_fields__: A dictionary of computed field names and their corresponding [`ComputedFieldInfo`][pydantic.fields.ComputedFieldInfo] objects.",
   "",
   "    __pydantic_extra__: A dictionary containing extra values, if [`extra`][pydantic.config.ConfigDict.extra]",
   "        is set to `'allow'`.",
   "    __pydantic_fields_set__: The names of fields explicitly set during instantiation.",
   "    __pydantic_private__: Values of private attributes set on the model instance."]

mutual

/-- Whether a type expression contains a literal without values. -/
def TypeExpr.hasEmptyLiteral : TypeExpr → Bool
  | .literal values => values.isEmpty
  | .collection _ element => element.hasEmptyLiteral
  | .tuple items => TypeExpr.haveEmptyLiteral items
  | .dict key value => key.hasEmptyLiteral || value.hasEmptyLiteral
  | .union members => TypeExpr.haveEmptyLiteral members
  | .annotated inner => inner.hasEmptyLiteral
  | _ => false

/-- Whether one of several type expressions contains a literal without values. -/
def TypeExpr.haveEmptyLiteral : List TypeExpr → Bool
  | [] => false
  | member :: members => member.hasEmptyLiteral || TypeExpr.haveEmptyLiteral members

end

namespace ClassLibrary

/-- Why no class can have the given fields: a name with a leading underscore, or a literal without
values. -/
def referenceObjection? (fields : List ClassField) : Option Fault :=
  match fields.find? fun field => field.name.toList.head? == some '_' with
  | some field => some (.leadingUnderscore field.name)
  | none => if fields.any (·.type.hasEmptyLiteral) then some .emptyLiteral else none

/-- The library to run with. -/
def reference : ClassLibrary where
  baseDoc := some ("\n".intercalate baseDocLines)
  objection? := referenceObjection?
  allows field value := (Validate.overfull? field value).isNone &&
    (value.isNull || (Validate.broken? field.limits value).isNone)
  validate catalog key value :=
    match Validate.instantiate catalog key value with
    | .ok taken => .ok taken.value
    | .error (.refused ⟨path, received, problem⟩) => .error (.refused ⟨path, received, problem.message⟩)
    | .error (.fault fault) => .error (.fault fault)

end ClassLibrary

namespace Registry

/-- A registry without classes and structs, with the library to run with. -/
def empty : Registry := .fresh .reference

instance : Inhabited Registry := ⟨empty⟩

/-- Declares a class with its own fields after those of the class it extends. A field that mentions no
other missing name than the one of the class may refer to the class itself. -/
def declareClass (reference name : String) (doc : Option String) (base : Option RecordClass)
    (fields : List ClassField) : Action ClassKey := do
  let itself : Scope := [(name, .record (← getThe Registry).catalog.nextKey)]
  let own := fields.map fun field =>
    if field.type.isSettledBy itself then field.settle itself else field
  let ancestors := base.elim [.base] fun cls => cls.key :: cls.ancestors
  addClass reference name doc ancestors
    (RecordClass.latest ((base.elim [] (·.fields)) ++ own))

end Registry

end TypedReply
