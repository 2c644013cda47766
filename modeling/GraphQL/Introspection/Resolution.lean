import GraphQL.Application
import GraphQL.Introspection.MetaTypes
import GraphQL.Json.Text
import GraphQL.Value.Json

/-!
# `GraphQL/Introspection/Resolution.lean` — what the fields of introspection resolve to

Each introspection type has one resolver for all its fields, which looks at the subject that the
field is resolved on and at the name of the field. A subject of another kind makes null; a source
that is no subject at all is an error, except for `__Schema`, whose fields depend on the schema
alone.
-/

set_option autoImplicit false

namespace GraphQL

open Introspection

/-! ## 1. Descriptions -/

/-- What introspection says about an argument or input field. -/
def InputValueDefinition.describe (input : InputValueDefinition) : InputDescription where
  name := input.name
  description := input.description
  type := input.type
  default := input.default.map fun value => value.toJson.text

/-- What introspection says about a field. -/
def FieldDefinition.describe (field : FieldDefinition) : FieldDescription where
  name := field.name
  description := field.description
  arguments := field.arguments.map (·.describe)
  type := field.type
  deprecation := field.deprecation

/-- What introspection says about an enum value. -/
def EnumValueDefinition.describe (value : EnumValueDefinition) : EnumValueDescription where
  name := value.name
  description := value.description
  deprecation := value.deprecation

/-- What introspection says about a directive. -/
def DirectiveDefinition.describe (directive : DirectiveDefinition) : DirectiveDescription where
  name := directive.name
  description := directive.description
  arguments := directive.arguments.map (·.describe)
  onOperation := directive.onOperation
  onFragment := directive.onFragment
  onField := directive.onField

namespace Introspection

/-! ## 2. Values -/

/-- A subject as a value. -/
def Subject.value (subject : Subject) : Value :=
  .object (.subject subject)

/-- The named type of a name, as a value. -/
def typeNamed (name : Name) : Value :=
  (Subject.type (.named name false)).value

/-- A list of subjects. -/
def subjects {α : Type} (subject : α → Subject) (items : List α) : Value :=
  .list (items.map fun item => (subject item).value)

/-- A list of named types. -/
def typesNamed (names : List Name) : Value :=
  .list (names.map typeNamed)

/-- Whether deprecated entries are asked for. -/
def asksForDeprecated (info : ResolveInfo) : Bool :=
  (info.argument "includeDeprecated").boolean?.getD false

/-! ## 3. Fields of the introspection types -/

/-- The fields of `__Schema`. -/
def resolveSchema (info : ResolveInfo) : Value :=
  let schema := info.schema
  match info.field.name with
  | "types" => typesNamed (schema.reachable.map (·.name))
  | "queryType" => typeNamed schema.query.name
  | "mutationType" => .ofOption (fun type => typeNamed type.name) schema.mutation
  | "directives" => subjects Subject.directive (schema.directives.entries.map (·.describe))
  | _ => .null

/-- The fields of `__Type` on a named type. -/
def resolveNamedType (info : ResolveInfo) (type : TypeDefinition) : Value :=
  match info.field.name with
  | "kind" => (TypeKind.of type).value
  | "name" => .string type.name
  | "description" => .ofText? type.description
  | "fields" =>
    match type.fields? with
    | none => .null
    | some fields =>
      let listed := fields.entries.filter fun field =>
        asksForDeprecated info || field.deprecation.isNone
      subjects Subject.field (listed.map (·.describe))
  | "interfaces" =>
    match type with
    | .object type => typesNamed type.interfaces
    | _ => .null
  | "possibleTypes" =>
    if type.isAbstract then typesNamed (info.schema.possibleTypes type.name) else .null
  | "enumValues" =>
    match type with
    | .enum type =>
      let listed := type.values.entries.filter fun value =>
        asksForDeprecated info || value.deprecation.isNone
      subjects Subject.enumValue (listed.map (·.describe))
    | _ => .null
  | "inputFields" =>
    match type with
    | .input type => subjects Subject.input (type.fields.entries.map (·.describe))
    | _ => .null
  | _ => .null

/-- The fields of `__Type`. A list or non-null type has a kind and a type inside, and nothing else.
-/
def resolveType (info : ResolveInfo) (type : TypeRef) : Value :=
  let wrapper (kind : TypeKind) (inside : TypeRef) : Value :=
    match info.field.name with
    | "kind" => kind.value
    | "ofType" => (Subject.type inside).value
    | _ => .null
  match type with
  | .named name false =>
    match info.schema.types.get? name with
    | some type => resolveNamedType info type
    | none => .null
  | .named name true => wrapper .nonNull (.named name false)
  | .list item false => wrapper .list item
  | .list item true => wrapper .nonNull (.list item false)

/-- The fields of `__Field`. -/
def resolveField (info : ResolveInfo) (field : FieldDescription) : Value :=
  match info.field.name with
  | "name" => .string field.name
  | "description" => .ofText? field.description
  | "args" => subjects Subject.input field.arguments
  | "type" => (Subject.type field.type).value
  | "isDeprecated" => .boolean field.deprecation.isSome
  | "deprecationReason" => .ofText? field.deprecation
  | _ => .null

/-- The fields of `__InputValue`. -/
def resolveInput (info : ResolveInfo) (input : InputDescription) : Value :=
  match info.field.name with
  | "name" => .string input.name
  | "description" => .ofText? input.description
  | "type" => (Subject.type input.type).value
  | "defaultValue" => .ofText? input.default
  | _ => .null

/-- The fields of `__EnumValue`. -/
def resolveEnumValue (info : ResolveInfo) (value : EnumValueDescription) : Value :=
  match info.field.name with
  | "name" => .string value.name
  | "description" => .ofText? value.description
  | "isDeprecated" => .boolean value.deprecation.isSome
  | "deprecationReason" => .ofText? value.deprecation
  | _ => .null

/-- The fields of `__Directive`. -/
def resolveDirective (info : ResolveInfo) (directive : DirectiveDescription) : Value :=
  match info.field.name with
  | "name" => .string directive.name
  | "description" => .ofText? directive.description
  | "args" => subjects Subject.input directive.arguments
  | "onOperation" => .boolean directive.onOperation
  | "onFragment" => .boolean directive.onFragment
  | "onField" => .boolean directive.onField
  | _ => .null

/-! ## 4. Resolvers -/

/-- Resolves a field on a subject; `answer` is nothing for subjects of another kind. -/
def onSubject (answer : ResolveInfo → Subject → Option Value) (info : ResolveInfo) :
    Except FieldError Value :=
  match info.source.subject? with
  | some subject => .ok ((answer info subject).getD .null)
  | none =>
    .error { message := info.parent.name ++ " can only be resolved from an introspection field" }

/-- The resolver that all fields of an introspection type have, by the name of the type. -/
def resolver? (typeName : Name) : Option (ResolveInfo → Except FieldError Value) :=
  match typeName with
  | "__Schema" => some fun info => .ok (resolveSchema info)
  | "__Type" => some <| onSubject fun info => fun
    | .type type => some (resolveType info type)
    | _ => none
  | "__Field" => some <| onSubject fun info => fun
    | .field field => some (resolveField info field)
    | _ => none
  | "__InputValue" => some <| onSubject fun info => fun
    | .input input => some (resolveInput info input)
    | _ => none
  | "__EnumValue" => some <| onSubject fun info => fun
    | .enumValue value => some (resolveEnumValue info value)
    | _ => none
  | "__Directive" => some <| onSubject fun info => fun
    | .directive directive => some (resolveDirective info directive)
    | _ => none
  | _ => none

/-- What `__type` resolves to: the type of the given name, if it can be reached from the roots. -/
def resolveTypeField (info : ResolveInfo) : Value :=
  let name := ((info.argument "name").string?).getD ""
  match info.schema.get? name with
  | some type => typeNamed type.name
  | none => .null

end Introspection

end GraphQL
