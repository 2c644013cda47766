import GraphQL.Schema.Definition

/-!
# `GraphQL/Introspection/MetaTypes.lean` — the types of introspection

Every schema contains the types that describe schemas, and every query can reach them through three
fields that no type declares. They are ordinary definitions and are executed like any other; what
their fields resolve to is in `GraphQL/Introspection/Resolution.lean`.
-/

set_option autoImplicit false

namespace GraphQL.Introspection

/-! ## 1. Kinds -/

/-- The kinds of types that introspection tells apart. -/
inductive TypeKind where
  | scalar
  | object
  | interface
  | union
  | enum
  | inputObject
  | list
  | nonNull
  deriving DecidableEq, Repr, Inhabited

/-- All kinds, in the order in which `__TypeKind` lists them. -/
def TypeKind.all : List TypeKind :=
  [.scalar, .object, .interface, .union, .enum, .inputObject, .list, .nonNull]

/-- The runtime value that stands for a kind. -/
def TypeKind.value : TypeKind → Value
  | .scalar => .int 0
  | .object => .int 1
  | .interface => .int 2
  | .union => .int 3
  | .enum => .int 4
  | .inputObject => .int 5
  | .list => .int 6
  | .nonNull => .int 7

/-- The name of a kind. -/
def TypeKind.name : TypeKind → Name
  | .scalar => "SCALAR"
  | .object => "OBJECT"
  | .interface => "INTERFACE"
  | .union => "UNION"
  | .enum => "ENUM"
  | .inputObject => "INPUT_OBJECT"
  | .list => "LIST"
  | .nonNull => "NON_NULL"

/-- What `__TypeKind` says about a kind. -/
def TypeKind.description : TypeKind → String
  | .scalar => "Indicates this type is a scalar."
  | .object => "Indicates this type is an object. `fields` and `interfaces` are valid fields."
  | .interface =>
    "Indicates this type is an interface. `fields` and `possibleTypes` are valid fields."
  | .union => "Indicates this type is a union. `possibleTypes` is a valid field."
  | .enum => "Indicates this type is an enum. `enumValues` is a valid field."
  | .inputObject => "Indicates this type is an input object. `inputFields` is a valid field."
  | .list => "Indicates this type is a list. `ofType` is a valid field."
  | .nonNull => "Indicates this type is a non-null. `ofType` is a valid field."

/-- The kind of a named type. -/
def TypeKind.of : TypeDefinition → TypeKind
  | .scalar _ => .scalar
  | .object _ => .object
  | .interface _ => .interface
  | .union _ => .union
  | .enum _ => .enum
  | .input _ => .inputObject

/-! ## 2. Types -/

/-- A type name that may be null. -/
def maybe (name : Name) : TypeRef := .named name false

/-- A type name that may not be null. -/
def always (name : Name) : TypeRef := .named name true

/-- A list of things that are never null, which may be null itself. -/
def maybeList (name : Name) : TypeRef := .list (always name) false

/-- A list of things that are never null, which is never null itself. -/
def alwaysList (name : Name) : TypeRef := .list (always name) true

/-- A field without description or arguments. -/
def plain (name : Name) (type : TypeRef) : FieldDefinition :=
  { name, type }

/-- A field with a description. -/
def described (name : Name) (type : TypeRef) (description : String) : FieldDefinition :=
  { name, type, description := some description }

/-- The same field with the argument that brings deprecated entries into a list. -/
def filtered (field : FieldDefinition) : FieldDefinition :=
  { field with
    arguments := [
      { name := "includeDeprecated", type := maybe "Boolean", default := some (.boolean false) }] }

/-- The type `__Schema`: a schema as a whole. -/
def schemaType : ObjectType where
  name := "__Schema"
  description := some <|
    "A GraphQL Schema defines the capabilities of a GraphQL server. " ++
    "It exposes all available types and directives on the server, " ++
    "as well as the entry points for query and mutation operations."
  fields := .ofList [
    described "types" (alwaysList "__Type") "A list of all types supported by this server.",
    described "queryType" (always "__Type") "The type that query operations will be rooted at.",
    described "mutationType" (maybe "__Type") <|
      "If this server supports mutation, " ++
      "the type that mutation operations will be rooted at.",
    described "subscriptionType" (maybe "__Type")
      "Always null, subscriptions are not supported.",
    described "directives" (alwaysList "__Directive")
      "A list of all directives supported by this server."]

/-- The type `__Type`: a named type, a list or a non-null type. -/
def typeType : ObjectType where
  name := "__Type"
  description := some <|
    "The fundamental unit of any GraphQL Schema is the type. " ++
    "Depending on the kind of a type, certain fields describe information about that type."
  fields := .ofList [
    plain "kind" (always "__TypeKind"),
    plain "name" (maybe "String"),
    plain "description" (maybe "String"),
    filtered (plain "fields" (maybeList "__Field")),
    plain "interfaces" (maybeList "__Type"),
    plain "possibleTypes" (maybeList "__Type"),
    filtered (plain "enumValues" (maybeList "__EnumValue")),
    plain "inputFields" (maybeList "__InputValue"),
    plain "ofType" (maybe "__Type")]

/-- The type `__Field`: a field of an object or interface type. -/
def fieldType : ObjectType where
  name := "__Field"
  description := some <|
    "Object and Interface types are described by a list of Fields, " ++
    "each of which has a name, potentially a list of arguments, and a return type."
  fields := .ofList [
    plain "name" (always "String"),
    plain "description" (maybe "String"),
    plain "args" (alwaysList "__InputValue"),
    plain "type" (always "__Type"),
    plain "isDeprecated" (always "Boolean"),
    plain "deprecationReason" (maybe "String")]

/-- The type `__InputValue`: an argument or a field of an input object type. -/
def inputValueType : ObjectType where
  name := "__InputValue"
  description := some <|
    "Arguments provided to Fields or Directives and the input fields of an InputObject " ++
    "are represented as Input Values which describe their type " ++
    "and optionally a default value."
  fields := .ofList [
    plain "name" (always "String"),
    plain "description" (maybe "String"),
    plain "type" (always "__Type"),
    described "defaultValue" (maybe "String")
      "A JSON encoding of the default value used by this input value, if any."]

/-- The type `__EnumValue`: a value of an enum type. -/
def enumValueType : ObjectType where
  name := "__EnumValue"
  description := some <|
    "One possible value for a given Enum. Enum values are unique values, " ++
    "not a placeholder for a string or numeric value."
  fields := .ofList [
    plain "name" (always "String"),
    plain "description" (maybe "String"),
    plain "isDeprecated" (always "Boolean"),
    plain "deprecationReason" (maybe "String")]

/-- The type `__Directive`: a directive that the schema knows. -/
def directiveType : ObjectType where
  name := "__Directive"
  description := some <|
    "A Directive provides a way to describe alternate runtime execution " ++
    "and type validation behavior in a GraphQL document."
  fields := .ofList [
    plain "name" (always "String"),
    plain "description" (maybe "String"),
    plain "args" (alwaysList "__InputValue"),
    plain "onOperation" (always "Boolean"),
    plain "onFragment" (always "Boolean"),
    plain "onField" (always "Boolean")]

/-- The type `__TypeKind`: the kinds of types. -/
def typeKindType : EnumType where
  name := "__TypeKind"
  description := some "An enum describing what kind of type a given __Type is."
  values := .ofList <| TypeKind.all.map fun kind =>
    { name := kind.name, value := kind.value, description := some kind.description }

/-- The types of introspection, in the order in which a schema lists them. -/
def metaTypes : List TypeDefinition := [
  .object schemaType,
  .object typeType,
  .object fieldType,
  .object inputValueType,
  .object enumValueType,
  .object directiveType,
  .enum typeKindType]

/-! ## 3. Fields that no type declares -/

/-- The field `__schema`, on the query root. -/
def schemaField : FieldDefinition :=
  described "__schema" (always "__Schema") "Access the current type schema of this server."

/-- The field `__type`, on the query root. -/
def typeField : FieldDefinition :=
  { name := "__type", type := maybe "__Type"
    description := some "Request the type information of a single type."
    arguments := [{ name := "name", type := always "String" }] }

/-- The field `__typename`, on every object type. -/
def typenameField : FieldDefinition :=
  described "__typename" (always "String") "The name of the current Object type at runtime."

end GraphQL.Introspection
