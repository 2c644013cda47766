import GraphQL.Introspection.MetaTypes
import GraphQL.Schema
import GraphQL.Schema.Scalar

/-!
# `GraphQL/Schema/Build.lean` — making a schema

An author declares types and directives in any order and names the root types. Building adds the
types of introspection, the built-in directives, and those built-in scalar types whose name the
author has not taken; and it refuses a description in which a name is taken twice or reserved, or a
reference leads to nothing or to a type that cannot stand there. A refusal names the first fault, in
the order in which `build` looks for them.
-/

set_option autoImplicit false

namespace GraphQL

/-! ## 1. Faults -/

/-- Why a description makes no schema. -/
inductive SchemaError where
  | missingQueryType
  | rootNotObject (name : Name)
  | duplicateType (name : Name)
  | reservedName (name : Name)
  | duplicateDirective (name : Name)
  | undefinedType (coordinate : String) (name : Name)
  | unionMemberNotObject (union member : Name)
  | notAnInterface (object name : Name)
  | notOutputType (coordinate : String) (name : Name)
  | notInputType (coordinate : String) (name : Name)
  deriving DecidableEq, Repr

/-- What a fault says. -/
def SchemaError.message : SchemaError → String
  | .missingQueryType => "the query root type is not set"
  | .rootNotObject name => "root operation type `" ++ name ++ "` must be an object type"
  | .duplicateType name => "type `" ++ name ++ "` is defined more than once"
  | .reservedName name =>
    "type name `" ++ name ++ "` must not begin with `__`, which is reserved for introspection"
  | .duplicateDirective name => "directive `@" ++ name ++ "` is defined more than once"
  | .undefinedType coordinate name =>
    "`" ++ coordinate ++ "` refers to undefined type `" ++ name ++ "`"
  | .unionMemberNotObject union member =>
    "union `" ++ union ++ "` may only contain object types, found `" ++ member ++ "`"
  | .notAnInterface object name =>
    "`" ++ object ++ "` can only implement interface types, found `" ++ name ++ "`"
  | .notOutputType coordinate name =>
    "`" ++ coordinate ++ "` must have an output type, found input object `" ++ name ++ "`"
  | .notInputType coordinate name =>
    "`" ++ coordinate ++ "` must have an input type, found `" ++ name ++ "`"

/-! ## 2. Descriptions -/

/-- What an author of a schema declares. -/
structure SchemaDescription where
  query : Option Name := none
  mutation : Option Name := none
  types : List TypeDefinition := []
  directives : List DirectiveDefinition := []

/-! ## 3. Built-in directives -/

/-- The condition of a built-in directive. -/
def conditionArgument (description : String) : InputValueDefinition :=
  { name := "if", type := .named "Boolean" true, description := some description }

/-- The directive `@include`: only when its condition holds. -/
def includeDirective : DirectiveDefinition where
  name := "include"
  description := some <|
    "Directs the executor to include this field or fragment only " ++
    "when the `if` argument is true."
  arguments := [conditionArgument "Included when true."]
  onFragment := true
  onField := true

/-- The directive `@skip`: only when its condition does not hold. -/
def skipDirective : DirectiveDefinition where
  name := "skip"
  description := some <|
    "Directs the executor to skip this field or fragment " ++
    "when the `if` argument is true."
  arguments := [conditionArgument "Skipped when true."]
  onFragment := true
  onField := true

/-- The directives of every schema. -/
def builtInDirectives : List DirectiveDefinition :=
  [includeDirective, skipDirective]

/-! ## 4. Tables without repetition -/

/-- Adds entries one after the other; the first whose name is taken is the fault. -/
def insertAll {α : Type} [Named α] (fault : Name → SchemaError) (table : Table α) :
    List α → Except SchemaError (Table α)
  | [] => .ok table
  | entry :: rest =>
    match table.insert? entry with
    | some table => insertAll fault table rest
    | none => .error (fault (Named.name entry))

/-- Whether a name is reserved for introspection. -/
def isReserved (name : Name) : Bool :=
  match name.toList with
  | '_' :: '_' :: _ => true
  | _ => false

/-- Adds the built-in scalar types whose names are not taken. -/
def withBuiltInScalars (types : Table TypeDefinition) : Table TypeDefinition :=
  Scalar.builtIn.foldl
    (fun types scalar => (types.insert? (.scalar scalar)).getD types) types

/-! ## 5. References -/

/-- Checks each of a list, up to the first fault. -/
def checkAll {α : Type} (check : α → Except SchemaError Unit) : List α → Except SchemaError Unit
  | [] => .ok ()
  | a :: rest =>
    match check a with
    | .ok () => checkAll check rest
    | .error fault => .error fault

section References

variable (types : Table TypeDefinition)

/-- Checks that a name leads to a type with a property. -/
def checkReference (coordinate : String) (name : Name) (accepts : TypeDefinition → Bool)
    (fault : SchemaError) : Except SchemaError Unit :=
  match types.get? name with
  | none => .error (.undefinedType coordinate name)
  | some type => if accepts type then .ok () else .error fault

/-- Checks the type of an argument or input field. -/
def checkInput (coordinate : String) (input : InputValueDefinition) : Except SchemaError Unit :=
  let name := input.type.innermost
  checkReference types coordinate name TypeDefinition.isInput (.notInputType coordinate name)

/-- Checks the type and the arguments of a field. -/
def checkField (parent : Name) (field : FieldDefinition) : Except SchemaError Unit := do
  let coordinate := parent ++ "." ++ field.name
  let name := field.type.innermost
  checkReference types coordinate name TypeDefinition.isOutput (.notOutputType coordinate name)
  checkAll (fun argument => checkInput types (coordinate ++ "(" ++ argument.name ++ ":)") argument)
    field.arguments

/-- Checks all references of a type. -/
def checkType : TypeDefinition → Except SchemaError Unit
  | .scalar _ | .enum _ => .ok ()
  | .object type => do
    checkAll (fun name => checkReference types type.name name TypeDefinition.isInterface
      (.notAnInterface type.name name)) type.interfaces
    checkAll (checkField types type.name) type.fields.entries
  | .interface type => checkAll (checkField types type.name) type.fields.entries
  | .union type =>
    checkAll (fun name => checkReference types type.name name TypeDefinition.isObject
      (.unionMemberNotObject type.name name)) type.members
  | .input type =>
    checkAll (fun field => checkInput types (type.name ++ "." ++ field.name) field)
      type.fields.entries

/-- Checks all references of a directive. -/
def checkDirective (directive : DirectiveDefinition) : Except SchemaError Unit :=
  checkAll (fun argument =>
    checkInput types ("@" ++ directive.name ++ "(" ++ argument.name ++ ":)") argument)
    directive.arguments

/-- The object type that a root name leads to. -/
def rootType (name : Name) : Except SchemaError ObjectType :=
  match types.get? name with
  | some (.object type) => .ok type
  | some _ => .error (.rootNotObject name)
  | none => .error (.undefinedType "schema" name)

end References

/-! ## 6. Building -/

namespace SchemaDescription

/-- The types of the schema: those of the author, those of introspection, and the built-in scalar
types that are not replaced. -/
def registeredTypes (description : SchemaDescription) :
    Except SchemaError (Table TypeDefinition) := do
  let types ← insertAll .duplicateType .empty (description.types ++ Introspection.metaTypes)
  return withBuiltInScalars types

/-- The directives of the schema: the built-in ones and those of the author. -/
def registeredDirectives (description : SchemaDescription) :
    Except SchemaError (Table DirectiveDefinition) :=
  insertAll .duplicateDirective .empty (builtInDirectives ++ description.directives)

/-- The schema that is described, or the first fault of the description. -/
def build (description : SchemaDescription) : Except SchemaError Schema := do
  match description.types.find? fun type => isReserved type.name with
  | some type => throw (.reservedName type.name)
  | none => pure ()
  let types ← description.registeredTypes
  let directives ← description.registeredDirectives
  checkAll (checkType types) types.entries
  checkAll (checkDirective types) directives.entries
  let query ← match description.query with
    | some name => rootType types name
    | none => throw .missingQueryType
  let mutation ← match description.mutation with
    | some name => some <$> rootType types name
    | none => pure none
  return { types, directives, query, mutation }

end SchemaDescription

end GraphQL
