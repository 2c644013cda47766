import GraphQL.Schema

/-!
# `GraphQL/Input/Literal.lean` — literals as values

A literal in a document is read at the type that the schema declares for its place. The reading is
lenient: what does not fit its type becomes null, and a null or missing value gives way to the
default of its argument or input field. Variables have been read before, at the types that the
operation declares for them, and stand for their values as they are.

The recursion is over the literal. A single value at a list type counts as a list of one, so the
lists of a type are passed in one go (`promote`) before a literal that is no list is read at the
name inside.
-/

set_option autoImplicit false

namespace GraphQL

/-- A value read at the name inside a type, as the only item of each list around that name. -/
def TypeRef.promote (readAt : Name → Value) : TypeRef → Value
  | .named name _ => readAt name
  | .list item _ => .list [item.promote readAt]

/-- A value, or the declared default in place of null. -/
def InputValueDefinition.withDefault (input : InputValueDefinition) (value : Value) : Value :=
  match value, input.default with
  | .null, some default => default
  | value, _ => value

/-- The value of an input object type: all its fields in order, each with its default in place of
null. -/
def InputObjectType.assemble (type : InputObjectType) (field : InputValueDefinition → Value) :
    Value :=
  .map (type.fields.entries.map fun input => (input.name, input.withDefault (field input)))

namespace Schema

variable (schema : Schema)

/-- A literal read at a scalar or enum type; null at any other type, and where the type refuses it.
-/
def coerceLeafLiteral (literal : Literal) (name : Name) : Value :=
  match schema.types.get? name with
  | some (.scalar type) => (type.coerceLiteral literal).getD .null
  | some (.enum type) => (type.coerceLiteral literal).getD .null
  | _ => .null

variable (variableValues : Entries Value)

mutual

/-- A literal read at a type. -/
def coerceLiteral : Literal → TypeRef → Value
  | .null, _ => .null
  | .variable name, _ => (variableValues.get? name).getD .null
  | .list items, .list item _ => .list (coerceLiteralItems items item)
  | .object fields, type => type.promote fun name =>
    match schema.types.get? name with
    | some (.input inputType) => inputType.assemble fun input =>
      match (coerceLiteralFields fields).get? input.name with
      | some readAt => readAt input.type
      | none => .null
    | _ => schema.coerceLeafLiteral (.object fields) name
  | literal, type => type.promote (schema.coerceLeafLiteral literal)

/-- The items of a list literal, each read at a type. -/
def coerceLiteralItems : List Literal → TypeRef → List Value
  | [], _ => []
  | item :: rest, type => coerceLiteral item type :: coerceLiteralItems rest type

/-- The fields of an object literal, each as what it is at any type. -/
def coerceLiteralFields : List (Name × Literal) → Entries (TypeRef → Value)
  | [] => []
  | (key, value) :: rest => (key, coerceLiteral value) :: coerceLiteralFields rest

end

/-- The values of declared arguments, in the order of their declarations: each is read from the
first argument of its name. -/
def coerceArguments (declared : List InputValueDefinition) (given : List Argument) :
    Entries Value :=
  Entries.ofList <| declared.map fun input =>
    let value := match given.find? fun argument => argument.name = input.name with
      | some argument => schema.coerceLiteral variableValues argument.value input.type
      | none => .null
    (input.name, input.withDefault value)

end Schema

end GraphQL
