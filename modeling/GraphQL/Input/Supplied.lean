import GraphQL.Input.Literal

/-!
# `GraphQL/Input/Supplied.lean` — supplied values

The values that come with a request are first checked against a type (`isValid`) and then read at it
(`coerceSupplied`). Checking is strict, because here a fault can be reported to the client before
anything is executed. Members of an input object that are not declared are ignored by both.
-/

set_option autoImplicit false

namespace GraphQL.Schema

variable (schema : Schema)

/-- Whether a scalar or enum type accepts a value; no other type does. -/
def isValidLeaf (value : Value) (name : Name) : Bool :=
  match schema.types.get? name with
  | some (.scalar type) => (type.coerce value).isSome
  | some (.enum type) => (type.coerce value).isSome
  | _ => false

/-- A value read at a scalar or enum type; null at any other type, and where the type refuses it. -/
def coerceLeaf (value : Value) (name : Name) : Value :=
  match schema.types.get? name with
  | some (.scalar type) => (type.coerce value).getD .null
  | some (.enum type) => (type.coerce value).getD .null
  | _ => .null

mutual

/-- Whether a value can be read at a type. -/
def isValid : Value → TypeRef → Bool
  | .null, type => !type.required
  | .list items, .list item _ => areValid items item
  | .map entries, type =>
    match schema.types.get? type.innermost with
    | some (.input inputType) => inputType.fields.entries.all fun input =>
      match (entryChecks entries).get? input.name with
      | some check => check input.type
      | none => !input.type.required
    | _ => schema.isValidLeaf (.map entries) type.innermost
  | value, type => schema.isValidLeaf value type.innermost

/-- Whether all items of a list can be read at a type. -/
def areValid : List Value → TypeRef → Bool
  | [], _ => true
  | item :: rest, type => isValid item type && areValid rest type

/-- The entries of a map, each as whether it can be read at any type. -/
def entryChecks : List (String × Value) → Entries (TypeRef → Bool)
  | [] => []
  | (key, value) :: rest => (key, isValid value) :: entryChecks rest

end

mutual

/-- A value read at a type that it is valid for. -/
def coerceSupplied : Value → TypeRef → Value
  | .null, _ => .null
  | .list items, .list item _ => .list (coerceSuppliedItems items item)
  | .map entries, type => type.promote fun name =>
    match schema.types.get? name with
    | some (.input inputType) => inputType.assemble fun input =>
      match (coerceSuppliedEntries entries).get? input.name with
      | some readAt => readAt input.type
      | none => .null
    | _ => schema.coerceLeaf (.map entries) name
  | value, type => type.promote (schema.coerceLeaf value)

/-- The items of a list, each read at a type. -/
def coerceSuppliedItems : List Value → TypeRef → List Value
  | [], _ => []
  | item :: rest, type => coerceSupplied item type :: coerceSuppliedItems rest type

/-- The entries of a map, each as what it is at any type. -/
def coerceSuppliedEntries : List (String × Value) → Entries (TypeRef → Value)
  | [] => []
  | (key, value) :: rest => (key, coerceSupplied value) :: coerceSuppliedEntries rest

end

end GraphQL.Schema
