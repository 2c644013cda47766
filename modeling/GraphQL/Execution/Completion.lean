import GraphQL.Application
import GraphQL.Execution.Outcome
import GraphQL.Value.Json

/-!
# `GraphQL/Execution/Completion.lean` — values made into response data

The value that a field resolves to is completed at the declared type of the field. Lists are
completed item by item, leaves are read by their type, and for an object the selections below the
field are executed. At a type that excludes null, a null is reported and fails; a failure stops at
the nearest place that allows null.

How a selection set is executed is a parameter of everything in here.
`GraphQL/Execution/Fields.lean` closes the circle.
-/

set_option autoImplicit false

namespace GraphQL

/-! ## 1. Faults -/

/-- Why a value does not complete. -/
inductive CompletionFault where
  | nullAtNonNull
  | notAList
  | undefinedType (name : Name)
  | inputObjectType (name : Name)
  /-- A type resolver names something that is no object type. -/
  | notAnObjectType (abstractType received : Name)
  /-- No type resolver, and an object type that cannot tell what belongs to it. -/
  | undeterminedType (abstractType objectType : Name)
  deriving DecidableEq, Repr

/-- What a fault says. -/
def CompletionFault.message : CompletionFault → String
  | .nullAtNonNull => "Cannot return null for non-nullable type."
  | .notAList => "User Error: expected iterable, but did not find one."
  | .undefinedType name => "Undefined type " ++ name
  | .inputObjectType name => "Field with input object type " ++ name
  | .notAnObjectType abstractType received =>
    "Abstract type " ++ abstractType ++ " must resolve to an object type at runtime, received \"" ++
      received ++ "\"."
  | .undeterminedType abstractType objectType =>
    "Non-Object Type " ++ abstractType ++ " does not implement resolveType and Object Type " ++
      objectType ++ " does not implement isTypeOf. " ++
      "There is no way to determine if a value is of this type."

/-- An error at a group of field nodes; its place is that of the first. -/
def FieldGroup.report (group : FieldGroup) (message : String) (extensions : Json.Members := []) :
    ErrorReport :=
  { message, locations := [group.first.location], extensions }

/-- Fails with a fault at a group of field nodes. -/
def Run.failWith {σ α : Type} (group : FieldGroup) (fault : CompletionFault) : Run σ α :=
  Run.fail (group.report fault.message)

/-! ## 2. Abstract types -/

section Abstract

variable {σ : Type} (schema : Schema) (application : Application σ)

/-- The first of several object types that a value belongs to, as the types themselves tell. -/
def firstTypeOf (abstractType : Name) (value : Value) :
    List Name → StateM σ (Except CompletionFault (Option ObjectType))
  | [] => pure (.ok none)
  | name :: rest =>
    match schema.object? name with
    | none => firstTypeOf abstractType value rest
    | some type =>
      match application.isTypeOf name with
      | none => pure (.error (.undeterminedType abstractType type.name))
      | some belongs => do
        if ← belongs value then return .ok (some type)
        else firstTypeOf abstractType value rest

/-- The object type of a value of an abstract type, if it has one. A type resolver is asked if there
is one, and is believed. -/
def objectTypeOf (abstractType : Name) (value : Value) :
    StateM σ (Except CompletionFault (Option ObjectType)) :=
  match application.resolveType abstractType with
  | some resolve => do
    match ← resolve value with
    | none => return .ok none
    | some name =>
      match schema.object? name with
      | some type => return .ok (some type)
      | none => return .error (.notAnObjectType abstractType name)
  | none => firstTypeOf schema application abstractType value (schema.possibleTypes abstractType)

end Abstract

/-! ## 3. Completion -/

/-- The response data of a leaf; null where the type refuses the value. -/
def leafData (coerced : Option Value) : Json :=
  match coerced with
  | some value => value.toJson
  | none => .null

section Completion

variable {σ : Type} (schema : Schema) (application : Application σ)
variable (execute : ObjectType → Value → List Selection → Run σ Json.Members) (group : FieldGroup)

/-- Fails where a null stands at a type that excludes it. -/
def excludeNull (type : TypeRef) (run : Run σ Json) : Run σ Json := do
  let data ← run
  if data.isNull && type.required then Run.failWith group .nullAtNonNull else return data

/-- Completes a value that is not null as an object of a type. -/
def completeObject (type : ObjectType) (value : Value) : Run σ Json := do
  return .object (← execute type value group.selections)

/-- Completes a value that is not null at a named type. -/
def completeNamed (name : Name) (value : Value) : Run σ Json :=
  match schema.types.get? name with
  | none => Run.failWith group (.undefinedType name)
  | some (.input _) => Run.failWith group (.inputObjectType name)
  | some (.scalar type) => pure (leafData (type.coerce value))
  | some (.enum type) => pure (leafData (type.coerce value))
  | some (.object type) => completeObject execute group type value
  | some (.interface _) | some (.union _) => do
    match ← Run.ofState (objectTypeOf schema application name value) with
    | .ok (some type) => completeObject execute group type value
    | .ok none => return .null
    | .error fault => Run.failWith group fault

/-- Completes the items of a list, from a position on. -/
def completeItems (complete : Value → Run σ Json) (item : TypeRef) :
    Nat → List Value → Run σ (List Json)
  | _, [] => pure []
  | position, value :: rest => do
    let data ← ((complete value).under (.index position)).absorb (!item.required) .null
    let others ← completeItems complete item (position + 1) rest
    return data :: others

/-- Completes a value at a type. -/
def complete : TypeRef → Value → Run σ Json
  | .named name required, value =>
    excludeNull group (.named name required) <|
      if value.isNull then pure .null
      else completeNamed schema application execute group name value
  | .list item required, value =>
    excludeNull group (.list item required) <|
      match value with
      | .null => pure .null
      | .list items => do return .array (← completeItems (complete item) item 0 items)
      | _ => Run.failWith group .notAList

end Completion

end GraphQL
