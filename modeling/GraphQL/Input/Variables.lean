import GraphQL.Input.Supplied
import GraphQL.RequestError
import GraphQL.Value.Json

/-!
# `GraphQL/Input/Variables.lean` — the variables of an operation

An operation declares variables, and a request may supply values for them. Each declared variable
gets a value: the supplied one, read at the declared type; the declared default in place of null or
of nothing; null otherwise. A supplied value that is not valid for the type makes the whole request
an error. A variable of a type that the schema cannot reach is null whatever is supplied, and
supplied values that no variable is declared for are ignored.
-/

set_option autoImplicit false

namespace GraphQL.Schema

variable (schema : Schema)

/-- The value of a declared variable. The default does not come in before the supplied value, or
null in place of it, has been found valid. -/
def coerceVariable (supplied : Json.Members) (definition : VariableDefinition) :
    Except RequestError Value :=
  let type := definition.type
  if (schema.get? type.innermost).isNone then
    .ok .null
  else
    let value := Value.ofOption Value.ofJson (supplied.get? definition.name)
    if schema.isValid value type then
      match value, definition.default with
      | .null, some default => .ok (schema.coerceLiteral [] default type)
      | value, _ => .ok (schema.coerceSupplied value type)
    else
      .error (.invalidVariable definition.name definition.location)

/-- Adds the values of declared variables to a table, one after the other. -/
def coerceVariablesInto (supplied : Json.Members) (values : Entries Value) :
    List VariableDefinition → Except RequestError (Entries Value)
  | [] => .ok values
  | definition :: rest =>
    match schema.coerceVariable supplied definition with
    | .ok value => coerceVariablesInto supplied (values.put definition.name value) rest
    | .error error => .error error

/-- The values of the declared variables of an operation. -/
def coerceVariables (declared : List VariableDefinition) (supplied : Json.Members) :
    Except RequestError (Entries Value) :=
  schema.coerceVariablesInto supplied [] declared

end GraphQL.Schema
