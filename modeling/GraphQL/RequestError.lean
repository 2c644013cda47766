import GraphQL.Response
import GraphQL.TypeRef

/-!
# `GraphQL/RequestError.lean` — requests that cannot be executed

A request error is found before execution begins, and the response to it has no data. It says what
is wrong, and where in the document, as far as there is a place for it.
-/

set_option autoImplicit false

namespace GraphQL

/-- Why a request is not executed. -/
inductive RequestError where
  | noOperation
  | unknownOperation (name : String)
  | ambiguousOperation
  | noMutations (operation : Location)
  | notExecutable (operation : Location)
  | invalidVariable (name : Name) (definition : Location)
  /-- A reason that an application has of its own. -/
  | other (message : String)
  deriving DecidableEq, Repr

namespace RequestError

/-- What the error says. -/
def message : RequestError → String
  | .noOperation => "Must provide an operation."
  | .unknownOperation name => "Unknown operation named \"" ++ name ++ "\"."
  | .ambiguousOperation =>
    "Must provide operation name if query contains multiple operations."
  | .noMutations _ => "Schema is not configured for mutations."
  | .notExecutable _ => "Can only execute queries and mutations."
  | .invalidVariable name _ =>
    "Variable \"$" ++ name ++ "\" expected value of different type."
  | .other message => message

/-- The place in the document that the error is about. -/
def location? : RequestError → Option Location
  | .noMutations place | .notExecutable place | .invalidVariable _ place => some place
  | .noOperation | .unknownOperation _ | .ambiguousOperation | .other _ => none

/-- The error as a response reports it. -/
def report (error : RequestError) : ErrorReport :=
  { message := error.message, locations := error.location?.toList }

/-- The response to the request. -/
def response (error : RequestError) : Response :=
  .ofErrors [error.report]

end RequestError

end GraphQL
