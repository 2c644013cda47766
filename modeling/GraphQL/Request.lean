import GraphQL.Document.Reader
import GraphQL.Execution
import GraphQL.Response.Wire

/-!
# `GraphQL/Request.lean` — requests

The body of a request as clients send it: the text of a document, the name of an operation, values
for variables. It is written as an object whose members come in that order; an operation name that
is missing and variables that are empty are left out. Reading accepts null for either of them, the
members in any order or an array of their values, and ignores members that it does not know.
-/

set_option autoImplicit false

namespace GraphQL

/-- A request. -/
structure Request where
  query : String
  operationName : Option String := none
  variableValues : Json.Members := []
  deriving Inhabited

namespace Request

/-- Whether two requests are equal. -/
def equals (a b : Request) : Bool :=
  a.query == b.query && a.operationName == b.operationName &&
    Json.Members.equals a.variableValues b.variableValues

/-- The document that the request carries, if its text is one. -/
def document? (request : Request) : Option Document :=
  Document.read? request.query

/-- The execution that the request asks for. -/
def execution (request : Request) : Execution :=
  { operationName := request.operationName, variableValues := request.variableValues }

/-! ## Writing and reading -/

/-- A request as JSON. -/
def toJson (request : Request) : Json :=
  .object <|
    ("query", .string request.query) ::
    (request.operationName.map fun name => ("operationName", Json.string name)).toList ++
    Json.memberUnless request.variableValues.isEmpty "variables" (.object request.variableValues)

/-- The text of a request. -/
def text (request : Request) : String :=
  request.toJson.text

/-- Reads an operation name. -/
def operationName? : Json.Written → Option (Option String)
  | .null => some none
  | written => written.string?.map some

/-- Reads variables. -/
def variableValues? : Json.Written → Option Json.Members
  | .null => some []
  | written => written.members?

/-- The members of a request, in the order in which they are written. -/
def memberNames : List String :=
  ["query", "operationName", "variables"]

/-- Reads a request. -/
def ofWritten? (written : Json.Written) : Option Request := do
  match ← written.parts? memberNames false with
  | [some query, operationName, variableValues] =>
    return {
      query := ← query.string?
      operationName := ← Json.Written.part? operationName? none operationName
      variableValues := ← Json.Written.part? variableValues? [] variableValues }
  | _ => none

/-- How many arrays and objects stand inside each other in what is kept of a request. Members that
it does not know are passed over, however deep they are. -/
def depth (written : Json.Written) : Nat :=
  match written.parts? memberNames false with
  | some [_, _, some variableValues] => variableValues.depth + 1
  | _ => 1

/-- The request that a text is. -/
def read? (source : String) : Option Request := do
  let written ← Json.Written.read? source
  if depth written ≤ Json.depthLimit then ofWritten? written else none

end Request

end GraphQL
