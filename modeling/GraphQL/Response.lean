import GraphQL.Json
import GraphQL.Location

/-!
# `GraphQL/Response.lean` — responses

What a client gets back: data, errors, and room for extensions. The data is an object, or null where
a failure has made its way to the root, or absent where execution never began; the three are
different answers. How a response is written is in `GraphQL/Response/Wire.lean`.
-/

set_option autoImplicit false

namespace GraphQL

/-- One step from a value of the response data to a value inside it. -/
inductive PathElement where
  | field (key : String)
  | index (position : Nat)
  deriving DecidableEq, Repr, Inhabited

/-- An error as a response reports it. -/
structure ErrorReport where
  message : String
  locations : List Location := []
  /-- Where in the data the error happened; empty for an error of the request as a whole. -/
  path : List PathElement := []
  extensions : Json.Members := []
  deriving Inhabited

/-- The same error, seen from one step further out. -/
def ErrorReport.under (step : PathElement) (report : ErrorReport) : ErrorReport :=
  { report with path := step :: report.path }

/-- The data of a response. -/
inductive ResponseData where
  | object (members : Json.Members)
  | null
  | absent
  deriving Inhabited

/-- A response. -/
structure Response where
  errors : List ErrorReport := []
  data : ResponseData := .absent
  extensions : Json.Members := []
  deriving Inhabited

/-- The response to a request that cannot be executed. -/
def Response.ofErrors (errors : List ErrorReport) : Response :=
  { errors }

/-! ## Equality -/

/-- Whether two reports are equal. -/
def ErrorReport.equals (a b : ErrorReport) : Bool :=
  a.message == b.message && a.locations == b.locations && a.path == b.path &&
    Json.Members.equals a.extensions b.extensions

/-- Whether two lists of reports are equal. -/
def ErrorReport.equalAll : List ErrorReport → List ErrorReport → Bool
  | [], [] => true
  | a :: as, b :: bs => a.equals b && equalAll as bs
  | _, _ => false

/-- Whether the data of two responses are equal. -/
def ResponseData.equals : ResponseData → ResponseData → Bool
  | .object a, .object b => Json.Members.equals a b
  | .null, .null => true
  | .absent, .absent => true
  | _, _ => false

/-- Whether two responses are equal. -/
def Response.equals (a b : Response) : Bool :=
  ErrorReport.equalAll a.errors b.errors && a.data.equals b.data &&
    Json.Members.equals a.extensions b.extensions

end GraphQL
