import GraphQL.Json.Text
import GraphQL.Json.Written
import GraphQL.Response

/-!
# `GraphQL/Response/Wire.lean` — responses as JSON

A response is written as an object whose members come in a fixed order: errors first, then data,
then extensions. What is empty is left out, and so is data that is absent; data that is null is
written. Reading accepts the members in any order, and also an array of their values, but no member
that it does not know.
-/

set_option autoImplicit false

namespace GraphQL

/-! ## 1. Writing -/

/-- One member, if there is something to write. -/
def Json.memberUnless (empty : Bool) (key : String) (value : Json) : Json.Members :=
  if empty then [] else [(key, value)]

/-- A place. -/
def Location.toJson (place : Location) : Json :=
  .object [("line", .ofNat place.line), ("column", .ofNat place.column)]

/-- A step of a path. -/
def PathElement.toJson : PathElement → Json
  | .field key => .string key
  | .index position => .ofNat position

/-- An error. -/
def ErrorReport.toJson (report : ErrorReport) : Json :=
  .object <|
    ("message", .string report.message) ::
    Json.memberUnless report.locations.isEmpty "locations"
      (.array (report.locations.map (·.toJson))) ++
    Json.memberUnless report.path.isEmpty "path" (.array (report.path.map (·.toJson))) ++
    Json.memberUnless report.extensions.isEmpty "extensions" (.object report.extensions)

/-- The data by itself. Absent data, which a response leaves out, is null when it stands alone. -/
def ResponseData.toJson : ResponseData → Json
  | .object members => .object members
  | .null | .absent => .null

/-- Whether data is absent. -/
def ResponseData.isAbsent : ResponseData → Bool
  | .absent => true
  | _ => false

/-- A response. -/
def Response.toJson (response : Response) : Json :=
  .object <|
    Json.memberUnless response.errors.isEmpty "errors"
      (.array (response.errors.map (·.toJson))) ++
    Json.memberUnless response.data.isAbsent "data" response.data.toJson ++
    Json.memberUnless response.extensions.isEmpty "extensions" (.object response.extensions)

/-! ## 2. Reading -/

namespace Json.Written

/-- A natural number. -/
def nat? : Written → Option Nat
  | .number (some (.integer n)) => if 0 ≤ n then some n.toNat else none
  | _ => none

/-- A text. -/
def string? : Written → Option String
  | .string s => s
  | _ => none

/-- The members of an object. -/
def members? (written : Written) : Option Json.Members :=
  match written.keep? with
  | some (.object members) => some members
  | _ => none

/-- The items of an array, each read in the same way. -/
def items? {α : Type} (read? : Written → Option α) : Written → Option (List α)
  | .array items => items.mapM read?
  | _ => none

/-- A part that may be missing. -/
def part? {α : Type} (read? : Written → Option α) (missing : α) : Option Written → Option α
  | none => some missing
  | some written => read? written

end Json.Written

open Json (Written)

/-- Reads a place. -/
def Location.ofWritten? (written : Written) : Option Location := do
  match ← written.parts? ["line", "column"] true with
  | [some line, some column] => return { line := ← line.nat?, column := ← column.nat? }
  | _ => none

/-- Reads a step of a path. -/
def PathElement.ofWritten? : Written → Option PathElement
  | .string s => s.map .field
  | written => written.nat?.map .index

/-- Reads an error. -/
def ErrorReport.ofWritten? (written : Written) : Option ErrorReport := do
  match ← written.parts? ["message", "locations", "path", "extensions"] true with
  | [some message, locations, path, extensions] =>
    return {
      message := ← message.string?
      locations := ← Written.part? (Written.items? Location.ofWritten?) [] locations
      path := ← Written.part? (Written.items? PathElement.ofWritten?) [] path
      extensions := ← Written.part? Written.members? [] extensions }
  | _ => none

/-- Reads data that is there. -/
def ResponseData.ofWritten? : Written → Option ResponseData
  | .null => some .null
  | written => written.members?.map .object

/-- Reads a response. -/
def Response.ofWritten? (written : Written) : Option Response := do
  match ← written.parts? ["errors", "data", "extensions"] true with
  | [errors, data, extensions] =>
    return {
      errors := ← Written.part? (Written.items? ErrorReport.ofWritten?) [] errors
      data := ← Written.part? ResponseData.ofWritten? .absent data
      extensions := ← Written.part? Written.members? [] extensions }
  | _ => none

/-! ## 3. Texts -/

/-- The text of a response. -/
def Response.text (response : Response) : String :=
  response.toJson.text

/-- The response that a text is. -/
def Response.read? (source : String) : Option Response := do
  let written ← Written.read? source
  if written.depth ≤ Json.depthLimit then Response.ofWritten? written else none

end GraphQL
