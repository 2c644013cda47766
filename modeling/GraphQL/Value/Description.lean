import GraphQL.Binary64.Shortest
import GraphQL.Text.Quoted
import GraphQL.Value

/-!
# `GraphQL/Value/Description.lean` — values as text for a reader

A description shows the kind of every value: texts are quoted, a floating-point number has a point
or an exponent, and null is written `Null`. What an object looks like is for those who know the
object to say.
-/

set_option autoImplicit false

namespace GraphQL

namespace Value

section Describe

variable (describeObject : ObjectRef → String)

mutual

/-- A value as text for a reader, given the text of objects. -/
def describeWith : Value → String
  | .null => "Null"
  | .boolean b => if b then "true" else "false"
  | .int n => toString n.toInt
  | .float x => Binary64.descriptionLayout.text x
  | .string s => Text.quoted s
  | .list items => Text.listing "[" (describeItems items) "]"
  | .map entries => Text.listing "\x7b" (describeEntries entries) "\x7d"
  | .object ref => describeObject ref

/-- The items of a list as text. -/
def describeItems : List Value → List String
  | [] => []
  | item :: rest => describeWith item :: describeItems rest

/-- The entries of a map as text. -/
def describeEntries : List (String × Value) → List String
  | [] => []
  | (key, value) :: rest =>
    (Text.quoted key ++ ": " ++ describeWith value) :: describeEntries rest

end

end Describe

end Value

end GraphQL
