import GraphQL.Schema
import GraphQL.Text.Quoted

/-!
# `GraphQL/Schema/Description.lean` — schemas as text for a reader

A description of a schema shows its root types and the names of all its types, and that there is
more.
-/

set_option autoImplicit false

namespace GraphQL.Schema

/-- A schema as text for a reader. -/
def describe (schema : Schema) : String :=
  let mutation := match schema.mutation with
    | some type => "Some(" ++ Text.quoted type.name ++ ")"
    | none => "None"
  "Schema \x7b query_type: " ++ Text.quoted schema.query.name ++ ", mutation_type: " ++ mutation ++
    ", types: " ++ Text.listing "[" (schema.types.names.map Text.quoted) "]" ++ ", .. \x7d"

end GraphQL.Schema
