import GraphQL.TypeRef

/-!
# `GraphQL/Introspection/Subject.lean` — what introspection talks about

A field such as `__schema` or `__type` resolves to a value that a client can only look into by
selecting fields on it. Such a value is a subject: a plain description of one part of a schema. It
holds what introspection can report about that part and nothing else — no behaviour, and of a
default value only its text — so it says nothing about how the part came to be in the schema.
-/

set_option autoImplicit false

namespace GraphQL.Introspection

/-- An argument or an input field. -/
structure InputDescription where
  name : Name
  description : Option String
  type : TypeRef
  /-- The default value as JSON text, if there is a default value. -/
  default : Option String
  deriving DecidableEq, Repr, Inhabited

/-- A field of an object or interface type. -/
structure FieldDescription where
  name : Name
  description : Option String
  arguments : List InputDescription
  type : TypeRef
  deprecation : Option String
  deriving DecidableEq, Repr, Inhabited

/-- A value of an enum type. -/
structure EnumValueDescription where
  name : Name
  description : Option String
  deprecation : Option String
  deriving DecidableEq, Repr, Inhabited

/-- A directive. -/
structure DirectiveDescription where
  name : Name
  description : Option String
  arguments : List InputDescription
  onOperation : Bool
  onFragment : Bool
  onField : Bool
  deriving DecidableEq, Repr, Inhabited

/-- A part of a schema. -/
inductive Subject where
  | schema
  | type (type : TypeRef)
  | field (field : FieldDescription)
  | input (input : InputDescription)
  | enumValue (value : EnumValueDescription)
  | directive (directive : DirectiveDescription)
  deriving DecidableEq, Repr, Inhabited

end GraphQL.Introspection
