/-!
# `GraphQL/TypeRef.lean` — references to types

A field, an argument or a variable has a type that is a name, a list of a type, or either of these
made non-null. That a reference is non-null is a flag on the name or the list, so no reference is
non-null twice.
-/

set_option autoImplicit false

namespace GraphQL

/-- The names of types, fields, arguments and all else that a document or a schema names. -/
abbrev Name := String

/-- A reference to a type; `required` is the exclamation mark. -/
inductive TypeRef where
  | named (name : Name) (required : Bool)
  | list (item : TypeRef) (required : Bool)
  deriving DecidableEq, Repr, Inhabited

namespace TypeRef

/-- Whether null is excluded. -/
def required : TypeRef → Bool
  | .named _ r => r
  | .list _ r => r

/-- The same type, with null allowed. -/
def nullable : TypeRef → TypeRef
  | .named name _ => .named name false
  | .list item _ => .list item false

/-- The name inside all lists. -/
def innermost : TypeRef → Name
  | .named name _ => name
  | .list item _ => item.innermost

/-- The reference as it is written in a document. -/
def text : TypeRef → String
  | .named name required => if required then name ++ "!" else name
  | .list item required => "[" ++ item.text ++ (if required then "]!" else "]")

end TypeRef

end GraphQL
