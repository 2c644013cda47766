import GraphQL.Document
import GraphQL.Table
import GraphQL.Value

/-!
# `GraphQL/Schema/Definition.lean` — definitions of types and directives

A schema declares types, and types name each other. Declarations are data: what a field resolves to,
or to which object type a value belongs, is the behaviour of an application and is kept apart from
them (see `GraphQL/Application.lean`). The one function in here is how a scalar type reads values,
because that is what a scalar type is.

Descriptions and deprecation reasons are for introspection alone.
-/

set_option autoImplicit false

namespace GraphQL

/-! ## 1. Parts of types -/

/-- An argument of a field or directive, or a field of an input object type. -/
structure InputValueDefinition where
  name : Name
  description : Option String := none
  type : TypeRef
  default : Option Value := none
  deriving Inhabited

/-- A field of an object or interface type. -/
structure FieldDefinition where
  name : Name
  description : Option String := none
  arguments : List InputValueDefinition := []
  type : TypeRef
  /-- A value that the field's resolver is handed as it is. -/
  data : Value := .null
  deprecation : Option String := none
  deriving Inhabited

/-- A value of an enum type. -/
structure EnumValueDefinition where
  name : Name
  description : Option String := none
  /-- The runtime value that stands for this enum value. -/
  value : Value := .string name
  deprecation : Option String := none
  deriving Inhabited

instance : Named InputValueDefinition := ⟨InputValueDefinition.name⟩
instance : Named FieldDefinition := ⟨FieldDefinition.name⟩
instance : Named EnumValueDefinition := ⟨EnumValueDefinition.name⟩

/-- The argument of a name; the first, if there are several. -/
def FieldDefinition.argument? (field : FieldDefinition) (name : Name) :
    Option InputValueDefinition :=
  field.arguments.find? fun argument => argument.name = name

/-! ## 2. Types -/

/-- A scalar type. -/
structure ScalarType where
  name : Name
  description : Option String := none
  /-- Reads a runtime value, which comes from a resolver or from a variable. -/
  coerce : Value → Option Value
  /-- Reads a literal. -/
  coerceLiteral : Literal → Option Value

/-- An object type. -/
structure ObjectType where
  name : Name
  description : Option String := none
  interfaces : List Name := []
  fields : Table FieldDefinition := .empty
  deriving Inhabited

/-- An interface type. -/
structure InterfaceType where
  name : Name
  description : Option String := none
  fields : Table FieldDefinition := .empty
  deriving Inhabited

/-- A union type. -/
structure UnionType where
  name : Name
  description : Option String := none
  members : List Name := []
  deriving Inhabited

/-- An enum type. -/
structure EnumType where
  name : Name
  description : Option String := none
  values : Table EnumValueDefinition := .empty
  deriving Inhabited

/-- An input object type. -/
structure InputObjectType where
  name : Name
  description : Option String := none
  fields : Table InputValueDefinition := .empty
  deriving Inhabited

/-- The definition of a named type. -/
inductive TypeDefinition where
  | scalar (type : ScalarType)
  | object (type : ObjectType)
  | interface (type : InterfaceType)
  | union (type : UnionType)
  | enum (type : EnumType)
  | input (type : InputObjectType)

namespace EnumType

/-- The enum value that a runtime value stands for, as its name: the first with an equal value. -/
def coerce (type : EnumType) (value : Value) : Option Value :=
  (type.values.entries.find? fun entry => entry.value.equals value).map fun entry =>
    .string entry.name

/-- The enum value that a literal names. -/
def coerceLiteral (type : EnumType) : Literal → Option Value
  | .enum name => (type.values.get? name).map fun entry => .string entry.name
  | _ => none

end EnumType

namespace TypeDefinition

/-- The name of the type. -/
def name : TypeDefinition → Name
  | .scalar type => type.name
  | .object type => type.name
  | .interface type => type.name
  | .union type => type.name
  | .enum type => type.name
  | .input type => type.name

instance : Named TypeDefinition := ⟨TypeDefinition.name⟩

/-- The description of the type. -/
def description : TypeDefinition → Option String
  | .scalar type => type.description
  | .object type => type.description
  | .interface type => type.description
  | .union type => type.description
  | .enum type => type.description
  | .input type => type.description

/-- The fields of an object or interface type. -/
def fields? : TypeDefinition → Option (Table FieldDefinition)
  | .object type => some type.fields
  | .interface type => some type.fields
  | _ => none

/-- Whether arguments and variables can have the type. -/
def isInput : TypeDefinition → Bool
  | .scalar _ | .enum _ | .input _ => true
  | _ => false

/-- Whether fields can have the type. -/
def isOutput : TypeDefinition → Bool
  | .input _ => false
  | _ => true

/-- Whether the type stands for several object types. -/
def isAbstract : TypeDefinition → Bool
  | .interface _ | .union _ => true
  | _ => false

/-- Whether the type is an object type. -/
def isObject : TypeDefinition → Bool
  | .object _ => true
  | _ => false

/-- Whether the type is an interface type. -/
def isInterface : TypeDefinition → Bool
  | .interface _ => true
  | _ => false

end TypeDefinition

/-! ## 3. Directives -/

/-- The definition of a directive. -/
structure DirectiveDefinition where
  name : Name
  description : Option String := none
  arguments : List InputValueDefinition := []
  onOperation : Bool := false
  onFragment : Bool := false
  onField : Bool := false
  deriving Inhabited

instance : Named DirectiveDefinition := ⟨DirectiveDefinition.name⟩

end GraphQL
