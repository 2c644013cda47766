import GraphQL.Execution.Collection
import GraphQL.Json

/-!
# `GraphQL/Application.lean` — the behaviour behind a schema

A schema says which fields there are; an application says what they resolve to. Its behaviour is
found by name: the resolver of a field by the names of the object type and the field, the members of
an object by its number. Behaviour may read and change a state of the application's own, of type
`σ`; with `Unit` for `σ` there is nothing to change, and all behaviour is a function of what it is
given.
-/

set_option autoImplicit false

namespace GraphQL

/-- A failure that a resolver reports. -/
structure FieldError where
  message : String
  extensions : Json.Members := []
  deriving Inhabited

/-- What a resolver is given. -/
structure ResolveInfo where
  schema : Schema
  /-- The object type that the field is resolved on. -/
  parent : ObjectType
  /-- The definition of the field. -/
  field : FieldDefinition
  /-- The values of all declared arguments. -/
  arguments : Entries Value
  /-- The value that the field is resolved on. -/
  source : Value
  /-- The value that execution began with. -/
  root : Value
  operation : Operation
  /-- The field nodes of the document that are answered at once. -/
  nodes : FieldGroup

/-- The value of an argument; null if it is not declared. -/
def ResolveInfo.argument (info : ResolveInfo) (name : Name) : Value :=
  (info.arguments.get? name).getD .null

/-- Produces the value of a field. -/
abbrev Resolver (σ : Type) := ResolveInfo → StateM σ (Except FieldError Value)

/-- A member of an object of the application. -/
inductive Member (σ : Type) where
  | property (value : Value)
  /-- Called with the object as its argument. -/
  | method (call : Value → StateM σ (Except FieldError Value))

/-- The behaviour behind a schema. -/
structure Application (σ : Type) where
  /-- The member of an object, by its number and the member's name. -/
  member : Nat → Name → Option (Member σ) := fun _ _ => none
  /-- The resolver of a field, by the names of its object type and the field. A field without one is
  read off its source. -/
  resolver : Name → Name → Option (Resolver σ) := fun _ _ => none
  /-- Tells whether a value belongs to an object type, by the name of the type. -/
  isTypeOf : Name → Option (Value → StateM σ Bool) := fun _ => none
  /-- Names the object type that a value belongs to, by the name of the abstract type. -/
  resolveType : Name → Option (Value → StateM σ (Option Name)) := fun _ => none

namespace Application

variable {σ : Type} (application : Application σ)

/-- The application without behaviour of its own, which reads all fields off their sources. -/
instance : Inhabited (Application σ) := ⟨{}⟩

/-- Reads an entry of a map or a member of an object, by name. A method is called with the object.
Null if there is nothing of the name, or nothing to read from. -/
def read (source : Value) (name : Name) : StateM σ (Except FieldError Value) :=
  match source with
  | .map entries => pure (.ok ((Entries.get? entries name).getD .null))
  | .object (.host id) =>
    match application.member id name with
    | some (.property value) => pure (.ok value)
    | some (.method call) => call source
    | none => pure (.ok .null)
  | _ => pure (.ok .null)

/-- How a field without a resolver gets its value: what its name reads from the source. A member
named `ofType` is never read off an object. -/
def readField : Resolver σ := fun info =>
  match info.source with
  | .object _ =>
    if info.field.name = "ofType" then pure (.ok .null)
    else application.read info.source info.field.name
  | source => application.read source info.field.name

end Application

end GraphQL
