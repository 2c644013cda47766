import GraphQL.Execution.Completion
import GraphQL.Introspection.Resolution

/-!
# `GraphQL/Execution/Fields.lean` — selection sets and their fields

A selection set is executed on an object of a known type: its fields are collected and grouped by
response key, and each group is resolved and completed, in order. A failure that a field does not
absorb fails the whole object, and the fields after it are not resolved. A field that the type does
not have is left out.

Selection sets stand inside each other as deep as the data goes, which the text of a document does
not bound: a fragment may spread itself inside a field. So execution is given a depth.
-/

set_option autoImplicit false

namespace GraphQL

open Introspection

/-! ## 1. Which field a name means -/

/-- A field of an object type: one that it declares, or one of the three that none declares. -/
inductive FoundField where
  | declared (definition : FieldDefinition)
  | schema
  | type
  | typename

/-- The definition of a field. -/
def FoundField.definition : FoundField → FieldDefinition
  | .declared definition => definition
  | .schema => schemaField
  | .type => typeField
  | .typename => typenameField

/-- The field of a name on an object type. Only the root of queries has `__schema` and `__type`. -/
def Schema.field? (schema : Schema) (type : ObjectType) (name : Name) : Option FoundField :=
  if name = "__typename" then some .typename
  else if name = "__schema" ∨ name = "__type" then
    if type.name = schema.query.name then
      some (if name = "__schema" then .schema else .type)
    else none
  else (type.fields.get? name).map .declared

/-! ## 2. What a field resolves to -/

/-- All that stays the same during an execution. -/
structure Environment (σ : Type) extends Scope where
  application : Application σ
  operation : Operation
  /-- The value that execution begins with. -/
  root : Value
  /-- Whether `__schema` and `__type` are answered. -/
  introspection : Bool

/-- The resolver of a declared field of an object type, if it has one of its own. -/
def Application.resolver? {σ : Type} (application : Application σ) (typeName fieldName : Name) :
    Option (Resolver σ) :=
  match Introspection.resolver? typeName with
  | some resolve => some fun info => pure (resolve info)
  | none => application.resolver typeName fieldName

namespace Environment

variable {σ : Type} (env : Environment σ)

/-- What a field resolves to. -/
def resolve (found : FoundField) : Resolver σ := fun info =>
  match found with
  | .typename => pure (.ok (.string info.parent.name))
  | .schema =>
    if env.introspection then pure (.ok Subject.schema.value)
    else pure (.error { message := "schema introspection is disabled" })
  | .type =>
    if env.introspection then pure (.ok (resolveTypeField info))
    else pure (.error { message := "schema introspection is disabled" })
  | .declared definition =>
    match env.application.resolver? info.parent.name definition.name with
    | some resolver => resolver info
    | none => env.application.readField info

/-! ## 3. Fields -/

/-- What a resolver is given. -/
def resolveInfo (type : ObjectType) (source : Value) (group : FieldGroup)
    (definition : FieldDefinition) : ResolveInfo where
  schema := env.schema
  parent := type
  field := definition
  arguments :=
    env.schema.coerceArguments env.variableValues definition.arguments group.first.arguments
  source := source
  root := env.root
  operation := env.operation
  nodes := group

variable (execute : ObjectType → Value → List Selection → Run σ Json.Members)

/-- Resolves a field and completes its value. -/
def executeFound (type : ObjectType) (source : Value) (group : FieldGroup) (found : FoundField) :
    Run σ Json :=
  let definition := found.definition
  let run : Run σ Json := do
    let info := env.resolveInfo type source group definition
    match ← Run.ofState (env.resolve found info) with
    | .ok value => complete env.schema env.application execute group definition.type value
    | .error error => Run.fail (group.report error.message error.extensions)
  (run.under (.field group.key)).absorb (!definition.type.required) .null

/-- Executes a group of field nodes; nothing comes of a field that the type does not have. -/
def executeGroup (type : ObjectType) (source : Value) (group : FieldGroup) :
    Run σ (Option Json) :=
  match env.schema.field? type group.first.name with
  | none => pure none
  | some found => do return some (← env.executeFound execute type source group found)

/-- Executes groups of field nodes, one after the other. -/
def executeGroups (type : ObjectType) (source : Value) : List FieldGroup → Run σ Json.Members
  | [] => pure []
  | group :: rest => do
    let data ← env.executeGroup execute type source group
    let others ← executeGroups type source rest
    return match data with
      | some data => (group.key, data) :: others
      | none => others

/-! ## 4. Selection sets -/

/-- Executes a selection set on an object, with at most `depth` selection sets inside each other. -/
def executeSelections : Nat → ObjectType → Value → List Selection → Run σ Json.Members
  | 0, _, _, _ => Run.exhausted
  | depth + 1, type, source, selections =>
    env.executeGroups (executeSelections depth) type source
      (env.collectGroups type.name selections)

end Environment

end GraphQL
