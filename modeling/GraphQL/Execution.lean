import GraphQL.Execution.Fields
import GraphQL.Input.Variables

/-!
# `GraphQL/Execution.lean` — executing an operation of a document

An `Execution` is all that a request brings besides the document: which operation, which values for
its variables, which root value. Executing first settles what can make the request as a whole an
error — the operation, its root type, its variables — and then executes the selections of the
operation on the root value. The application is not asked for anything before that.
-/

set_option autoImplicit false

namespace GraphQL

/-- How a document is to be executed. -/
structure Execution where
  /-- The operation to execute. It can be left open if the document has only one. -/
  operationName : Option String := none
  /-- The supplied values of variables. -/
  variableValues : Json.Members := []
  /-- The value that root fields are resolved on. -/
  root : Value := .null
  /-- Whether `__schema` and `__type` are answered. -/
  introspection : Bool := true
  deriving Inhabited

/-- The operation of a name; the only one, if there is no name. -/
def Document.operation? (document : Document) (name : Option String) :
    Except RequestError Operation :=
  match name with
  | some name =>
    match document.operations.find? fun operation => operation.name = some name with
    | some operation => .ok operation
    | none => .error (.unknownOperation name)
  | none =>
    match document.operations with
    | [operation] => .ok operation
    | [] => .error .noOperation
    | _ :: _ :: _ => .error .ambiguousOperation

/-- The type that an operation begins on. -/
def Schema.rootOf (schema : Schema) (operation : Operation) : Except RequestError ObjectType :=
  match operation.kind with
  | .query => .ok schema.query
  | .mutation =>
    match schema.mutation with
    | some type => .ok type
    | none => .error (.noMutations operation.location)
  | .subscription => .error (.notExecutable operation.location)

/-- What is settled before execution begins. -/
structure Prepared where
  operation : Operation
  rootType : ObjectType
  variableValues : Entries Value

namespace Execution

/-- Settles the operation, its root type and its variables. -/
def prepare (execution : Execution) (schema : Schema) (document : Document) :
    Except RequestError Prepared := do
  let operation ← document.operation? execution.operationName
  let rootType ← schema.rootOf operation
  let variableValues ←
    schema.coerceVariables operation.variableDefinitions execution.variableValues
  return { operation, rootType, variableValues }

variable {σ : Type}

/-- The environment of a prepared execution. -/
def environment (execution : Execution) (schema : Schema) (application : Application σ)
    (document : Document) (prepared : Prepared) : Environment σ where
  schema := schema
  fragments := document.fragments
  variableValues := prepared.variableValues
  application := application
  operation := prepared.operation
  root := execution.root
  introspection := execution.introspection

/-- The response of an execution that has begun. A failure at the root leaves null for data. -/
def respond (outcome : Outcome Json.Members) : Response where
  errors := outcome.errors
  data := match outcome.result with
    | some members => .object members
    | none => .null

/-- Executes an operation of a document; nothing comes of it if selection sets stand inside each
other more than `depth` times. -/
def run? (execution : Execution) (depth : Nat) (schema : Schema) (application : Application σ)
    (document : Document) (state : σ) : Option (Response × σ) :=
  match execution.prepare schema document with
  | .error error => some (error.response, state)
  | .ok prepared =>
    let env := execution.environment schema application document prepared
    let run := env.executeSelections depth prepared.rootType execution.root
      prepared.operation.selections
    (run state).map fun (outcome, state) => (respond outcome, state)

end Execution

end GraphQL
