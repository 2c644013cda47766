import GraphQL.Location
import GraphQL.TypeRef

/-!
# `GraphQL/Document.lean` — documents

What a client sends: operations and fragments. A document is what is written, checked against the
grammar and against nothing else; names in it may stand for nothing, and fragments may spread each
other in a circle. Fields, operations and variable definitions know the place of their first token,
because errors report it.
-/

set_option autoImplicit false

namespace GraphQL

/-! ## 1. Literals -/

/-- A value as it is written in a document. Numbers keep their text. -/
inductive Literal where
  | null
  | boolean (b : Bool)
  | int (text : String)
  | float (text : String)
  | string (s : String)
  | enum (name : Name)
  | variable (name : Name)
  | list (items : List Literal)
  | object (fields : List (Name × Literal))
  deriving Inhabited, Repr

/-- An argument of a field or a directive. -/
structure Argument where
  name : Name
  value : Literal
  deriving Inhabited, Repr

/-- A directive on a node of a document. -/
structure DirectiveUse where
  name : Name
  arguments : List Argument
  deriving Inhabited, Repr

/-! ## 2. Selections -/

/-- A field without its selections. -/
structure FieldHead where
  /-- The place of the alias, or of the name if there is no alias. -/
  location : Location
  aliased : Option Name
  name : Name
  arguments : List Argument
  directives : List DirectiveUse
  deriving Inhabited, Repr

/-- The key under which the field's value stands in a response. -/
def FieldHead.key (head : FieldHead) : Name :=
  head.aliased.getD head.name

/-- One entry of a selection set. -/
inductive Selection where
  | field (head : FieldHead) (selections : List Selection)
  | inline (condition : Option Name) (directives : List DirectiveUse) (selections : List Selection)
  | spread (fragment : Name) (directives : List DirectiveUse)
  deriving Inhabited, Repr

/-- A field node of a document. -/
structure FieldNode extends FieldHead where
  selections : List Selection
  deriving Inhabited, Repr

/-! ## 3. Definitions -/

/-- What an operation does. -/
inductive OperationKind where
  | query
  | mutation
  | subscription
  deriving DecidableEq, Repr, Inhabited

/-- The keyword of a kind of operation. -/
def OperationKind.keyword : OperationKind → String
  | .query => "query"
  | .mutation => "mutation"
  | .subscription => "subscription"

/-- The declaration of a variable by an operation. -/
structure VariableDefinition where
  /-- The place of the dollar sign. -/
  location : Location
  name : Name
  type : TypeRef
  default : Option Literal
  directives : List DirectiveUse
  deriving Inhabited, Repr

/-- An operation. -/
structure Operation where
  /-- The place of the keyword, or of the opening brace if there is none. -/
  location : Location
  kind : OperationKind
  name : Option Name
  variableDefinitions : List VariableDefinition
  directives : List DirectiveUse
  selections : List Selection
  deriving Inhabited, Repr

/-- A fragment. -/
structure Fragment where
  name : Name
  condition : Name
  directives : List DirectiveUse
  selections : List Selection
  deriving Inhabited, Repr

/-- A document: its operations and its fragments, each in order. Definitions of types may stand in a
document and leave nothing behind. -/
structure Document where
  operations : List Operation
  fragments : List Fragment
  deriving Inhabited, Repr

/-- The definition of a fragment. Of several with one name, the last counts. -/
def Fragment.find? (fragments : List Fragment) (name : Name) : Option Fragment :=
  fragments.foldl (fun found f => if f.name = name then some f else found) none

@[simp] theorem Fragment.find?_nil (name : Name) : Fragment.find? [] name = none := rfl

theorem Fragment.find?_concat (fragments : List Fragment) (last : Fragment) (name : Name) :
    Fragment.find? (fragments ++ [last]) name =
      if last.name = name then some last else Fragment.find? fragments name := by
  rw [Fragment.find?, List.foldl_append]
  rfl

end GraphQL
