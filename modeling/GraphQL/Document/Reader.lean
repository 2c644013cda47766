import GraphQL.Document
import GraphQL.Document.Token

/-!
# `GraphQL/Document/Reader.lean` — reading documents

The grammar of documents over their tokens. Each nonterminal is a `Reader`, which takes tokens from
the front or fails; where a nonterminal can stand inside itself, the reader is given a number of
tokens that it may use up, which is the length of the whole text and so never runs out first.

Where the second token tells what a construct is, it has to follow the first without a comma: the
colon after an alias, what is spread, what is extended, what is described. An argument and a field
of an object may stand without a value, and count as left out.
-/

set_option autoImplicit false

namespace GraphQL

/-- Takes tokens from the front of what is left, or fails. -/
abbrev Reader := StateT (List PlacedToken) Option

namespace Reader

/-! ## 1. Tokens -/

/-- The next token, left in place. -/
def peek? : Reader (Option Token) := do
  return (← get).head?.map (·.token)

/-- The place of the next token. -/
def here : Reader Location := do
  match ← get with
  | next :: _ => return next.location
  | [] => failure

/-- Whether there is a next token, and no comma in front of it. -/
def isAdjoined : Reader Bool := do
  match ← get with
  | next :: _ => return !next.afterComma
  | [] => return false

/-- Demands a next token without a comma in front of it. -/
def adjoined : Reader Unit := do
  if ← isAdjoined then return () else failure

/-- Takes the next token. -/
def next : Reader Token := do
  match ← get with
  | next :: rest =>
    set rest
    return next.token
  | [] => failure

/-- Takes the next token if it is the given one, and tells whether it was. -/
def accept (token : Token) : Reader Bool := do
  match ← get with
  | found :: rest =>
    if found.token = token then
      set rest
      return true
    else return false
  | [] => return false

/-- Takes the next token if it is the given one with no comma in front of it, and tells whether it
was. -/
def acceptAdjoined (token : Token) : Reader Bool := do
  if ← isAdjoined then accept token else return false

/-- Takes the next token, which has to be the given one. -/
def expect (token : Token) : Reader Unit := do
  if ← accept token then return () else failure

/-- Takes a name. -/
def name : Reader Name := do
  match ← next with
  | .name s => return s
  | _ => failure

/-- Takes a name if there is one. -/
def name? : Reader (Option Name) := do
  match ← peek? with
  | some (.name _) => some <$> name
  | _ => return none

/-- The items of a list up to and with its closing token. -/
def upTo {α : Type} (close : Token) (item : Reader α) : Nat → Reader (List α)
  | 0 => failure
  | fuel + 1 => do
    if ← accept close then return []
    else
      let first ← item
      let rest ← Reader.upTo close item fuel
      return first :: rest

/-- The items of a list that has some, up to and with its closing token. -/
def oneOrMore {α : Type} (close : Token) (item : Reader α) (fuel : Nat) : Reader (List α) := do
  let first ← item
  let rest ← Reader.upTo close item fuel
  return first :: rest

/-- The items of a list that may be left out with its brackets, but has some if it is there. -/
def ifOpened {α : Type} (opening close : Token) (item : Reader α) (fuel : Nat) :
    Reader (List α) := do
  if ← accept opening then Reader.oneOrMore close item fuel else return []

/-- Items as long as each is announced by the given token, which is taken. -/
def announced {α : Type} (mark : Token) (item : Reader α) : Nat → Reader (List α)
  | 0 => return []
  | fuel + 1 => do
    if ← accept mark then
      let first ← item
      let rest ← announced mark item fuel
      return first :: rest
    else return []

/-! ## 2. Values and types -/

/-- A value after a colon, if there is one. -/
def ifGiven (value : Reader Literal) : Reader (Option Literal) := do
  if ← accept (.punctuator ':') then some <$> value else return none

/-- A value; a variable only where the value need not be constant. -/
def literal (constant : Bool) : Nat → Reader Literal
  | 0 => failure
  | fuel + 1 => do
    match ← next with
    | .punctuator '$' => if constant then failure else return .variable (← name)
    | .int text => return .int text
    | .float text => return .float text
    | .string s => return .string s
    | .name s =>
      return match s with
        | "true" => .boolean true
        | "false" => .boolean false
        | "null" => .null
        | _ => .enum s
    | .punctuator '[' =>
      return .list (← Reader.upTo (.punctuator ']') (literal constant fuel) fuel)
    | .punctuator '\x7b' =>
      let field : Reader (Option (Name × Literal)) := do
        let key ← name
        return (← ifGiven (literal constant fuel)).map (key, ·)
      return .object ((← Reader.upTo (.punctuator '\x7d') field fuel).filterMap id)
    | _ => failure

/-- A reference to a type. -/
def typeRef : Nat → Reader TypeRef
  | 0 => failure
  | fuel + 1 => do
    match ← next with
    | .name s => return .named s (← accept (.punctuator '!'))
    | .punctuator '[' =>
      let item ← typeRef fuel
      expect (.punctuator ']')
      return .list item (← accept (.punctuator '!'))
    | _ => failure

/-- An argument. Without a value it is none. -/
def argument (constant : Bool) (fuel : Nat) : Reader (Option Argument) := do
  let key ← name
  return (← ifGiven (literal constant fuel)).map fun value => { name := key, value }

/-- Arguments in parentheses, if there are any. -/
def arguments (constant : Bool) (fuel : Nat) : Reader (List Argument) := do
  let items ← Reader.ifOpened (.punctuator '(') (.punctuator ')') (argument constant fuel) fuel
  return items.filterMap id

/-- A directive after its mark. -/
def directive (constant : Bool) (fuel : Nat) : Reader DirectiveUse := do
  let directiveName ← name
  return { name := directiveName, arguments := ← arguments constant fuel }

/-- Directives, if there are any. -/
def directives (constant : Bool) (fuel : Nat) : Reader (List DirectiveUse) :=
  announced (.punctuator '@') (directive constant fuel) fuel

/-! ## 3. Selections -/

/-- The condition of an inline fragment, if there is one. -/
def condition? : Reader (Option Name) := do
  if ← accept (.name "on") then return some (← name) else return none

/-- A selection set in braces. -/
def selections : Nat → Reader (List Selection)
  | 0 => failure
  | fuel + 1 => do
    let nested : Reader (List Selection) := do
      if (← peek?) = some (.punctuator '\x7b') then selections fuel else return []
    let selection : Reader Selection := do
      let location ← here
      match ← next with
      | .name first =>
        let (aliased, fieldName) ←
          if ← acceptAdjoined (.punctuator ':') then pure (some first, ← name)
          else pure (none, first)
        let args ← arguments false fuel
        let uses ← directives false fuel
        let below ← nested
        let head : FieldHead :=
          { location, aliased, name := fieldName, arguments := args, directives := uses }
        return .field head below
      | .spread =>
        adjoined
        match ← peek? with
        | some (.name word) =>
          if word = "on" then
            let on ← condition?
            let uses ← directives false fuel
            return .inline on uses (← selections fuel)
          else
            let fragment ← name
            return .spread fragment (← directives false fuel)
        | _ =>
          let uses ← directives false fuel
          return .inline none uses (← selections fuel)
      | _ => failure
    expect (.punctuator '\x7b')
    Reader.oneOrMore (.punctuator '\x7d') selection fuel

/-! ## 4. Operations and fragments -/

/-- The definition of a variable. -/
def variableDefinition (fuel : Nat) : Reader VariableDefinition := do
  let location ← here
  expect (.punctuator '$')
  let variableName ← name
  expect (.punctuator ':')
  let type ← typeRef fuel
  let default ←
    if ← accept (.punctuator '=') then some <$> literal true fuel else pure none
  return { location, name := variableName, type, default, directives := ← directives true fuel }

/-- An operation after its keyword. -/
def operation (location : Location) (kind : OperationKind) (fuel : Nat) : Reader Operation := do
  let operationName ← name?
  let variableDefinitions ←
    Reader.ifOpened (.punctuator '(') (.punctuator ')') (variableDefinition fuel) fuel
  let uses ← directives false fuel
  return {
    location, kind, name := operationName, variableDefinitions, directives := uses
    selections := ← selections fuel }

/-- A fragment after its keyword. It cannot be named `on`. -/
def fragment (fuel : Nat) : Reader Fragment := do
  let fragmentName ← name
  if fragmentName = "on" then failure
  expect (.name "on")
  let condition ← name
  let uses ← directives false fuel
  return { name := fragmentName, condition, directives := uses, selections := ← selections fuel }

/-! ## 5. Definitions of types

They are checked against the grammar and leave nothing behind. -/

/-- A description, if there is one. -/
def description : Reader Unit := do
  match ← peek? with
  | some (.string _) => let _ ← next
  | _ => return ()

/-- The definition of an argument or an input field. -/
def inputValue (fuel : Nat) : Reader Unit := do
  description
  let _ ← name
  expect (.punctuator ':')
  let _ ← typeRef fuel
  if ← accept (.punctuator '=') then
    let _ ← literal true fuel
  let _ ← directives true fuel

/-- The arguments of a field or directive definition, if there are any. -/
def argumentDefinitions (fuel : Nat) : Reader Unit := do
  let _ ← Reader.ifOpened (.punctuator '(') (.punctuator ')') (inputValue fuel) fuel

/-- The definition of a field. -/
def fieldDefinition (fuel : Nat) : Reader Unit := do
  description
  let _ ← name
  argumentDefinitions fuel
  expect (.punctuator ':')
  let _ ← typeRef fuel
  let _ ← directives true fuel

/-- The definition of an enum value. -/
def enumValueDefinition (fuel : Nat) : Reader Unit := do
  description
  match ← name with
  | "true" | "false" | "null" => failure
  | _ => let _ ← directives true fuel

/-- A root operation of a schema. The name of its type may be missing. -/
def rootOperation : Reader Unit := do
  match ← name with
  | "query" | "mutation" | "subscription" =>
    expect (.punctuator ':')
    let _ ← name?
  | _ => failure

/-- Where a directive may stand. -/
def directiveLocations : List Name :=
  ["QUERY", "MUTATION", "SUBSCRIPTION", "FIELD", "FRAGMENT_DEFINITION", "FRAGMENT_SPREAD",
   "INLINE_FRAGMENT", "VARIABLE_DEFINITION", "SCHEMA", "SCALAR", "OBJECT", "FIELD_DEFINITION",
   "ARGUMENT_DEFINITION", "INTERFACE", "UNION", "ENUM", "ENUM_VALUE", "INPUT_OBJECT",
   "INPUT_FIELD_DEFINITION"]

/-- The name of a place where a directive may stand. -/
def directiveLocation : Reader Unit := do
  if (← name) ∈ directiveLocations then return () else failure

/-- The name of a type, which is not looked up. -/
def typeName : Reader Unit := do
  let _ ← name

/-- Items with a mark between them, and perhaps one before the first. -/
def separated (mark : Token) (item : Reader Unit) (fuel : Nat) : Reader Unit := do
  let _ ← accept mark
  item
  let _ ← announced mark item fuel

/-- The interfaces that a type implements, if it says so. -/
def interfaces (fuel : Nat) : Reader Unit := do
  if ← accept (.name "implements") then separated (.punctuator '&') typeName fuel

/-- A block in braces, if there is one. -/
def block (item : Reader Unit) (fuel : Nat) : Reader Unit := do
  let _ ← Reader.ifOpened (.punctuator '\x7b') (.punctuator '\x7d') item fuel

/-- The rest of the definition of a type, after its keyword and its name. -/
def typeBody (keyword : String) (fuel : Nat) : Reader Unit := do
  match keyword with
  | "scalar" =>
    let _ ← directives true fuel
  | "type" | "interface" =>
    interfaces fuel
    let _ ← directives true fuel
    block (fieldDefinition fuel) fuel
  | "union" =>
    let _ ← directives true fuel
    if ← accept (.punctuator '=') then separated (.punctuator '|') typeName fuel
  | "enum" =>
    let _ ← directives true fuel
    block (enumValueDefinition fuel) fuel
  | "input" =>
    let _ ← directives true fuel
    block (inputValue fuel) fuel
  | _ => failure

/-- The definition of a directive, after its keyword. -/
def directiveDefinition (fuel : Nat) : Reader Unit := do
  expect (.punctuator '@')
  let _ ← name
  argumentDefinitions fuel
  let _ ← accept (.name "repeatable")
  expect (.name "on")
  separated (.punctuator '|') directiveLocation fuel

/-- The definition of a type, a schema or a directive, after its keyword. -/
def typeDefinition (keyword : String) (fuel : Nat) : Reader Unit := do
  match keyword with
  | "directive" => directiveDefinition fuel
  | "schema" =>
    let _ ← directives true fuel
    block rootOperation fuel
  | _ =>
    let _ ← name
    typeBody keyword fuel

/-- An extension of a schema, which has to add a directive or a root operation. -/
def schemaExtension (fuel : Nat) : Reader Unit := do
  let uses ← directives true fuel
  let operations ←
    if ← accept (.punctuator '\x7b') then Reader.upTo (.punctuator '\x7d') rootOperation fuel
    else pure []
  if uses.isEmpty && operations.isEmpty then failure

/-- An extension of a type or a schema, which has to add something. -/
def typeExtension (fuel : Nat) : Reader Unit := do
  adjoined
  match ← name with
  | "schema" => schemaExtension fuel
  | keyword =>
    let _ ← name
    let before := (← get).length
    typeBody keyword fuel
    if (← get).length = before then failure

/-! ## 6. Documents -/

/-- What a definition leaves in the document. -/
inductive Definition where
  | operation (operation : Operation)
  | fragment (fragment : Fragment)
  | ofTypes

/-- A definition after its description. For a fragment, the description takes the place of the
keyword, so that its name is `fragment`; an operation and an extension cannot have one. -/
def described (fuel : Nat) : Reader Definition := do
  adjoined
  if (← peek?) = some (.name "fragment") then return .fragment (← fragment fuel)
  else
    typeDefinition (← name) fuel
    return .ofTypes

/-- A definition. -/
def definition (fuel : Nat) : Reader Definition := do
  let location ← here
  match ← peek? with
  | some (.punctuator '\x7b') =>
    return .operation {
      location, kind := .query, name := none, variableDefinitions := [], directives := []
      selections := ← selections fuel }
  | some (.string _) =>
    description
    described fuel
  | _ =>
    match ← name with
    | "query" => return .operation (← operation location .query fuel)
    | "mutation" => return .operation (← operation location .mutation fuel)
    | "subscription" => return .operation (← operation location .subscription fuel)
    | "fragment" => return .fragment (← fragment fuel)
    | "extend" =>
      typeExtension fuel
      return .ofTypes
    | keyword =>
      typeDefinition keyword fuel
      return .ofTypes

/-- Definitions up to the end of the text. -/
def definitions : Nat → Reader (List Definition)
  | 0 => failure
  | fuel + 1 => do
    if (← get).isEmpty then return []
    else
      let first ← definition fuel
      let rest ← definitions fuel
      return first :: rest

end Reader

namespace Document

/-- The document of a list of definitions. -/
def ofDefinitions (definitions : List Reader.Definition) : Document :=
  { operations := definitions.filterMap fun
      | .operation o => some o
      | _ => none
    fragments := definitions.filterMap fun
      | .fragment f => some f
      | _ => none }

/-- The document that a text is. A text without any definition is none. -/
def read? (source : String) : Option Document := do
  let tokens ← Token.ofText? source
  if tokens.isEmpty then none
  else
    let (definitions, _) ← (Reader.definitions (tokens.length + 2)).run tokens
    some (ofDefinitions definitions)

end Document

/-- The reference to a type that a text is. -/
def TypeRef.read? (source : String) : Option TypeRef := do
  let tokens ← Token.ofText? source
  match (Reader.typeRef (tokens.length + 1)).run tokens with
  | some (type, []) => some type
  | _ => none

end GraphQL
