import GraphQL.Binary64.Decimal
import GraphQL.Binary64.Shortest
import GraphQL.Schema.Definition
import GraphQL.Text.Blank

/-!
# `GraphQL/Schema/Scalar.lean` — the built-in scalar types

`Int`, `Float`, `String`, `Boolean` and `ID`. Runtime values are read leniently, so that a resolver
or a variable may give a number as text and the like; literals are read strictly, each by the types
that its spelling belongs to. `Int` covers the integers of 64 bits with sign.
-/

set_option autoImplicit false

namespace GraphQL.Scalar

/-! ## 1. Numbers -/

/-- A value as a floating-point number: a number, a truth value as one or zero, or a text that is a
number between blanks. -/
def toFloat? : Value → Option Float
  | .int n => some (Binary64.ofInt n.toInt)
  | .float x => some x
  | .boolean b => some (Binary64.ofInt (if b then 1 else 0))
  | .string s => Binary64.read? (Text.trim s.toList)
  | _ => none

/-- A value as an integer: itself if it is one, and otherwise the integer part of the floating-point
number that it is, strictly between `-2 ^ 63` and `2 ^ 63`. -/
def toInt? : Value → Option Int64
  | .int n => some n
  | value => do
    let whole ← Binary64.truncate? (← toFloat? value)
    if Int64.minValue.toInt < whole ∧ whole ≤ Int64.maxValue.toInt then some (Int64.ofInt whole)
    else none

/-- The integer that a text of digits with an optional sign is. -/
def integer? (text : String) : Option Int :=
  let (negative, rest) := Binary64.takeSign text.toList
  match Binary64.takeDigits rest with
  | (magnitude, _ + 1, []) =>
    some (if negative then -Int.ofNat magnitude else Int.ofNat magnitude)
  | _ => none

/-- The integer of 64 bits that a text is. -/
def int64? (text : String) : Option Int64 :=
  (integer? text).bind Value.int64?

/-- A number that is finite, as a value. -/
def finite? (x : Float) : Option Value :=
  if Binary64.isFinite x then some (.float x) else none

/-- A number as text: positional, and without a fraction if it is whole. -/
def floatText (x : Float) : String :=
  Binary64.plainLayout.text x

/-! ## 2. The five types -/

/-- The type `Int`: integers of 64 bits with sign. -/
def int : ScalarType where
  name := "Int"
  description := some <|
    "The `Int` scalar type represents non-fractional signed whole numeric values. " ++
    "Int can represent values between -(2^31) and 2^31 - 1."
  coerce value := (toInt? value).map .int
  coerceLiteral
    | .int text => (int64? text).map .int
    | _ => none

/-- The type `Float`: finite floating-point numbers. -/
def float : ScalarType where
  name := "Float"
  description := some
    "The `Float` scalar type represents signed double-precision fractional values."
  coerce value := (toFloat? value).bind finite?
  coerceLiteral
    | .int text | .float text => (Binary64.read? text.toList).bind finite?
    | _ => none

/-- The type `String`: texts; numbers and truth values are accepted as text. -/
def string : ScalarType where
  name := "String"
  description := some
    "The `String` scalar type represents textual data, represented as UTF-8 character sequences."
  coerce
    | .string s => some (.string s)
    | .boolean b => some (.string (if b then "true" else "false"))
    | .int n => some (.string (toString n.toInt))
    | .float x => some (.string (floatText x))
    | _ => none
  coerceLiteral
    | .string s => some (.string s)
    | _ => none

/-- The type `Boolean`: truth values; numbers and texts are accepted by whether they count as true.
-/
def boolean : ScalarType where
  name := "Boolean"
  description := some "The `Boolean` scalar type represents `true` or `false`."
  coerce
    | .boolean b => some (.boolean b)
    | .int n => some (.boolean (Value.int n).isTruthy)
    | .float x => some (.boolean (Value.float x).isTruthy)
    | .string s => some (.boolean (Value.string s).isTruthy)
    | _ => none
  coerceLiteral
    | .boolean b => some (.boolean b)
    | _ => none

/-- The type `ID`: identifiers, which are texts; numbers are accepted as text. -/
def id : ScalarType where
  name := "ID"
  description := some
    "The `ID` scalar type represents a unique identifier, serialized as a string."
  coerce
    | .string s => some (.string s)
    | .int n => some (.string (toString n.toInt))
    | .float x => some (.string (floatText x))
    | _ => none
  coerceLiteral
    | .string s => some (.string s)
    | .int text => some (.string text)
    | _ => none

/-- The built-in scalar types, in the order in which a schema lists them. -/
def builtIn : List ScalarType :=
  [int, float, string, boolean, id]

/-! ## 3. Literals by themselves -/

mutual

/-- The value that a literal suggests without a type: an integer that fits 64 bits stays one, an
enum value is its name, and what cannot be told (a variable) is null. -/
def untyped : Literal → Value
  | .null | .variable _ => .null
  | .boolean b => .boolean b
  | .int text =>
    match int64? text with
    | some n => .int n
    | none => .float ((Binary64.read? text.toList).getD Binary64.notANumber)
  | .float text => .float ((Binary64.read? text.toList).getD Binary64.notANumber)
  | .string s => .string s
  | .enum name => .string name
  | .list items => .list (untypedItems items)
  | .object fields => .map (Entries.ofList (untypedFields fields))

/-- The values that the items of a list suggest. -/
def untypedItems : List Literal → List Value
  | [] => []
  | item :: rest => untyped item :: untypedItems rest

/-- The values that the fields of an object suggest. -/
def untypedFields : List (Name × Literal) → List (String × Value)
  | [] => []
  | (key, value) :: rest => (key, untyped value) :: untypedFields rest

end

end GraphQL.Scalar
