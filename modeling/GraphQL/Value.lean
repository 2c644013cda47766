import GraphQL.Binary64
import GraphQL.Entries
import GraphQL.Introspection.Subject

/-!
# `GraphQL/Value.lean` — runtime values

What resolvers give and take: plain data, and objects. An object is only a reference. Those of the
application are numbered, and what a number stands for (members, methods) is the application's own
affair; those that introspection hands out are described in full by the reference itself. So values
are first-order data, and two objects are the same exactly when their references are.
-/

set_option autoImplicit false

namespace GraphQL

/-- A reference to an object. -/
inductive ObjectRef where
  /-- An object of the application. -/
  | host (id : Nat)
  /-- A part of the schema. -/
  | subject (subject : Introspection.Subject)
  deriving DecidableEq, Repr, Inhabited

/-- A runtime value. -/
inductive Value where
  | null
  | boolean (b : Bool)
  | int (n : Int64)
  | float (x : Float)
  | string (s : String)
  | list (items : List Value)
  | map (entries : List (String × Value))
  | object (ref : ObjectRef)
  deriving Inhabited

namespace Value

/-! ## 1. Looking into a value -/

/-- Whether a value is null. -/
def isNull : Value → Bool
  | .null => true
  | _ => false

/-- The text that a value is. -/
def string? : Value → Option String
  | .string s => some s
  | _ => none

/-- The truth value that a value is. -/
def boolean? : Value → Option Bool
  | .boolean b => some b
  | _ => none

/-- The integer that a value is. -/
def int? : Value → Option Int64
  | .int n => some n
  | _ => none

/-- The items of the list that a value is. -/
def list? : Value → Option (List Value)
  | .list items => some items
  | _ => none

/-- The entries of the map that a value is. -/
def map? : Value → Option (Entries Value)
  | .map entries => some entries
  | _ => none

/-- The part of the schema that a value refers to. -/
def subject? : Value → Option Introspection.Subject
  | .object (.subject s) => some s
  | _ => none

@[simp] theorem isNull_null : isNull .null = true := rfl

theorem isNull_iff {v : Value} : v.isNull = true ↔ v = .null := by
  cases v <;> simp [isNull]

/-- The 64-bit integer with sign that an integer is, if it is in range. -/
def int64? (n : Int) : Option Int64 :=
  if Int64.minValue.toInt ≤ n ∧ n ≤ Int64.maxValue.toInt then some (Int64.ofInt n) else none

/-- Null, `false`, zero, the empty text, the text `0`, the empty list and the empty map do not count
as true; all else does. -/
def isTruthy : Value → Bool
  | .null => false
  | .boolean b => b
  | .int n => n != 0
  | .float x => !(x == 0.0)
  | .string s => s != "" && s != "0"
  | .list items => !items.isEmpty
  | .map entries => !entries.isEmpty
  | .object _ => true

/-- A value, or null where there is none. -/
def ofOption {α : Type} (wrap : α → Value) : Option α → Value
  | some a => wrap a
  | none => .null

/-- A text, or null where there is none. -/
def ofText? : Option String → Value :=
  ofOption .string

/-! ## 2. Equality

Values of different kinds differ, so the integer `1` is not the floating-point number `1.0`; numbers
are compared as numbers, so "not a number" differs from itself. Lists are equal item by item, maps
when they have the same keys with equal entries in whatever order, objects when they are the same
object. -/

mutual

/-- Whether two values are equal. -/
def equals : Value → Value → Bool
  | .null, .null => true
  | .boolean a, .boolean b => a == b
  | .int a, .int b => a == b
  | .float a, .float b => a == b
  | .string a, .string b => a == b
  | .list a, .list b => equalItems a b
  | .map a, .map b => a.length == b.length && equalEntries a b
  | .object a, .object b => a == b
  | _, _ => false

/-- Whether two lists are equal. -/
def equalItems : List Value → List Value → Bool
  | [], [] => true
  | a :: as, b :: bs => equals a b && equalItems as bs
  | _, _ => false

/-- Whether every entry is equal to the one of the same key in another map. -/
def equalEntries : List (String × Value) → Entries Value → Bool
  | [], _ => true
  | (key, value) :: rest, other =>
    (match other.get? key with
    | some value' => equals value value'
    | none => false) && equalEntries rest other

end

end Value

end GraphQL
