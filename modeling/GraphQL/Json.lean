import GraphQL.Binary64
import GraphQL.Entries

/-!
# `GraphQL/Json.lean` — JSON values

The values that requests and responses are made of. An integer is exact; any other number is a
finite binary64 number, and that it is finite is part of its type, so no value stands for a text
that is not JSON. Objects keep the order of their members.
-/

set_option autoImplicit false

namespace GraphQL

/-- A binary64 number that is neither infinite nor "not a number". -/
structure FiniteFloat where
  val : Float
  finite : Binary64.isFinite val = true

/-- The finite number that a floating-point number is, if it is one. -/
def FiniteFloat.of? (x : Float) : Option FiniteFloat :=
  if h : Binary64.isFinite x = true then some ⟨x, h⟩ else none

/-- A number in JSON. -/
inductive Json.Number where
  | integer (n : Int)
  | float (x : FiniteFloat)

/-- Numbers are equal when they are of one kind and equal as numbers; so `0.0` equals `-0.0`, and
`1` differs from `1.0`. -/
def Json.Number.equals : Json.Number → Json.Number → Bool
  | .integer m, .integer n => m == n
  | .float x, .float y => x.val == y.val
  | _, _ => false

/-- A JSON value. -/
inductive Json where
  | null
  | boolean (b : Bool)
  | number (n : Json.Number)
  | string (s : String)
  | array (items : List Json)
  | object (members : List (String × Json))
  deriving Inhabited

namespace Json

/-- The members of an object. -/
abbrev Members := Entries Json

/-- An integer. -/
def ofInt (n : Int) : Json :=
  .number (.integer n)

/-- A natural number. -/
def ofNat (n : Nat) : Json :=
  .number (.integer (Int.ofNat n))

/-- A floating-point number, or null if it is not finite. -/
def ofFloat (x : Float) : Json :=
  match FiniteFloat.of? x with
  | some x => .number (.float x)
  | none => .null

/-- Whether a value is null. -/
def isNull : Json → Bool
  | .null => true
  | _ => false

@[simp] theorem isNull_null : isNull .null = true := rfl

theorem isNull_iff {j : Json} : j.isNull = true ↔ j = .null := by
  cases j <;> simp [isNull]

/-! ## Equality

Arrays are equal item by item; objects are equal when they have the same keys with equal entries, in
whatever order. -/

mutual

/-- Whether two values are equal. -/
def equals : Json → Json → Bool
  | .null, .null => true
  | .boolean a, .boolean b => a == b
  | .number a, .number b => a.equals b
  | .string a, .string b => a == b
  | .array a, .array b => equalItems a b
  | .object a, .object b => a.length == b.length && equalMembers a b
  | _, _ => false

/-- Whether two arrays are equal. -/
def equalItems : List Json → List Json → Bool
  | [], [] => true
  | a :: as, b :: bs => equals a b && equalItems as bs
  | _, _ => false

/-- Whether every member is equal to the one of the same key in another object. -/
def equalMembers : List (String × Json) → Members → Bool
  | [], _ => true
  | (key, value) :: rest, other =>
    (match other.get? key with
    | some value' => equals value value'
    | none => false) && equalMembers rest other

end

/-- Whether two objects have the same keys with equal entries. -/
def Members.equals (a b : Members) : Bool :=
  a.length == b.length && equalMembers a b

end Json

end GraphQL
