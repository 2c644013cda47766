import GraphQL.Json
import GraphQL.Value

/-!
# `GraphQL/Value/Json.lean` — values as JSON and back

Plain data has a JSON form in which nothing moves: lists keep their items, maps their keys in order.
What has no form becomes null where it stands: objects, and floating-point numbers that are not
finite. The other way, an integer of 64 bits with sign stays an integer and any other number becomes
a floating-point number.
-/

set_option autoImplicit false

namespace GraphQL.Value

mutual

/-- The JSON form of a value. -/
def toJson : Value → Json
  | .null => .null
  | .boolean b => .boolean b
  | .int n => .ofInt n.toInt
  | .float x => .ofFloat x
  | .string s => .string s
  | .list items => .array (itemsToJson items)
  | .map entries => .object (entriesToJson entries)
  | .object _ => .null

/-- The JSON forms of the items of a list. -/
def itemsToJson : List Value → List Json
  | [] => []
  | item :: rest => toJson item :: itemsToJson rest

/-- The JSON forms of the entries of a map. -/
def entriesToJson : List (String × Value) → List (String × Json)
  | [] => []
  | (key, value) :: rest => (key, toJson value) :: entriesToJson rest

end

/-- The value of a JSON number. -/
def ofNumber : Json.Number → Value
  | .integer n =>
    match int64? n with
    | some n => .int n
    | none => .float (Binary64.ofInt n)
  | .float x => .float x.val

mutual

/-- The value of a JSON form. -/
def ofJson : Json → Value
  | .null => .null
  | .boolean b => .boolean b
  | .number n => ofNumber n
  | .string s => .string s
  | .array items => .list (itemsOfJson items)
  | .object members => .map (entriesOfJson members)

/-- The values of the items of an array. -/
def itemsOfJson : List Json → List Value
  | [] => []
  | item :: rest => ofJson item :: itemsOfJson rest

/-- The values of the members of an object. -/
def entriesOfJson : List (String × Json) → List (String × Value)
  | [] => []
  | (key, value) :: rest => (key, ofJson value) :: entriesOfJson rest

end

theorem itemsToJson_eq_map (items : List Value) : itemsToJson items = items.map toJson := by
  induction items with
  | nil => rfl
  | cons item rest ih => exact congrArg (item.toJson :: ·) ih

theorem entriesToJson_eq_map (entries : List (String × Value)) :
    entriesToJson entries = entries.map fun e => (e.1, toJson e.2) := by
  induction entries with
  | nil => rfl
  | cons entry rest ih => exact congrArg ((entry.1, entry.2.toJson) :: ·) ih

theorem itemsOfJson_eq_map (items : List Json) : itemsOfJson items = items.map ofJson := by
  induction items with
  | nil => rfl
  | cons item rest ih => exact congrArg (ofJson item :: ·) ih

theorem entriesOfJson_eq_map (members : List (String × Json)) :
    entriesOfJson members = members.map fun m => (m.1, ofJson m.2) := by
  induction members with
  | nil => rfl
  | cons member rest ih => exact congrArg ((member.1, ofJson member.2) :: ·) ih

theorem ofJson_ofFloat {x : Float} (hx : Binary64.isFinite x = true) :
    ofJson (.ofFloat x) = .float x := by
  rw [Json.ofFloat, FiniteFloat.of?, dif_pos hx, ofJson, ofNumber]

end GraphQL.Value
