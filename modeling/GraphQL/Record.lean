import GraphQL.Application
import GraphQL.Value.Description

/-!
# `GraphQL/Record.lean` — ready-made objects

A record is an object with ordered members, each a property or a method. The records of an
application stand in a list, and the number of one is its place in it. A record can only refer to
those that were there before it, so a description, which goes into the records that a value refers
to, ends after as many steps as there are records.
-/

set_option autoImplicit false

namespace GraphQL

/-- The records of an application, by number. -/
abbrev Records (σ : Type) := Array (Entries (Member σ))

namespace Records

variable {σ : Type} (records : Records σ)

/-- The member of a record. -/
def member (id : Nat) (name : Name) : Option (Member σ) := do
  let members ← records[id]?
  members.get? name

/-- Adds a record; its number comes with it. -/
def add (members : Entries (Member σ)) : Records σ × Nat :=
  (records.push members, records.size)

end Records

/-! ## Descriptions -/

namespace Records

variable {σ : Type} (records : Records σ)

/-- A member as text, given the text of objects. -/
def describeMember (describeObject : ObjectRef → String) : Member σ → String
  | .property value => "Property(" ++ value.describeWith describeObject ++ ")"
  | .method _ => "Method(Method(..))"

/-- An object as text, going into at most `depth` records inside each other. -/
def describeObject : Nat → ObjectRef → String
  | _, .subject _ => "Introspected"
  | 0, .host _ => "Record"
  | depth + 1, .host id =>
    match records[id]? with
    | none => "Record"
    | some members =>
      let texts := members.map fun (name, member) =>
        Text.quoted name ++ ": " ++ describeMember (describeObject depth) member
      "Record \x7b members: " ++ Text.listing "\x7b" texts "\x7d" ++ " \x7d"

/-- A value as text for a reader. -/
def describe (value : Value) : String :=
  value.describeWith (records.describeObject records.size)

end Records

end GraphQL
