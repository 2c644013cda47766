import GraphQL.Schema.Definition

/-!
# `GraphQL/Schema.lean` — schemas

A schema is a table of types, a table of directives and the root types of its operations. From these
follow which object types an abstract type stands for (`possibleTypes`) and which types can be
reached from the roots (`reachable`); the latter are found once, when the schema is made, and kept
with it.

Reachability is a walk in depth. The walk carries what it has found, and a name that it has found it
does not enter again; so along any one path each step finds a new type, and as many nested steps as
there are types are enough.
-/

set_option autoImplicit false

namespace GraphQL

/-! ## 1. Possible types -/

/-- The entries that one type makes in the list of object types that an abstract type stands for: an
object type its name once for every time it names the interface, a union type its members. -/
def TypeDefinition.possibleIn (abstractType : Name) : TypeDefinition → List Name
  | .object type => (type.interfaces.filter (· = abstractType)).map fun _ => type.name
  | .union type => if type.name = abstractType then type.members else []
  | _ => []

/-- The names of the object types that an abstract type stands for. -/
def Table.possibleTypes (types : Table TypeDefinition) (abstractType : Name) : List Name :=
  types.entries.flatMap (TypeDefinition.possibleIn abstractType)

/-- An abstract type stands for the object types that implement it, if it is an interface, and for
its members, if it is a union. -/
theorem Table.mem_possibleTypes {types : Table TypeDefinition} {abstractType name : Name} :
    name ∈ types.possibleTypes abstractType ↔
      (∃ type, .object type ∈ types.entries ∧ abstractType ∈ type.interfaces ∧ type.name = name) ∨
      (∃ type, .union type ∈ types.entries ∧ type.name = abstractType ∧ name ∈ type.members) := by
  rw [possibleTypes, List.mem_flatMap]
  constructor
  · rintro ⟨type, registered, h⟩
    cases type with
    | object type =>
      simp only [TypeDefinition.possibleIn, List.mem_map, List.mem_filter, decide_eq_true_eq] at h
      obtain ⟨_, ⟨implemented, rfl⟩, rfl⟩ := h
      exact Or.inl ⟨type, registered, implemented, rfl⟩
    | union type =>
      simp only [TypeDefinition.possibleIn] at h
      split at h
      · next named => exact Or.inr ⟨type, registered, named, h⟩
      · cases h
    | scalar type => cases h
    | interface type => cases h
    | enum type => cases h
    | input type => cases h
  · rintro (⟨type, registered, implemented, rfl⟩ | ⟨type, registered, rfl, h⟩)
    · refine ⟨.object type, registered, ?_⟩
      rw [TypeDefinition.possibleIn, List.mem_map]
      exact ⟨abstractType, List.mem_filter.mpr ⟨implemented, decide_eq_true rfl⟩, rfl⟩
    · refine ⟨.union type, registered, ?_⟩
      simp only [TypeDefinition.possibleIn, if_true]
      exact h

/-! ## 2. Reachable types -/

/-- The names that the fields of a type lead to: for each field first its arguments, then its type.
-/
def Table.fieldEdges (fields : Table FieldDefinition) : List Name :=
  fields.entries.flatMap fun field =>
    field.arguments.map (·.type.innermost) ++ [field.type.innermost]

/-- The names that a type leads to, in the order in which a walk follows them. -/
def TypeDefinition.edges (types : Table TypeDefinition) : TypeDefinition → List Name
  | .object type => type.interfaces ++ type.fields.fieldEdges
  | .interface type => types.possibleTypes type.name ++ type.fields.fieldEdges
  | .union type => types.possibleTypes type.name
  | .input type => type.fields.entries.map (·.type.innermost)
  | .scalar _ | .enum _ => []

/-- Adds the type of a name, if it is registered and not found yet, and then all it leads to, at
most `depth` steps inside each other. -/
def Table.visit (types : Table TypeDefinition) :
    Nat → List TypeDefinition → Name → List TypeDefinition
  | 0, found, _ => found
  | depth + 1, found, name =>
    match types.get? name with
    | none => found
    | some type =>
      if found.any (fun other => other.name = name) then found
      else (type.edges types).foldl (types.visit depth) (found ++ [type])

/-- Adds the type of a name alone, if it is registered and not found yet. -/
def Table.include (types : Table TypeDefinition) (found : List TypeDefinition) (name : Name) :
    List TypeDefinition :=
  match types.get? name with
  | none => found
  | some type => if found.any (fun other => other.name = name) then found else found ++ [type]

/-- The names of the built-in scalar types. -/
def builtInScalarNames : List Name :=
  ["Int", "Float", "String", "Boolean", "ID"]

/-- The types that can be reached from the roots and from the type of `__schema`, in the order of a
walk in depth, and after them the built-in scalar types that it did not come to. -/
def Table.reachable (types : Table TypeDefinition) (roots : List Name) : List TypeDefinition :=
  let walked := (roots ++ ["__Schema"]).foldl (types.visit types.entries.length) []
  builtInScalarNames.foldl types.include walked

/-! ## 3. Schemas -/

/-- The names of the root types. -/
def rootNames (query : ObjectType) (mutation : Option ObjectType) : List Name :=
  query.name :: (mutation.map (·.name)).toList

/-- A schema. `SchemaDescription.build` makes one whose references are all in order. -/
structure Schema where
  types : Table TypeDefinition
  directives : Table DirectiveDefinition
  /-- The type at the root of queries. -/
  query : ObjectType
  /-- The type at the root of mutations, if there are mutations. -/
  mutation : Option ObjectType
  /-- The types that can be reached from the roots. -/
  reachable : List TypeDefinition := types.reachable (rootNames query mutation)
  reachable_eq : reachable = types.reachable (rootNames query mutation) := by rfl

namespace Schema

/-- The type of a name, if it can be reached from the roots. -/
def get? (schema : Schema) (name : Name) : Option TypeDefinition :=
  schema.reachable.find? fun type => type.name = name

/-- The object type of a name, whether or not it can be reached. -/
def object? (schema : Schema) (name : Name) : Option ObjectType :=
  match schema.types.get? name with
  | some (.object type) => some type
  | _ => none

/-- The names of the object types that an abstract type stands for. -/
def possibleTypes (schema : Schema) (abstractType : Name) : List Name :=
  schema.types.possibleTypes abstractType

/-- Whether an abstract type stands for an object type, among others. -/
def isPossibleType (schema : Schema) (abstractType objectType : Name) : Bool :=
  (schema.possibleTypes abstractType).contains objectType

end Schema

end GraphQL
