import GraphQL.Schema.Build

/-!
# `GraphQL/Proofs/Schema/Built.lean` — what a built schema has gone through

`SchemaDescription.build` is a chain of checks, and a schema that comes out of it has passed all of
them. `Builds` says so once, check by check, about the finished schema; nothing that is proved of
built schemas looks into `build` again.
-/

set_option autoImplicit false

namespace GraphQL

/-- A schema that is made from a description, with all that has been checked. -/
structure SchemaDescription.Builds (description : SchemaDescription) (schema : Schema) : Prop where
  /-- No name of the author is reserved. -/
  unreserved : ∀ type ∈ description.types, isReserved type.name = false
  types : description.registeredTypes = .ok schema.types
  directives : description.registeredDirectives = .ok schema.directives
  /-- All references of types are in order. -/
  typesChecked : checkAll (checkType schema.types) schema.types.entries = .ok ()
  /-- All references of directives are in order. -/
  directivesChecked :
    checkAll (checkDirective schema.types) schema.directives.entries = .ok ()
  query : ∃ name, description.query = some name ∧ rootType schema.types name = .ok schema.query
  mutation : ∀ type, schema.mutation = some type →
    ∃ name, description.mutation = some name ∧ rootType schema.types name = .ok type
  /-- A name of the root of mutations is not passed over. -/
  mutationNamed : ∀ name, description.mutation = some name →
    ∃ type, schema.mutation = some type ∧ rootType schema.types name = .ok type

theorem Except.bind_eq_ok {ε α β : Type} {first : Except ε α} {next : α → Except ε β} {b : β}
    (h : (first >>= next) = .ok b) : ∃ a, first = .ok a ∧ next a = .ok b := by
  cases first with
  | error e => cases h
  | ok a => exact ⟨a, rfl, h⟩

theorem Except.map_eq_ok {ε α β : Type} {f : α → β} {first : Except ε α} {b : β}
    (h : f <$> first = .ok b) : ∃ a, first = .ok a ∧ f a = b := by
  cases first with
  | error e => cases h
  | ok a => exact ⟨a, rfl, Except.ok.inj h⟩

theorem Except.eq_ok_get {ε α : Type} {result : Except ε α}
    (h : result.toOption.isSome = true) : result = .ok (result.toOption.get h) := by
  cases result with
  | error e => cases h
  | ok a => rfl

theorem SchemaDescription.builds {description : SchemaDescription} {schema : Schema}
    (hb : description.build = .ok schema) : description.Builds schema := by
  unfold build at hb
  cases hu : description.types.find? fun type => isReserved type.name with
  | some found =>
    rw [hu] at hb
    cases hb
  | none =>
    rw [hu] at hb
    obtain ⟨types, ht, hb⟩ := Except.bind_eq_ok hb
    obtain ⟨directives, hd, hb⟩ := Except.bind_eq_ok hb
    obtain ⟨_, htc, hb⟩ := Except.bind_eq_ok hb
    obtain ⟨_, hdc, hb⟩ := Except.bind_eq_ok hb
    cases hq : description.query with
    | none =>
      rw [hq] at hb
      cases hb
    | some name =>
      rw [hq] at hb
      obtain ⟨query, hr, hb⟩ := Except.bind_eq_ok hb
      have hunreserved : ∀ type ∈ description.types, isReserved type.name = false := by
        intro type hm
        exact Bool.eq_false_iff.mpr (List.find?_eq_none.mp hu type hm)
      cases hm : description.mutation with
      | none =>
        rw [hm] at hb
        cases hb
        refine ⟨hunreserved, ht, hd, htc, hdc, ⟨name, hq, hr⟩, ?_, ?_⟩
        · intro _ h
          cases h
        · intro _ h
          rw [hm] at h
          cases h
      | some mutationName =>
        rw [hm] at hb
        obtain ⟨mutation, hs, hb⟩ := Except.bind_eq_ok hb
        obtain ⟨type, hmr, rfl⟩ := Except.map_eq_ok hs
        cases hb
        refine ⟨hunreserved, ht, hd, htc, hdc, ⟨name, hq, hr⟩, ?_, ?_⟩
        · intro _ h
          cases h
          exact ⟨mutationName, hm, hmr⟩
        · intro _ h
          rw [hm] at h
          cases h
          exact ⟨type, rfl, hmr⟩

theorem get?_eq_of_rootType {types : Table TypeDefinition} {name : Name} {type : ObjectType}
    (h : rootType types name = .ok type) : types.get? name = some (.object type) := by
  unfold rootType at h
  split at h
  · next found hf =>
    cases h
    exact hf
  · cases h
  · cases h

/-- The type of a root name is registered under its own name. -/
theorem get?_of_rootType {types : Table TypeDefinition} {name : Name} {type : ObjectType}
    (h : rootType types name = .ok type) : types.get? type.name = some (.object type) := by
  obtain ⟨hm, -⟩ := Table.get?_eq_some_iff.mp (get?_eq_of_rootType h)
  exact Table.get?_eq_some_iff.mpr ⟨hm, rfl⟩

namespace SchemaDescription.Builds

variable {description : SchemaDescription} {schema : Schema}

/-- The root types are registered. -/
theorem get?_query (hb : description.Builds schema) :
    schema.types.get? schema.query.name = some (.object schema.query) := by
  obtain ⟨name, -, hr⟩ := hb.query
  exact get?_of_rootType hr

theorem mutation_eq_none (hb : description.Builds schema) (hm : description.mutation = none) :
    schema.mutation = none := by
  cases h : schema.mutation with
  | none => rfl
  | some type =>
    obtain ⟨name, hn, -⟩ := hb.mutation type h
    cases hm.symm.trans hn

theorem get?_mutation (hb : description.Builds schema) {type : ObjectType}
    (hm : schema.mutation = some type) :
    schema.types.get? type.name = some (.object type) := by
  obtain ⟨name, -, hr⟩ := hb.mutation type hm
  exact get?_of_rootType hr

end SchemaDescription.Builds

end GraphQL
