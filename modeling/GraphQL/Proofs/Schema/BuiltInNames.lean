import GraphQL.Proofs.Execution.Configuration
import GraphQL.Proofs.Introspection.Listing
import GraphQL.Proofs.Schema.DepthFirst

/-!
# `GraphQL/Proofs/Schema/BuiltInNames.lean` — what stands under the names of the built-in scalar types

Every schema has a type under each of the five names, and lists it. Which type it is is up to the
author: a type of his own under the name takes the place of the built-in one, and building does not
ask whether it is a scalar. So the names stay scalars exactly where the author sees to it, and a name
can be taken by a type of any kind that passes the checks of references.

How much these rule out depends on who refers to a name. `Boolean` is an argument's type in the
built-in directives and a field's in introspection, so it is a leaf in every schema; `String` is the
type of fields only, for the argument of `__type` is checked by nobody; and to the other three
nothing refers.
-/

set_option autoImplicit false

namespace GraphQL

/-- Whether the type is a scalar type. -/
def TypeDefinition.isScalar : TypeDefinition → Bool
  | .scalar _ => true
  | _ => false

/-- Whether the type is a leaf of responses: a scalar or an enum type. -/
def TypeDefinition.isLeaf : TypeDefinition → Bool
  | .scalar _ | .enum _ => true
  | _ => false

/-- Leaf types are the types that both arguments and fields can have. -/
theorem TypeDefinition.isLeaf_iff {type : TypeDefinition} :
    type.isLeaf = true ↔ type.isInput = true ∧ type.isOutput = true := by
  cases type <;> simp [isLeaf, isInput, isOutput]

namespace SchemaDescription.Builds

variable {description : SchemaDescription} {schema : Schema}

/-- What scalar types are, the type under a built-in name is if all that the author has put there
are. -/
theorem builtIn_iff (hb : description.Builds schema) {accepts : TypeDefinition → Bool}
    (ha : ∀ scalar, accepts (.scalar scalar) = true) {name : Name}
    (hn : name ∈ builtInScalarNames) {type : TypeDefinition}
    (ht : schema.types.get? name = some type) :
    accepts type = true ↔
      ∀ declared ∈ description.types, declared.name = name → accepts declared = true := by
  constructor
  · rintro h declared hm rfl
    have hdeclared := hb.get?_registered (List.mem_append_left _ hm)
    rw [Option.some.inj (hdeclared.symm.trans ht)]
    exact h
  · intro h
    obtain ⟨hm, rfl⟩ := hb.get?_eq_some_iff.mp ht
    rcases List.mem_append.mp hm with hm | hm
    · rcases List.mem_append.mp hm with hm | hm
      · exact h type hm rfl
      · have hmeta : ∀ type ∈ Introspection.metaTypes, type.name ∉ builtInScalarNames := by
          decide
        exact absurd hn (hmeta type hm)
    · obtain ⟨scalar, -, rfl⟩ := List.mem_map.mp hm
      exact ha scalar

/-- The name `Boolean` is that of a type that both arguments and fields can have: the argument of a
built-in directive is checked like all others, and so are the fields of `__Field`. -/
theorem leaf_boolean (hb : description.Builds schema) :
    ∃ type, schema.types.get? "Boolean" = some type ∧ type.isLeaf = true := by
  have hdirective : includeDirective ∈ schema.directives.entries := by
    rw [hb.entries_directives]
    exact List.mem_cons_self
  have hinput := checkAll_eq_ok (checkAll_eq_ok hb.directivesChecked _ hdirective) _
    List.mem_cons_self
  obtain ⟨type, ht, hinput⟩ := get?_of_checkReference hinput
  have hfield : ∃ field ∈ Introspection.fieldType.fields.entries,
      field.type.innermost = "Boolean" := by decide
  obtain ⟨field, hm, hn⟩ := hfield
  have hregistered : .object Introspection.fieldType ∈ schema.types.entries := by
    have hmeta : .object Introspection.fieldType ∈ Introspection.metaTypes := by
      simp [Introspection.metaTypes]
    exact (Table.get?_eq_some_iff.mp (hb.get?_metaType hmeta)).1
  obtain ⟨output, ho, houtput⟩ := hb.output_of_declared hregistered hm
  rw [hn] at ho
  obtain rfl := Option.some.inj (ht.symm.trans ho)
  exact ⟨type, ht, TypeDefinition.isLeaf_iff.mpr ⟨hinput, houtput⟩⟩

end SchemaDescription.Builds

open Introspection

/-- Under each of the five names a type is registered and listed, which is a scalar if the author
has put no type of another kind there. `Boolean` is a leaf in any case. The type of `__typename` and
of the argument of `__type` is one that fields can have, and a leaf if the author has put none that
is no leaf there. -/
theorem SchemaDescription.builtIns_stay_iff {description : SchemaDescription} {schema : Schema}
    (hb : description.build = .ok schema) :
    (∀ name ∈ builtInScalarNames, ∃ type,
      schema.types.get? name = some type ∧ schema.get? name = some type ∧
        (type.isScalar = true ↔
          ∀ declared ∈ description.types, declared.name = name → declared.isScalar = true)) ∧
    (∃ type, schema.types.get? "Boolean" = some type ∧ type.isLeaf = true) ∧
    ∀ reference ∈ typenameField.type :: typeField.arguments.map (·.type), ∃ type,
      schema.types.get? reference.innermost = some type ∧ type.isOutput = true ∧
        (type.isLeaf = true ↔ ∀ declared ∈ description.types,
          declared.name = reference.innermost → declared.isLeaf = true) := by
  have hbuilds := builds hb
  refine ⟨fun name hn => ?_, hbuilds.leaf_boolean, fun reference hr => ?_⟩
  · obtain ⟨type, ht⟩ := Table.mem_names_iff.mp (hbuilds.registered_builtIn hn)
    refine ⟨type, ht, ?_, hbuilds.builtIn_iff (fun _ => rfl) hn ht⟩
    rw [Schema.get?_eq_of_lists (hbuilds.lists_builtIn hn), ht]
  · have hinnermost : reference.innermost = "String" := by
      rcases List.mem_cons.mp hr with rfl | hr
      · rfl
      · rw [List.mem_singleton.mp hr]
        rfl
    have hn : "String" ∈ builtInScalarNames := by decide
    rw [hinnermost]
    obtain ⟨type, ht, ho⟩ := hbuilds.output_string
    exact ⟨type, ht, ho, hbuilds.builtIn_iff (fun _ => rfl) hn ht⟩

namespace Sample

/-- A schema whose author has taken two of the names, one of them for a scalar type. -/
def spelledDescription : SchemaDescription where
  query := some "Query"
  types := [
    .object { name := "Query", fields := .ofList [{ name := "id", type := .named "ID" true }] },
    .scalar { Scalar.id with description := some "A key." },
    .object { name := "String" }]

theorem isSome_build_spelled : spelledDescription.build.toOption.isSome = true := by
  decide

def spelled : Schema :=
  spelledDescription.build.toOption.get isSome_build_spelled

theorem build_spelled : spelledDescription.build = .ok spelled :=
  Except.eq_ok_get isSome_build_spelled

end Sample

theorem SchemaDescription.builtIns_stay_iff_sample :
    Sample.spelledDescription.build = .ok Sample.spelled ∧
      (∃ type, Sample.spelled.types.get? "ID" = some type ∧ type.isScalar = true) ∧
      ∃ type, Sample.spelled.types.get? "String" = some type ∧ type.isScalar = false := by
  obtain ⟨hstays, -, -⟩ := builtIns_stay_iff Sample.build_spelled
  refine ⟨Sample.build_spelled, ?_, ?_⟩
  · obtain ⟨type, ht, -, hscalar⟩ := hstays "ID" (by decide)
    exact ⟨type, ht, hscalar.mpr (by decide)⟩
  · obtain ⟨type, ht, -, hscalar⟩ := hstays "String" (by decide)
    refine ⟨type, ht, Bool.eq_false_iff.mpr fun h => ?_⟩
    exact absurd (hscalar.mp h) (by decide)

/-- The type of `__typename` may be an object type, and then `__typename` has no text in it. -/
theorem SchemaDescription.builtIns_not_stay :
    Sample.spelledDescription.build = .ok Sample.spelled ∧
      Sample.spelled.get? typenameField.type.innermost = some (.object { name := "String" }) ∧
      ∀ (application : Application Unit) (root : Value),
        Execution.Returns { root } Sample.spelled application
          { operations := [Introspection.query (select "__typename" [] [])], fragments := [] } ()
          { data := .object [("__typename", .object [])] } () := by
  exact ⟨Sample.build_spelled, rfl, fun application root => ⟨2, rfl⟩⟩

end GraphQL
