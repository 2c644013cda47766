import GraphQL.Proofs.Execution.PureRuns
import GraphQL.Proofs.Execution.Response
import GraphQL.Proofs.Schema.Reachability
import GraphQL.Proofs.Schema.Registration

/-!
# `GraphQL/Proofs/Introspection/Listing.lean` — asking a schema for its types

Two queries say which types a schema admits to: one lists their names, and one looks a name up. Both
are executed like any other query, through the fields of the introspection types, and what comes of
them is settled by the schema alone: the names of the reachable types, in order, and the type of the
name if it is one of them (`Execution.returns_listing`, `Execution.returns_lookup`).

Nothing in these executions fails or touches the state of the application, so the proofs are
equations between runs (see `GraphQL/Proofs/Execution/PureRuns.lean`).
-/

set_option autoImplicit false

namespace GraphQL

/-! ## The two queries -/

namespace Introspection

/-- A field without alias and directives. -/
def select (name : Name) (arguments : List Argument) (below : List Selection) : Selection :=
  .field { location := .start, aliased := none, name, arguments, directives := [] } below

/-- A query that selects one field. -/
def query (selection : Selection) : Operation where
  location := .start
  kind := .query
  name := none
  variableDefinitions := []
  directives := []
  selections := [selection]

/-- The query `{ __schema { types { name } } }`. -/
def listing : Document where
  operations := [query (select "__schema" [] [select "types" [] [select "name" [] []]])]
  fragments := []

/-- The query `{ __type(name: …) { name } }`. -/
def lookup (name : Name) : Document where
  operations := [query (select "__type" [{ name := "name", value := .string name }]
    [select "name" [] []])]
  fragments := []

end Introspection

theorem Introspection.resolveType_name {info : ResolveInfo} (hn : info.field.name = "name")
    {type : TypeDefinition} (ht : info.schema.types.get? type.name = some type) :
    resolveType info (.named type.name false) = .string type.name := by
  simp only [resolveType, ht, resolveNamedType, hn]

namespace Environment

open Introspection

variable {σ : Type} {env : Environment σ}

/-- What the fields of the introspection types resolve to is no matter of the application. -/
theorem resolve_introspection {info : ResolveInfo}
    {answer : ResolveInfo → Except FieldError Value}
    (ha : Introspection.resolver? info.parent.name = some answer) (definition : FieldDefinition) :
    env.resolve (.declared definition) info = pure (answer info) := by
  simp only [resolve, Application.resolver?, ha]

theorem executeSelections_name (hs : env.schema.types.get? "String" = some (.scalar Scalar.string))
    {type : TypeDefinition} (ht : env.schema.types.get? type.name = some type) (depth : Nat) :
    env.executeSelections (depth + 1) typeType (typeNamed type.name) [select "name" [] []] =
      pure [("name", .string type.name)] := by
  have hf : env.schema.field? typeType "name" =
      some (.declared (plain "name" (maybe "String"))) := rfl
  apply executeSelections_single rfl hf
  · rw [resolve_introspection rfl]
    exact congrArg (fun value => pure (Except.ok value)) (resolveType_name rfl ht)
  · exact complete_string hs false type.name

/-- The names of all reachable types, asked of introspection. -/
theorem executeSelections_types (hs : env.schema.types.get? "String" = some (.scalar Scalar.string))
    (ht : env.schema.types.get? "__Type" = some (.object typeType)) (depth : Nat) (source : Value) :
    env.executeSelections (depth + 2) schemaType source
        [select "types" [] [select "name" [] []]] =
      pure [("types", .array (env.schema.reachable.map fun type =>
        .object [("name", .string type.name)]))] := by
  have hf : env.schema.field? schemaType "types" = some (.declared (described "types"
      (alwaysList "__Type") "A list of all types supported by this server.")) := rfl
  apply executeSelections_single rfl hf
  · rw [resolve_introspection rfl]
  · show complete _ _ _ _ (.list (.named "__Type" true) true) (.list _) = _
    rw [List.map_map]
    refine complete_items fun type hm => ?_
    apply complete_object ht rfl
    exact executeSelections_name hs (Schema.get?_of_mem_reachable hm) depth

/-- The list of all reachable types, asked of the root. -/
theorem executeSelections_listing
    (hs : env.schema.types.get? "String" = some (.scalar Scalar.string))
    (ht : env.schema.types.get? "__Type" = some (.object typeType))
    (hm : env.schema.types.get? "__Schema" = some (.object schemaType))
    (hi : env.introspection = true) (depth : Nat) (source : Value) :
    env.executeSelections (depth + 3) env.schema.query source
        [select "__schema" [] [select "types" [] [select "name" [] []]]] =
      pure [("__schema", .object [("types", .array (env.schema.reachable.map fun type =>
        .object [("name", .string type.name)]))])] := by
  have hf : env.schema.field? env.schema.query "__schema" = some .schema := by
    simp [Schema.field?]
  apply executeSelections_single rfl hf
  · simp only [resolve, hi, if_true]
    rfl
  · apply complete_object hm rfl
    exact executeSelections_types hs ht depth _

/-- The argument of `__type`, read off the text. -/
theorem argument_lookup (hs : env.schema.types.get? "String" = some (.scalar Scalar.string))
    {type : ObjectType} {source : Value} {group : FieldGroup} {name : Name}
    (hg : group.first.arguments = [{ name := "name", value := .string name }]) :
    (env.resolveInfo type source group typeField).argument "name" = .string name := by
  have hread : env.schema.coerceLeafLiteral (.string name) "String" = .string name := by
    simp only [Schema.coerceLeafLiteral, hs, Scalar.string, Option.getD_some]
  have hliteral : env.schema.coerceLiteral env.variableValues (.string name) (always "String") =
      .string name := by
    simp [Schema.coerceLiteral, always, TypeRef.promote, hread]
  have harguments : env.schema.coerceArguments env.variableValues typeField.arguments
      group.first.arguments = [("name", .string name)] := by
    rw [hg]
    show Entries.ofList [("name", InputValueDefinition.withDefault _ (env.schema.coerceLiteral
      env.variableValues (.string name) (always "String")))] = _
    rw [hliteral]
    rfl
  unfold ResolveInfo.argument resolveInfo
  rw [harguments]
  rfl

theorem resolve_lookup (hs : env.schema.types.get? "String" = some (.scalar Scalar.string))
    (hi : env.introspection = true) {type : ObjectType} {source : Value} {group : FieldGroup}
    {name : Name} (hg : group.first.arguments = [{ name := "name", value := .string name }]) :
    env.resolve .type (env.resolveInfo type source group typeField) =
      pure (.ok (if env.schema.Lists name then typeNamed name else .null)) := by
  have hvalue : resolveTypeField (env.resolveInfo type source group typeField) =
      if env.schema.Lists name then typeNamed name else .null := by
    have hget : (env.resolveInfo type source group typeField).schema.get?
        ((Value.string name).string?.getD "") = env.schema.get? name := rfl
    unfold resolveTypeField
    rw [argument_lookup hs hg]
    dsimp only
    rw [hget]
    by_cases hm : env.schema.Lists name
    · obtain ⟨type, ht, hn⟩ := Schema.get?_eq_some hm
      rw [if_pos hm, ht, ← hn]
    · rw [if_neg hm, Schema.get?_eq_none hm]
  simp only [resolve, hi, if_true, hvalue]

theorem executeSelections_lookup
    (hs : env.schema.types.get? "String" = some (.scalar Scalar.string))
    (ht : env.schema.types.get? "__Type" = some (.object typeType))
    (hi : env.introspection = true) (depth : Nat) (source : Value) (name : Name) :
    env.executeSelections (depth + 2) env.schema.query source
        [select "__type" [{ name := "name", value := .string name }] [select "name" [] []]] =
      pure [("__type", if env.schema.Lists name then
        .object [("name", .string name)] else .null)] := by
  have hf : env.schema.field? env.schema.query "__type" = some .type := by
    simp [Schema.field?]
  apply executeSelections_single rfl hf (resolve_lookup hs hi rfl)
  by_cases hm : env.schema.Lists name
  · obtain ⟨type, hreachable, rfl⟩ := List.mem_map.mp hm
    rw [if_pos hm, if_pos hm]
    apply complete_object ht rfl
    exact executeSelections_name hs (Schema.get?_of_mem_reachable hreachable) depth
  · rw [if_neg hm, if_neg hm]
    exact complete_null rfl

end Environment

namespace Execution

variable {description : SchemaDescription} {schema : Schema} {execution : Execution}

/-- An operation whose selections come to members responds with them. -/
theorem returns_of_pure {σ : Type} {application : Application σ} {document : Document}
    {prepared : Prepared} (hp : execution.prepare schema document = .ok prepared) {depth : Nat}
    {members : Json.Members}
    (h : (execution.environment schema application document prepared).executeSelections depth
      prepared.rootType execution.root prepared.operation.selections = pure members) (s : σ) :
    execution.Returns schema application document s { data := .object members } s := by
  refine ⟨depth, ?_⟩
  rw [run?, hp]
  exact congrArg (Option.map _) (congrFun h s)

/-- A query with one field and no variables begins on the query type. -/
theorem prepare_query (ho : execution.operationName = none) (selection : Selection) :
    execution.prepare schema { operations := [Introspection.query selection], fragments := [] } =
      .ok {
        operation := Introspection.query selection
        rootType := schema.query
        variableValues := [] } := by
  rw [prepare, ho]
  rfl

/-- A query whose selections come to members responds with them. -/
theorem returns_query (ho : execution.operationName = none) {selection : Selection} {σ : Type}
    {application : Application σ} (depth : Nat) {members : Json.Members}
    (h : ∀ env : Environment σ, env.schema = schema → env.introspection = execution.introspection →
      env.executeSelections depth schema.query execution.root [selection] = pure members) (s : σ) :
    execution.Returns schema application
      { operations := [Introspection.query selection], fragments := [] } s
      { data := .object members } s :=
  returns_of_pure (prepare_query ho selection) (h _ rfl rfl) s

/-- The names of the reachable types are what a schema lists. -/
theorem returns_listing (hb : description.Builds schema)
    (hs : schema.types.get? "String" = some (.scalar Scalar.string))
    (ho : execution.operationName = none) (hi : execution.introspection = true) {σ : Type}
    (application : Application σ) (s : σ) :
    execution.Returns schema application Introspection.listing s
      { data := .object [("__schema", .object [("types", .array (schema.reachable.map fun type =>
        .object [("name", .string type.name)]))])] } s := by
  refine returns_query ho 3 (fun env he hintrospection => ?_) s
  subst he
  exact env.executeSelections_listing hs hb.get?_typeType hb.get?_schemaType
    (hintrospection.trans hi) 0 execution.root

/-- A name that is listed is found, and no other name is. -/
theorem returns_lookup (hb : description.Builds schema)
    (hs : schema.types.get? "String" = some (.scalar Scalar.string))
    (ho : execution.operationName = none) (hi : execution.introspection = true) {σ : Type}
    (application : Application σ) (s : σ) (name : Name) :
    execution.Returns schema application (Introspection.lookup name) s
      { data := .object [("__type", if schema.Lists name then
        .object [("name", .string name)] else .null)] } s := by
  refine returns_query ho 2 (fun env he hintrospection => ?_) s
  subst he
  exact env.executeSelections_lookup hs hb.get?_typeType (hintrospection.trans hi) 0
    execution.root name

end Execution

end GraphQL
