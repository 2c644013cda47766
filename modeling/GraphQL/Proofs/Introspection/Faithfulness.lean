import GraphQL.Proofs.Introspection.Reporting

/-!
# `GraphQL/Proofs/Introspection/Faithfulness.lean` — introspection tells all there is to tell

The answer to the query for everything is the report of the schema, and reading the answer gives the
report back (`Introspection.report_recovered`). Both halves are proved elsewhere: what the query
comes to in `Reporting.lean`, and how answers are read in `Report.lean`.

The query has to ask for references as deep as the deepest one of the schema. Deprecated fields and
enum values are told if `includeDeprecated` comes out true; if it comes out false or null, or is
left out, they are missing from the answer and everything else is the same.
-/

set_option autoImplicit false

namespace GraphQL

namespace Introspection

theorem prepare_reporting {execution : Execution} {schema : Schema}
    {declared : List VariableDefinition} {given : Option Literal} {depth : Nat}
    {prepared : Prepared}
    (hp : execution.prepare schema (reporting declared given depth) = .ok prepared) :
    prepared.operation.selections = [select "__schema" [] (schemaSelections given depth)] ∧
      prepared.rootType = schema.query := by
  obtain ⟨ho, hr, -⟩ := Execution.prepare_eq_ok hp
  have hoperation : prepared.operation =
      { query (select "__schema" [] (schemaSelections given depth)) with
        variableDefinitions := declared } := by
    cases hname : execution.operationName with
    | none =>
      rw [hname] at ho
      exact (Except.ok.inj ho).symm
    | some name =>
      rw [hname] at ho
      cases ho
  rw [hoperation] at hr ⊢
  exact ⟨rfl, (Except.ok.inj hr).symm⟩

/-- Introspection is faithful. The answer to the query for everything, if it asks for references
deep enough, is read back as the report of the schema: in full if deprecated entries are asked for,
and without them if they are not. -/
theorem report_recovered {description : SchemaDescription} {schema : Schema}
    (hb : description.build = .ok schema)
    (hs : schema.types.get? "String" = some (.scalar Scalar.string))
    (hbool : schema.types.get? "Boolean" = some (.scalar Scalar.boolean)) {execution : Execution}
    (hi : execution.introspection = true) {declared : List VariableDefinition}
    {given : Option Literal} {depth : Nat} {prepared : Prepared}
    (hp : execution.prepare schema (reporting declared given depth) = .ok prepared)
    (hd : schema.report.nesting ≤ depth) {σ : Type} (application : Application σ) (s : σ) :
    ∃ members, execution.Returns schema application (reporting declared given depth) s
        { data := .object members } s ∧
      (flag schema prepared.variableValues given = .boolean true →
        readMember "__schema" readSchema (.object members) = some schema.report) ∧
      (flag schema prepared.variableValues given = .null ∨
          flag schema prepared.variableValues given = .boolean false →
        readMember "__schema" readSchema (.object members) = some schema.report.undeprecated) := by
  have hbuilds := SchemaDescription.builds hb
  let deprecated := showsDeprecated schema prepared.variableValues given
  let members : Json.Members :=
    [("__schema", .object ((schema.report.shown deprecated).members schema.kind depth))]
  have hread : readMember "__schema" readSchema (.object members) =
      some (schema.report.shown deprecated) :=
    readSchema_members schema.kind_ne_wrapper ((SchemaReport.nesting_shown ..).trans hd)
  refine ⟨members, ?_, fun hflag => ?_, fun hflag => ?_⟩
  · obtain ⟨hoperation, hroot⟩ := prepare_reporting hp
    let env := execution.environment schema application (reporting declared given depth) prepared
    have hrun : env.executeSelections (depth + 6) prepared.rootType execution.root
        prepared.operation.selections = pure members := by
      rw [hoperation, hroot]
      exact env.executeSelections_reporting hbuilds hs hbool hi given le_rfl _
    exact Execution.returns_of_pure hp hrun s
  · have hdeprecated : deprecated = true := by
      show (flag schema prepared.variableValues given).boolean?.getD false = true
      rw [hflag]
      rfl
    rw [hread, hdeprecated, SchemaReport.shown_true]
  · have hdeprecated : deprecated = false := by
      show (flag schema prepared.variableValues given).boolean?.getD false = false
      rcases hflag with hflag | hflag <;> rw [hflag] <;> rfl
    rw [hread, hdeprecated, SchemaReport.shown_false]

end Introspection

namespace Sample

/-- A catalogue with a field that is deprecated and references that are nested. -/
def catalogue : SchemaDescription where
  query := some "Query"
  types := [
    .object {
      name := "Query"
      fields := .ofList [
        { name := "shelves"
          arguments := [{
            name := "only"
            type := .list (.list (.named "Genre" true) false) true
            default := some (.list [.list [.string "NOVEL"]]) }]
          type := .list (.list (.named "Item" true) true) true },
        { name := "all", type := .named "Media" false, deprecation := some "Too many." }] },
    .interface {
      name := "Item"
      fields := .ofList [{ name := "title", type := .named "String" true }] },
    .object {
      name := "Book"
      interfaces := ["Item"]
      fields := .ofList [{ name := "title", type := .named "String" true }] },
    .union { name := "Media", description := some "What is kept.", members := ["Book"] },
    .enum {
      name := "Genre"
      values := .ofList [
        { name := "NOVEL" },
        { name := "ROMAN", deprecation := some "See NOVEL." }] }]

theorem isSome_build_catalogue : catalogue.build.toOption.isSome = true := by decide

def catalogueSchema : Schema :=
  catalogue.build.toOption.get isSome_build_catalogue

theorem build_catalogue : catalogue.build = .ok catalogueSchema :=
  Except.eq_ok_get isSome_build_catalogue

/-- The query for everything in the catalogue. -/
def reportingPrepared (given : Option Literal) : Prepared where
  operation := Introspection.query <|
    Introspection.select "__schema" [] (Introspection.schemaSelections given 5)
  rootType := catalogueSchema.query
  variableValues := []

end Sample

theorem Introspection.report_recovered_sample :
    Sample.catalogueSchema.report.nesting = 5 ∧
      Sample.catalogueSchema.report.undeprecated ≠ Sample.catalogueSchema.report ∧
      (∃ members, Execution.Returns {} Sample.catalogueSchema Sample.application
          (reporting [] (some (.boolean true)) 5) () { data := .object members } () ∧
        readMember "__schema" readSchema (.object members) = some Sample.catalogueSchema.report) ∧
      ∃ members, Execution.Returns {} Sample.catalogueSchema Sample.application
          (reporting [] none 5) () { data := .object members } () ∧
        readMember "__schema" readSchema (.object members) =
          some Sample.catalogueSchema.report.undeprecated := by
  have hstring : Sample.catalogueSchema.types.get? "String" = some (.scalar Scalar.string) := rfl
  have hbool : Sample.catalogueSchema.types.get? "Boolean" = some (.scalar Scalar.boolean) := rfl
  have hnesting : Sample.catalogueSchema.report.nesting = 5 := by decide +kernel
  refine ⟨hnesting, by decide, ?_, ?_⟩
  · have hp : Execution.prepare {} Sample.catalogueSchema (reporting [] (some (.boolean true)) 5) =
        .ok (Sample.reportingPrepared (some (.boolean true))) := rfl
    obtain ⟨members, hreturns, hread, -⟩ := report_recovered Sample.build_catalogue hstring hbool
      rfl hp hnesting.le Sample.application ()
    exact ⟨members, hreturns, hread (flag_boolean hbool [] true)⟩
  · have hp : Execution.prepare {} Sample.catalogueSchema (reporting [] none 5) =
        .ok (Sample.reportingPrepared none) := rfl
    obtain ⟨members, hreturns, -, hread⟩ := report_recovered Sample.build_catalogue hstring hbool
      rfl hp hnesting.le Sample.application ()
    exact ⟨members, hreturns, hread (Or.inl rfl)⟩

end GraphQL
