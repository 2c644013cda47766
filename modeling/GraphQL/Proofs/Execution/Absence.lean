import GraphQL.Proofs.Execution.Rewriting
import GraphQL.Proofs.Input.Absence

/-!
# `GraphQL/Proofs/Execution/Absence.lean` — requests without their nulls

What `GraphQL/Proofs/Input/Absence.lean` says of one reading goes for a request as a whole. Nulls
can be left out of a document and of what is supplied for its variables, as many as one likes and
wherever they are read at a type that the schema declares for them. The request is refused as
before, or every argument has the value that it had, and the response is the same
(`Execution.returns_without_nulls`).

What it is that stands in place of null is the declared default. For variables this is said of
requests that are not refused and of types that are listed: null does not fit a type that excludes
it, default or not, and a variable of an unlisted type is null (`Schema.not_takesDefault_of_null`).
-/

set_option autoImplicit false

namespace GraphQL

/-! ## 1. Directives -/

/-- Of two directives, the second lacks nulls of the first. The arguments of directives other than
`skip` and `include` are not read. -/
structure Schema.DirectiveOmits (schema : Schema) (unset : Name → Prop)
    (directive directive' : DirectiveUse) : Prop where
  name : directive'.name = directive.name
  arguments : directive.name = "skip" ∨ directive.name = "include" →
    ∀ definition, schema.directives.get? directive.name = some definition →
      Relation.ReflTransGen (schema.ArgumentsOmit unset definition.arguments) directive.arguments
        directive'.arguments

/-- Directives that lack nulls come to the same decision. -/
theorem Scope.includes_of_omits {scope : Scope} {unset : Name → Prop}
    (hu : ∀ name, unset name → scope.variableValues.get? name = none)
    {directives directives' : List DirectiveUse}
    (h : List.Forall₂ (scope.schema.DirectiveOmits unset) directives directives') :
    scope.includes directives' = scope.includes directives :=
  includes_of_forall₂ <| h.imp fun _ _ homits => ⟨homits.name, fun hd definition hg =>
    Schema.coerceArguments_of_omits hu (homits.arguments hd definition hg)⟩

/-! ## 2. Documents and requests -/

/-- No variable of a name is declared by the operation that is selected. -/
def Document.Undeclared (document : Document) (operationName : Option String) (name : Name) :
    Prop :=
  ∀ operation, document.Selects operationName operation →
    ∀ definition ∈ operation.variableDefinitions, definition.name ≠ name

namespace Execution

/-- A rewriting leaves nulls out, or writes variables for them that are not declared: in directives,
and in the arguments of the fields that an execution comes to, where they are read at the types that
these fields declare. -/
structure OmitsNulls (execution : Execution) (schema : Schema) {σ : Type}
    (application : Application σ) (document : Document) (rewriting : Rewriting) : Prop where
  directives : ∀ directives directives', rewriting.directives directives directives' →
    List.Forall₂ (schema.DirectiveOmits (document.Undeclared execution.operationName)) directives
      directives'
  arguments : ∀ prepared, execution.prepare schema document = .ok prepared →
    (execution.environment schema application document prepared).AtFields
      (execution.rootVisit prepared) fun found group =>
        ∀ arguments, rewriting.arguments group.first.toFieldHead arguments →
          Relation.ReflTransGen
            (schema.ArgumentsOmit (document.Undeclared execution.operationName)
              found.definition.arguments)
            group.first.arguments arguments

variable {execution : Execution} {schema : Schema} {document document' : Document}
variable {supplied : Json.Members} {rewriting : Rewriting}

/-- What is not declared has no value. -/
theorem get?_of_undeclared {prepared : Prepared}
    (hp : execution.prepare schema document = .ok prepared) {name : Name}
    (hn : document.Undeclared execution.operationName name) :
    prepared.variableValues.get? name = none := by
  obtain ⟨ho, -, hv⟩ := prepare_eq_ok hp
  exact Schema.get?_of_undeclared (hn _ (Document.operation?_eq_ok_iff.mp ho)) hv

theorem OmitsNulls.keeps {σ : Type} {application : Application σ}
    (h : execution.OmitsNulls schema application document rewriting) {prepared : Prepared}
    (hp : execution.prepare schema document = .ok prepared) :
    (execution.environment schema application document prepared).Keeps rewriting
      (execution.rootVisit prepared) where
  directives _ _ hd :=
    Scope.includes_of_omits (fun _ => get?_of_undeclared hp) (h.directives _ _ hd)
  arguments := (h.arguments prepared hp).imp fun _ _ homits arguments ha =>
    Schema.coerceArguments_of_omits (fun _ => get?_of_undeclared hp) (homits arguments ha)

/-- Absent and null are the same input. Let a document be rewritten without some of its nulls, or
with variables in their place that the selected operation does not declare, and let nulls be left
out of what is supplied. Then the request is refused with the same error or not at all; in that case
variables, arguments and conditions have the same values as before, with the declared default
wherever there is null or nothing; and for an application that does not look at the text, execution
comes to the same response and the same state, or does not end, as before. -/
theorem returns_without_nulls {σ : Type} {application : Application σ}
    (hd : rewriting.TurnsDocument schema.DefaultOmits document document')
    (hs : ∀ operation, document.Selects execution.operationName operation →
      Relation.ReflTransGen (schema.SuppliedOmits operation.variableDefinitions)
        execution.variableValues supplied)
    (hr : execution.OmitsNulls schema application document rewriting) :
    (∀ error, { execution with variableValues := supplied }.prepare schema document' =
        .error error ↔ execution.prepare schema document = .error error) ∧
    (∀ prepared, execution.prepare schema document = .ok prepared →
      (∃ operation', { execution with variableValues := supplied }.prepare schema document' =
        .ok { prepared with operation := operation' }) ∧
      (∀ declared given given', Relation.ReflTransGen
          (schema.ArgumentsOmit (document.Undeclared execution.operationName) declared)
          given given' →
        schema.coerceArguments prepared.variableValues declared given' =
          schema.coerceArguments prepared.variableValues declared given) ∧
      (∀ directives directives', List.Forall₂
          (schema.DirectiveOmits (document.Undeclared execution.operationName))
          directives directives' →
        (prepared.scope schema document).includes directives' =
          (prepared.scope schema document).includes directives) ∧
      schema.TakesDefaults (document.Undeclared execution.operationName)
        prepared.variableValues ∧
      ∀ before definition after,
        prepared.operation.variableDefinitions = before ++ definition :: after →
        (∀ other ∈ after, other.name ≠ definition.name) →
        (schema.get? definition.type.innermost).isSome = true →
        (execution.variableValues.get? definition.name).getD .null = .null →
        prepared.variableValues.get? definition.name =
          some (definition.default.elim .null (schema.coerceLiteral [] · definition.type))) ∧
    (application.IgnoresOperation → application.IgnoresNodes → ∀ s response s',
      { execution with variableValues := supplied }.Returns schema application document' s
          response s' ↔
        execution.Returns schema application document s response s') := by
  have hv : ∀ operation operation', document.Selects execution.operationName operation →
      rewriting.TurnsOperation schema.DefaultOmits operation operation' →
      schema.coerceVariables operation'.variableDefinitions supplied =
        schema.coerceVariables operation.variableDefinitions execution.variableValues :=
    fun operation _ ho ht =>
      Schema.coerceVariables_of_omits ht.variableDefinitions (hs operation ho)
  have hprepare := prepare_of_turnsDocument hd hv
  -- What is refused; the variables; arguments; conditions; defaults; and the response.
  refine ⟨fun error => ?_, fun prepared hp => ⟨?_, ?_, ?_, ?_, ?_⟩,
    fun ho hn s response s' => ?_⟩
  · rcases hprepare with ⟨error', hp, hp'⟩ | ⟨prepared, operation', hp, hp'⟩ <;> simp [hp, hp']
  · rcases hprepare with ⟨error', hp', -⟩ | ⟨prepared', operation', hp', hafter⟩
    · cases hp'.symm.trans hp
    · cases hp'.symm.trans hp
      exact ⟨operation', hafter⟩
  · exact fun _ _ _ => Schema.coerceArguments_of_omits fun _ => get?_of_undeclared hp
  · intro directives directives' homits
    exact @Scope.includes_of_omits (prepared.scope schema document) _
      (fun _ => get?_of_undeclared hp) _ _ homits
  · exact Schema.takesDefaults fun _ => get?_of_undeclared hp
  · intro before definition after hdeclared ha hl hg
    have hvalues := (prepare_eq_ok hp).2.2
    rw [hdeclared] at hvalues
    exact Schema.get?_of_absent ha hl hg hvalues
  · have hrun := run?_of_turnsDocument ho hn hd hv fun prepared hp => hr.keeps hp
    exact exists_congr fun depth => by rw [← hrun depth s]

end Execution

/-! ## 3. A request to look at -/

namespace AbsenceSample

open InputSample (schema)

def skip (arguments : List Argument) : DirectiveUse where
  name := "skip"
  arguments := arguments

/-- An operation with a variable for a filter and one for a limit, which searches by a filter that
is written in place. -/
def operation (filter : List (Name × Literal)) (condition : List Argument) : Operation where
  location := .start
  kind := .query
  name := none
  variableDefinitions := [InputSample.variableDefinition, InputSample.limited]
  directives := []
  selections :=
    [.field { location := .start, aliased := none, name := "search"
              arguments := [⟨"filter", .object filter⟩]
              directives := [skip condition] } []]

def nulls : List (Name × Literal) :=
  [("name", .string "outer"), ("limit", .null), ("order", .null)]

def bare : List (Name × Literal) :=
  [("name", .string "outer"), ("order", .variable "undeclared")]

def document : Document where
  operations := [operation nulls [⟨"if", .null⟩]]
  fragments := []

def bareDocument : Document where
  operations := [operation bare []]
  fragments := []

def execution : Execution where
  variableValues :=
    [("filter", .object [("name", .string "outer"), ("limit", .null)]), ("limit", .null)]

def bareValues : Json.Members :=
  [("filter", .object [("name", .string "outer")])]

/-- A search comes to the name in its filter. -/
def application : Application Unit where
  resolver _ _ := some fun info => pure <| .ok <|
    match info.arguments.get? "filter" with
    | some (.map entries) => (Entries.get? entries "name").getD .null
    | _ => .null

def response : Response where
  data := .object [("search", .string "outer")]

theorem returns : execution.Returns schema application document () response () :=
  ⟨1, rfl⟩

/-- The argument and the condition of `document` are rewritten to those of `bareDocument`. -/
def rewriting : Rewriting where
  arguments _ arguments := arguments = [⟨"filter", .object bare⟩]
  directives directives directives' :=
    directives = [skip [⟨"if", .null⟩]] ∧ directives' = [skip []]

def prepared : Prepared where
  operation := operation nulls [⟨"if", .null⟩]
  rootType := schema.query
  variableValues :=
    [("filter", .map [("name", .string "outer"), ("inner", .null), ("order", .null),
        ("limit", .int 10), ("tags", .null)]),
      ("limit", .int 3)]

theorem prepare_eq_ok : execution.prepare schema document = .ok prepared := rfl

def group : FieldGroup where
  key := "search"
  first :=
    { location := .start, aliased := none, name := "search"
      arguments := [⟨"filter", .object nulls⟩], directives := [skip [⟨"if", .null⟩]]
      selections := [] }
  more := []

def searchField : FieldDefinition where
  name := "search"
  type := .named "String" false
  arguments := [{ name := "filter", type := .named "Filter" false }]

theorem collectGroups_eq : (prepared.scope schema document).collectGroups schema.query.name
    prepared.operation.selections = [group] := rfl

theorem field?_eq : schema.field? schema.query "search" = some (.declared searchField) := rfl

theorem undeclared : document.Undeclared none "undeclared" := by
  intro operation hs definition hm
  cases Document.operation?_eq_ok_iff.mpr hs
  simp only [AbsenceSample.operation, List.mem_cons, List.not_mem_nil, or_false] at hm
  rcases hm with rfl | rfl <;> decide

theorem turnsDocument : rewriting.TurnsDocument schema.DefaultOmits document bareDocument where
  operations := by
    have hsame : ∀ declared, List.Forall₂ schema.DefaultOmits declared declared :=
      fun _ => List.forall₂_same.mpr fun definition _ => .refl definition
    exact .cons ⟨rfl, rfl, rfl, hsame _, .field rfl ⟨rfl, rfl⟩ .nil .nil⟩ .nil
  fragments := .nil

/-- First the limit is left out, and then a variable is written for the order. -/
theorem argumentsOmit : Relation.ReflTransGen
    (schema.ArgumentsOmit (document.Undeclared none) searchField.arguments)
    [⟨"filter", .object nulls⟩] [⟨"filter", .object bare⟩] := by
  have hlimit : schema.LiteralOmits (document.Undeclared none)
      (.object ([("name", .string "outer")] ++ ("limit", .null) :: [("order", .null)]))
      (.object ([("name", .string "outer")] ++ [("order", .null)])) (.named "Filter" false) :=
    .field InputSample.get?_filter (by decide)
  have horder : schema.LiteralOmits (document.Undeclared none)
      (.object ([("name", .string "outer")] ++ ("order", .null) :: []))
      (.object ([("name", .string "outer")] ++ ("order", .variable "undeclared") :: []))
      (.named "Filter" false) := by
    have hm : { name := "order", type := .named "Order" false } ∈
        InputSample.filter.fields.entries := .tail _ (.tail _ (.head _))
    exact .inside InputSample.get?_filter hm (.variable undeclared)
  have hinside : ∀ {literal literal' : Literal},
      schema.LiteralOmits (document.Undeclared none) literal literal' (.named "Filter" false) →
      schema.ArgumentsOmit (document.Undeclared none) searchField.arguments
        ([] ++ ⟨"filter", literal⟩ :: []) ([] ++ ⟨"filter", literal'⟩ :: []) :=
    fun h => .inside (List.forall_mem_singleton.mpr fun _ => h)
  exact .tail (.single (hinside hlimit)) (hinside horder)

theorem omitsNulls : execution.OmitsNulls schema application document rewriting where
  directives := by
    rintro _ _ ⟨rfl, rfl⟩
    refine .cons ⟨rfl, fun _ definition _ => .single ?_⟩ .nil
    -- Leaving out an argument that is null does not depend on what the directive declares.
    have h : schema.ArgumentsOmit (document.Undeclared none) definition.arguments
        ([] ++ ⟨"if", .null⟩ :: []) ([] ++ []) := .argument (List.forall_mem_nil _)
    exact h
  arguments := by
    intro prepared hp
    cases prepare_eq_ok.symm.trans hp
    refine Environment.atFields_of_leaves fun group' hg found hf => ?_
    cases List.mem_singleton.mp (collectGroups_eq ▸ hg)
    cases hf.symm.trans field?_eq
    refine ⟨fun arguments ha => ?_, _, InputSample.get?_string, rfl⟩
    cases ha
    exact argumentsOmit

/-- The entry of the limit is left out, and the member of the limit in that of the filter. -/
theorem suppliedOmits (operation : Operation)
    (hs : document.Selects execution.operationName operation) :
    Relation.ReflTransGen (schema.SuppliedOmits operation.variableDefinitions)
      execution.variableValues bareValues := by
  cases Document.operation?_eq_ok_iff.mpr hs
  have hfilter : schema.JsonOmits
      (.object ([("name", .string "outer")] ++ ("limit", .null) :: []))
      (.object ([("name", .string "outer")] ++ [])) (.named "Filter" false) :=
    .member InputSample.get?_filter (by decide)
  have hentry : schema.SuppliedOmits [InputSample.variableDefinition, InputSample.limited]
      ([("filter", .object [("name", .string "outer"), ("limit", .null)])] ++
        ("limit", .null) :: [])
      ([("filter", .object [("name", .string "outer"), ("limit", .null)])] ++ []) :=
    .entry (by decide)
  have hinside : schema.SuppliedOmits [InputSample.variableDefinition, InputSample.limited]
      ([] ++ ("filter", .object [("name", .string "outer"), ("limit", .null)]) :: [])
      ([] ++ ("filter", .object [("name", .string "outer")]) :: []) :=
    .inside (List.forall_mem_cons.mpr
      ⟨fun _ => hfilter, List.forall_mem_singleton.mpr fun hn => absurd hn (by decide)⟩)
  exact .tail (.single hentry) hinside

theorem ignoresOperation : application.IgnoresOperation := by
  rintro _ _ _ h _ _
  cases h
  rfl

theorem ignoresNodes : application.IgnoresNodes := by
  rintro _ _ _ h _ _
  cases h
  rfl

end AbsenceSample

theorem Execution.returns_without_nulls_sample :
    InputSample.description.build = .ok InputSample.schema ∧
    { AbsenceSample.execution with variableValues := AbsenceSample.bareValues }.Returns
      InputSample.schema AbsenceSample.application AbsenceSample.bareDocument ()
      AbsenceSample.response () := by
  obtain ⟨-, -, hreturns⟩ := returns_without_nulls AbsenceSample.turnsDocument
    AbsenceSample.suppliedOmits AbsenceSample.omitsNulls
  exact ⟨InputSample.build_eq_ok,
    (hreturns AbsenceSample.ignoresOperation AbsenceSample.ignoresNodes _ _ _).mpr
      AbsenceSample.returns⟩

end GraphQL
