import GraphQL.Execution
import GraphQL.Proofs.Execution.Fitting
import GraphQL.Proofs.Execution.Simulation
import GraphQL.Proofs.Schema.Built

/-!
# `GraphQL/Proofs/Execution/Response.lean` — from a trace to the response

An execution that begins is the tracing of one selection set: that of the operation, on the root
value, at the root type. Its response is read off the trace (`Trace.response`), and all that is
proved of responses goes through `Execution.returns_iff_traces`. The root trace is an object trace
that fits (`Environment.Traces.eq_parts`, `Environment.Traces.fits`) because the root types of a
built schema are registered.
-/

set_option autoImplicit false

namespace GraphQL

/-! ## 1. What is settled before execution begins -/

/-- An execution begins only after its operation, its root type and its variables are settled. -/
theorem Execution.prepare_eq_ok {execution : Execution} {schema : Schema} {document : Document}
    {prepared : Prepared} (hp : execution.prepare schema document = .ok prepared) :
    document.operation? execution.operationName = .ok prepared.operation ∧
      schema.rootOf prepared.operation = .ok prepared.rootType ∧
      schema.coerceVariables prepared.operation.variableDefinitions execution.variableValues =
        .ok prepared.variableValues := by
  unfold prepare at hp
  obtain ⟨operation, ho, hp⟩ := Except.bind_eq_ok hp
  obtain ⟨rootType, hr, hp⟩ := Except.bind_eq_ok hp
  obtain ⟨values, hv, hp⟩ := Except.bind_eq_ok hp
  cases hp
  exact ⟨ho, hr, hv⟩

/-- The root type of an operation on a built schema is registered, under its own name. -/
theorem SchemaDescription.Builds.runtimeType_rootOf {description : SchemaDescription}
    {schema : Schema} (hb : description.Builds schema) {operation : Operation} {type : ObjectType}
    (hr : schema.rootOf operation = .ok type) : schema.RuntimeType type.name type := by
  unfold Schema.rootOf at hr
  split at hr
  · cases hr
    exact .itself hb.get?_query
  · split at hr
    · next hm =>
      cases hr
      exact .itself (hb.get?_mutation hm)
    · cases hr
  · cases hr

/-- What the selections of a prepared execution are read by. -/
def Prepared.scope (prepared : Prepared) (schema : Schema) (document : Document) : Scope where
  schema := schema
  fragments := document.fragments
  variableValues := prepared.variableValues

@[simp] theorem Execution.toScope_environment {σ : Type} (execution : Execution) (schema : Schema)
    (application : Application σ) (document : Document) (prepared : Prepared) :
    (execution.environment schema application document prepared).toScope =
      prepared.scope schema document := rfl

/-! ## 2. The response of a trace -/

/-- The members of the data, if it is an object. -/
def ResponseData.members? : ResponseData → Option Json.Members
  | .object members => some members
  | .null => none
  | .absent => none

theorem ResponseData.eq_object_of_members? {data : ResponseData} {members : Json.Members}
    (h : data.members? = some members) : data = .object members := by
  cases data with
  | object members' => exact congrArg _ (Option.some.inj h)
  | null => cases h
  | absent => cases h

/-- The response that the trace of an operation tells of. -/
def Trace.response (trace : Trace) : Response where
  errors := trace.errors
  data := match trace.result with
    | some (.object members) => .object members
    | _ => .null

namespace Execution

variable {σ : Type}

/-- Executing an operation of a document comes to a response and to a state of the application
after it. How deep its selection sets stand inside each other is left open, so this is what a client
sees of an execution that ends. -/
def Returns (execution : Execution) (schema : Schema) (application : Application σ)
    (document : Document) (s : σ) (response : Response) (s' : σ) : Prop :=
  ∃ depth, execution.run? depth schema application document s = some (response, s')

theorem respond_eq_response {outcome : Outcome Json.Members} {trace : Trace}
    (ho : outcome.map .object = trace.outcome) : respond outcome = trace.response := by
  obtain ⟨hr, he⟩ : outcome.result.map Json.object = trace.result ∧ outcome.errors = trace.errors :=
    Outcome.mk.inj ho
  unfold respond Trace.response
  rw [← hr, he]
  cases outcome.result <;> rfl

/-- What has begun executing responds with what its trace tells of. -/
theorem run?_eq_map_trace {execution : Execution} {schema : Schema} {document : Document}
    {prepared : Prepared} (hp : execution.prepare schema document = .ok prepared) (depth : Nat)
    (application : Application σ) (s : σ) :
    execution.run? depth schema application document s =
      ((execution.environment schema application document prepared).traceSelections .untilFailure
        depth prepared.rootType execution.root prepared.operation.selections s).map
        fun (trace, s') => (trace.response, s') := by
  have hr := congrFun ((execution.environment schema application document
    prepared).executeSelections_eq_toRun depth prepared.rootType execution.root
    prepared.operation.selections) s
  rw [Run.map_apply, Traced.toRun, Traced.run] at hr
  simp only [run?, hp]
  cases hx : (execution.environment schema application document prepared).executeSelections depth
      prepared.rootType execution.root prepared.operation.selections s with
  | none =>
    rw [hx] at hr
    rw [Option.map_eq_none_iff.mp hr.symm]
    rfl
  | some executed =>
    obtain ⟨outcome, s₁⟩ := executed
    rw [hx, Option.map_some] at hr
    obtain ⟨⟨trace, s₂⟩, ht, ho⟩ := Option.map_eq_some_iff.mp hr.symm
    simp only [Prod.mk.injEq] at ho
    obtain ⟨ho, rfl⟩ := ho
    rw [ht, Option.map_some, Option.map_some, respond_eq_response ho.symm]

theorem returns_iff_traces {execution : Execution} {schema : Schema} {document : Document}
    {prepared : Prepared} (hp : execution.prepare schema document = .ok prepared)
    {application : Application σ} {s s' : σ} {response : Response} :
    execution.Returns schema application document s response s' ↔
      ∃ trace, (execution.environment schema application document prepared).Traces .untilFailure
        prepared.rootType execution.root prepared.operation.selections s trace s' ∧
        trace.response = response := by
  constructor
  · rintro ⟨depth, hr⟩
    rw [run?_eq_map_trace hp, Option.map_eq_some_iff] at hr
    obtain ⟨⟨trace, s₁⟩, ht, h⟩ := hr
    simp only [Prod.mk.injEq] at h
    obtain ⟨h, rfl⟩ := h
    exact ⟨trace, ⟨depth, ht⟩, h⟩
  · rintro ⟨trace, ⟨depth, ht⟩, rfl⟩
    exact ⟨depth, by rw [run?_eq_map_trace hp, ht, Option.map_some]⟩

end Execution

/-- An execution returns one response at most. -/
theorem Execution.Returns.unique {σ : Type} {execution : Execution} {schema : Schema}
    {application : Application σ} {document : Document} {s s₁ s₂ : σ}
    {response₁ response₂ : Response}
    (h₁ : execution.Returns schema application document s response₁ s₁)
    (h₂ : execution.Returns schema application document s response₂ s₂) :
    response₁ = response₂ ∧ s₁ = s₂ := by
  cases hp : execution.prepare schema document with
  | error error =>
    obtain ⟨depth₁, h₁⟩ := h₁
    obtain ⟨depth₂, h₂⟩ := h₂
    simp only [run?, hp] at h₁ h₂
    simpa using h₁.symm.trans h₂
  | ok prepared =>
    obtain ⟨trace₁, ht₁, rfl⟩ := (returns_iff_traces hp).mp h₁
    obtain ⟨trace₂, ht₂, rfl⟩ := (returns_iff_traces hp).mp h₂
    obtain ⟨rfl, rfl⟩ := ht₁.unique ht₂
    exact ⟨rfl, rfl⟩

/-! ## 3. The root of a trace -/

namespace Environment.Traces

variable {σ : Type} {env : Environment σ} {extent : Extent} {type : ObjectType} {source : Value}
variable {selections : List Selection} {s s' : σ} {trace : Trace}

/-- The trace of a selection set on an object has the fields as its parts. -/
theorem eq_parts (ht : env.Traces extent type source selections s trace s') :
    ∃ children, trace = .parts (.object type selections) children := by
  obtain ⟨depth, ht⟩ := ht
  cases depth with
  | zero => cases ht
  | succ depth =>
    rw [traceSelections, Traced.map_apply, Option.map_eq_some_iff] at ht
    obtain ⟨⟨children, s₁⟩, -, h⟩ := ht
    cases h
    exact ⟨children, rfl⟩

theorem fits (ht : env.Traces extent type source selections s trace s') {name : Name}
    (hr : env.schema.RuntimeType name type) :
    trace.Fits env.toScope extent (.named name false) selections := by
  obtain ⟨depth, ht⟩ := ht
  exact env.traceSelections_fits depth hr source selections s trace s' ht

end Environment.Traces

section Root

variable {type : ObjectType} {selections : List Selection} {children : List (Position × Trace)}

theorem Trace.data_response_of_none (h : partResults children = none) :
    (Trace.parts (.object type selections) children).response.data = .null := by
  simp only [response, result, h, Option.map_none]

theorem Trace.data_response_of_some {entries : List (Position × Json)}
    (h : partResults children = some entries) :
    (Trace.parts (.object type selections) children).response.data =
      .object (entries.map fun entry => (entry.1.group.key, entry.2)) := by
  simp only [response, result, h, Option.map_some, Shape.assemble]

end Root

/-! ## 4. An execution to look at

A query type with a field of its own type, a field that fails where null is excluded, and a leaf;
and a query in which two fields fail below one that absorbs the failure, and in which a fragment
spreads itself beside its fields. -/

namespace Sample

def description : SchemaDescription where
  query := some "Query"
  types := [.object
    { name := "Query"
      fields := .ofList
        [{ name := "self", type := .named "Query" false },
          { name := "failing", type := .named "String" true },
          { name := "name", type := .named "String" false }] }]

/-- The field `failing` fails, and the others have a value. -/
def application : Application Unit where
  resolver _ name := some fun _ =>
    if name = "self" then pure (.ok (.map []))
    else if name = "name" then pure (.ok (.string "sample"))
    else pure (.error { message := "failed" })

def field (aliased : Option Name) (name : Name) (selections : List Selection) : Selection :=
  .field { location := .start, aliased, name, arguments := [], directives := [] } selections

def operation : Operation where
  location := .start
  kind := .query
  name := none
  variableDefinitions := []
  directives := []
  selections :=
    [field (some "first") "self" [field none "failing" [], field (some "other") "failing" []],
      field none "name" [], .spread "Loop" []]

def loop : Fragment where
  name := "Loop"
  condition := "Query"
  directives := []
  selections := [field none "name" [], .spread "Loop" []]

def document : Document where
  operations := [operation]
  fragments := [loop]

theorem isSome_build : description.build.toOption.isSome = true := by decide

def schema : Schema :=
  description.build.toOption.get isSome_build

theorem build_eq_ok : description.build = .ok schema := by
  have h : description.build.toOption = some schema := (Option.some_get isSome_build).symm
  cases hb : description.build with
  | error error =>
    rw [hb] at h
    cases h
  | ok built =>
    rw [hb] at h
    cases h
    rfl

def prepared : Prepared where
  operation := operation
  rootType := schema.query
  variableValues := []

theorem prepare_eq_ok : Execution.prepare {} schema document = .ok prepared := rfl

theorem isSome_run? :
    (Execution.run? {} 3 schema application document ()).isSome = true := by decide

def response : Response :=
  ((Execution.run? {} 3 schema application document ()).get isSome_run?).1

theorem returns : Execution.Returns {} schema application document () response () :=
  ⟨3, (Option.some_get isSome_run?).symm⟩

end Sample

end GraphQL
