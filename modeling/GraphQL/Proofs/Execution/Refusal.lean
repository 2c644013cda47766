import GraphQL.Proofs.Execution.Response
import GraphQL.Proofs.Input.Validity

/-!
# `GraphQL/Proofs/Execution/Refusal.lean` — requests that are refused as a whole

A request is refused before anything is asked of the application, or it is executed; there is
nothing in between. `Execution.Refused` says when it is refused, in terms of the request and the
schema alone. That the data of a response is absent then and only then, and what else tells the two
kinds of response apart, is `Execution.refused_iff_absent`.

Whether the application has been asked for anything shows in its state. A refused request leaves
every state of every application as it was, and it gets the same response from all of them.
-/

set_option autoImplicit false

namespace GraphQL

/-! ## 1. Which requests are refused -/

/-- A request selects an operation of a document: the first of a name; the only one, if there is no
name. -/
inductive Document.Selects (document : Document) : Option String → Operation → Prop where
  | named {name : String} {operation : Operation} {before after : List Operation}
    (hd : document.operations = before ++ operation :: after) (hn : operation.name = some name)
    (hb : ∀ other ∈ before, other.name ≠ some name) : Selects document (some name) operation
  | only {operation : Operation} (hd : document.operations = [operation]) :
    Selects document none operation

/-- A request cannot be executed. -/
inductive Execution.Refused (execution : Execution) (schema : Schema) (document : Document) :
    Prop where
  | unknown {name : String} (hn : execution.operationName = some name)
    (hu : ∀ operation ∈ document.operations, operation.name ≠ some name) :
    Refused execution schema document
  | missing (hn : execution.operationName = none) (hd : document.operations = []) :
    Refused execution schema document
  | ambiguous (hn : execution.operationName = none) (hd : 1 < document.operations.length) :
    Refused execution schema document
  | noMutations {operation : Operation}
    (ho : document.Selects execution.operationName operation) (hk : operation.kind = .mutation)
    (hm : schema.mutation = none) : Refused execution schema document
  | subscription {operation : Operation}
    (ho : document.Selects execution.operationName operation)
    (hk : operation.kind = .subscription) : Refused execution schema document
  /-- What is supplied for a variable, or nothing, does not fit its type. -/
  | illTyped {operation : Operation} {definition : VariableDefinition}
    (ho : document.Selects execution.operationName operation)
    (hm : definition ∈ operation.variableDefinitions)
    (hl : (schema.get? definition.type.innermost).isSome = true)
    (hi : schema.IllTyped ((execution.variableValues.get? definition.name).getD .null)
      definition.type) : Refused execution schema document

theorem Document.operation?_eq_ok_iff {document : Document} {name : Option String}
    {operation : Operation} :
    document.operation? name = .ok operation ↔ document.Selects name operation := by
  unfold operation?
  cases name with
  | some name =>
    dsimp only
    constructor
    · intro h
      split at h
      · next found hf =>
        cases h
        obtain ⟨hn, before, after, hd, hb⟩ := List.find?_eq_some_iff_append.mp hf
        exact .named hd (by simpa using hn) (by simpa using hb)
      · cases h
    · intro h
      cases h with
      | named hd hn hb =>
        have hf : document.operations.find? (fun operation => operation.name = some name) =
            some operation :=
          List.find?_eq_some_iff_append.mpr ⟨by simpa using hn, _, _, hd, by simpa using hb⟩
        rw [hf]
  | none =>
    dsimp only
    constructor
    · intro h
      split at h <;> cases h
      next hd => exact .only hd
    · intro h
      cases h with
      | only hd => rw [hd]

/-- An operation is found, or the request is refused for want of one. -/
theorem Execution.selects_or_refused (execution : Execution) (schema : Schema)
    (document : Document) :
    (∃ operation, document.Selects execution.operationName operation) ∨
      execution.Refused schema document := by
  cases hn : execution.operationName with
  | some name =>
    cases hf : document.operations.find? fun operation => operation.name = some name with
    | some operation =>
      refine Or.inl ⟨operation, Document.operation?_eq_ok_iff.mp ?_⟩
      unfold Document.operation?
      dsimp only
      rw [hf]
    | none => exact Or.inr (.unknown hn (by simpa using List.find?_eq_none.mp hf))
  | none =>
    cases hd : document.operations with
    | nil => exact Or.inr (.missing hn hd)
    | cons operation rest =>
      cases rest with
      | nil => exact Or.inl ⟨operation, .only hd⟩
      | cons next others => exact Or.inr (.ambiguous hn (by simp [hd]))

namespace Execution

variable {description : SchemaDescription} {schema : Schema} {execution : Execution}
variable {document : Document}

theorem rootOf_eq_error_iff {operation : Operation} :
    (∃ error, schema.rootOf operation = .error error) ↔
      operation.kind = .mutation ∧ schema.mutation = none ∨ operation.kind = .subscription := by
  unfold Schema.rootOf
  cases operation.kind with
  | query => simp
  | subscription => simp
  | mutation => cases schema.mutation <;> simp

/-- What is prepared is not refused. -/
theorem not_refused_of_prepare (hb : description.Builds schema) {prepared : Prepared}
    (hp : execution.prepare schema document = .ok prepared) :
    ¬ execution.Refused schema document := by
  obtain ⟨ho, hr, hv⟩ := prepare_eq_ok hp
  -- All reasons but the first three are about the operation that is selected.
  have hsame : ∀ operation, document.Selects execution.operationName operation →
      operation = prepared.operation := by
    intro operation hs
    have h := (Document.operation?_eq_ok_iff.mpr hs).symm.trans ho
    exact Except.ok.inj h
  have hroot : ¬ ∃ error, schema.rootOf prepared.operation = .error error := by
    rintro ⟨error, he⟩
    cases hr.symm.trans he
  rw [rootOf_eq_error_iff] at hroot
  have hselects := Document.operation?_eq_ok_iff.mp ho
  intro h
  cases h with
  | unknown hn hu =>
    rw [hn] at hselects
    cases hselects with
    | named hd hname _ => exact hu _ (by simp [hd]) hname
  | missing hn hd =>
    rw [hn] at hselects
    cases hselects with
    | only hd' => cases hd.symm.trans hd'
  | ambiguous hn hd =>
    rw [hn] at hselects
    cases hselects with
    | only hd' => simp [hd'] at hd
  | noMutations hs hk hm =>
    cases hsame _ hs
    exact hroot (Or.inl ⟨hk, hm⟩)
  | subscription hs hk =>
    cases hsame _ hs
    exact hroot (Or.inr hk)
  | illTyped hs hm hl hi =>
    cases hsame _ hs
    obtain ⟨error, he⟩ := Schema.coerceVariables_eq_error_iff.mpr
      ⟨_, hm, (Schema.coerceVariable_eq_error_iff hb).mpr ⟨hl, hi⟩⟩
    cases hv.symm.trans he

/-- What is not prepared is refused. -/
theorem refused_of_prepare (hb : description.Builds schema) {error : RequestError}
    (hp : execution.prepare schema document = .error error) :
    execution.Refused schema document := by
  rcases execution.selects_or_refused schema document with ⟨operation, hs⟩ | h
  · cases hr : schema.rootOf operation with
    | error other =>
      rcases rootOf_eq_error_iff.mp ⟨other, hr⟩ with ⟨hk, hm⟩ | hk
      · exact .noMutations hs hk hm
      · exact .subscription hs hk
    | ok rootType =>
      cases hv : schema.coerceVariables operation.variableDefinitions
          execution.variableValues with
      | ok values =>
        have hok : execution.prepare schema document =
            .ok { operation, rootType, variableValues := values } := by
          unfold prepare
          rw [Document.operation?_eq_ok_iff.mpr hs]
          show (schema.rootOf operation >>= _) = _
          rw [hr]
          show (schema.coerceVariables _ _ >>= _) = _
          rw [hv]
          rfl
        cases hp.symm.trans hok
      | error other =>
        obtain ⟨definition, hm, hd⟩ := Schema.coerceVariables_eq_error_iff.mp ⟨other, hv⟩
        obtain ⟨hl, hi⟩ := (Schema.coerceVariable_eq_error_iff hb).mp hd
        exact .illTyped hs hm hl hi
  · exact h

theorem refused_iff_prepare (hb : description.Builds schema) :
    execution.Refused schema document ↔
      ∃ error, execution.prepare schema document = .error error := by
  constructor
  · intro h
    cases hp : execution.prepare schema document with
    | error error => exact ⟨error, rfl⟩
    | ok prepared => exact absurd h (not_refused_of_prepare hb hp)
  · rintro ⟨error, hp⟩
    exact refused_of_prepare hb hp

/-! ## 2. The two kinds of responses -/

/-- The response to a request error is the same for every application, and leaves it alone. -/
theorem returns_iff_of_prepare_eq_error {error : RequestError}
    (hp : execution.prepare schema document = .error error) {σ : Type}
    {application : Application σ} {s s' : σ} {response : Response} :
    execution.Returns schema application document s response s' ↔
      response = error.response ∧ s' = s := by
  unfold Returns run?
  simp only [hp, Option.some.injEq, Prod.mk.injEq, exists_const, eq_comm]

section Begun

variable {σ : Type} {application : Application σ} {s s' : σ} {response : Response}
variable {prepared : Prepared}

/-- An execution that has begun has an object or null for data. -/
theorem data_of_returns (hp : execution.prepare schema document = .ok prepared)
    (hr : execution.Returns schema application document s response s') :
    response.data = .null ∨ ∃ members, response.data = .object members := by
  obtain ⟨trace, ht, rfl⟩ := (returns_iff_traces hp).mp hr
  obtain ⟨children, rfl⟩ := ht.eq_parts
  cases hpr : Trace.partResults children with
  | none => exact Or.inl (Trace.data_response_of_none hpr)
  | some entries => exact Or.inr ⟨_, Trace.data_response_of_some hpr⟩

/-- The path of an error begins with the response key of a field that is selected at the root. -/
theorem path_of_returns (hb : description.Builds schema)
    (hp : execution.prepare schema document = .ok prepared)
    (hr : execution.Returns schema application document s response s') {report : ErrorReport}
    (he : report ∈ response.errors) :
    ∃ field ∈ (prepared.scope schema document).selectedFields prepared.rootType
        prepared.operation.selections,
      ∃ rest, report.path = .field field.group.key :: rest := by
  obtain ⟨trace, ht, rfl⟩ := (returns_iff_traces hp).mp hr
  have hf := ht.fits (hb.runtimeType_rootOf (prepare_eq_ok hp).2.1)
  rw [toScope_environment] at hf
  obtain ⟨children, rfl⟩ := ht.eq_parts
  obtain ⟨child, hc, inner, -, rfl⟩ := Trace.mem_partErrors.mp he
  cases hf with
  | parts ho ht =>
    cases ho with
    | object =>
      have hm := ht.isPrefix.subset (List.mem_map_of_mem hc)
      obtain ⟨field, hfield, hpos⟩ := List.mem_map.mp hm
      exact ⟨field, hfield, inner.path, by rw [← hpos]; rfl⟩

end Begun

/-- Requests are refused as a whole or not at all. If a request is refused, then there is one error,
its path is empty, and every application in every state responds with that error alone, without
data, and stays in that state. If it is not refused, then whatever it returns has an object or null
for data, and the path of each error begins with a response key that is collected at the root. So
the data of a response is absent exactly for the requests that are refused. -/
theorem refused_iff_absent {description : SchemaDescription} {schema : Schema}
    (hb : description.build = .ok schema) (document : Document) (execution : Execution) :
    (execution.Refused schema document → ∃ report : ErrorReport, report.path = [] ∧
      ∀ (σ : Type) (application : Application σ) (s s' : σ) (response : Response),
        execution.Returns schema application document s response s' ↔
          response = { errors := [report], data := .absent } ∧ s' = s) ∧
    (¬ execution.Refused schema document →
      ∃ prepared, execution.prepare schema document = .ok prepared ∧
        ∀ (σ : Type) (application : Application σ) (s s' : σ) (response : Response),
          execution.Returns schema application document s response s' →
            (response.data = .null ∨ ∃ members, response.data = .object members) ∧
            ∀ report ∈ response.errors,
              ∃ group ∈ (prepared.scope schema document).collectGroups prepared.rootType.name
                  prepared.operation.selections,
                ∃ rest, report.path = .field group.key :: rest) ∧
    ∀ (σ : Type) (application : Application σ) (s s' : σ) (response : Response),
      execution.Returns schema application document s response s' →
        (response.data = .absent ↔ execution.Refused schema document) := by
  have hbuilds := SchemaDescription.builds hb
  cases hp : execution.prepare schema document with
  | error error =>
    have hrefused := (refused_iff_prepare hbuilds).mpr ⟨error, hp⟩
    refine ⟨fun _ => ⟨error.report, rfl, fun σ application s s' response =>
      returns_iff_of_prepare_eq_error hp⟩, fun hn => absurd hrefused hn, ?_⟩
    intro σ application s s' response hr
    obtain ⟨rfl, -⟩ := (returns_iff_of_prepare_eq_error hp).mp hr
    exact iff_of_true rfl hrefused
  | ok prepared =>
    have hn := not_refused_of_prepare hbuilds hp
    refine ⟨fun hrefused => absurd hrefused hn, fun _ => ⟨prepared, rfl, ?_⟩, ?_⟩
    · intro σ application s s' response hr
      refine ⟨data_of_returns hp hr, fun report he => ?_⟩
      obtain ⟨field, hfield, hpath⟩ := path_of_returns hbuilds hp hr he
      exact ⟨field.group, (Scope.mem_selectedFields.mp hfield).1, hpath⟩
    · intro σ application s s' response hr
      refine iff_of_false (fun habsent => ?_) hn
      rcases data_of_returns hp hr with hd | ⟨members, hd⟩ <;> cases hd.symm.trans habsent

/-- No operation of the document has the name `Other`, and without a name its only one is executed.
-/
theorem refused_iff_absent_sample :
    (∃ report : ErrorReport, report.path = [] ∧
      ∀ (σ : Type) (application : Application σ) (s s' : σ) (response : Response),
        Returns { operationName := some "Other" } Sample.schema application Sample.document s
            response s' ↔
          response = { errors := [report], data := .absent } ∧ s' = s) ∧
    (Sample.response.data = .absent ↔ Refused {} Sample.schema Sample.document) ∧
    Sample.response.data ≠ .absent := by
  have hother : Refused { operationName := some "Other" } Sample.schema Sample.document :=
    .unknown rfl (by simp [Sample.document, Sample.operation])
  have hsample : ¬ Refused {} Sample.schema Sample.document :=
    not_refused_of_prepare (SchemaDescription.builds Sample.build_eq_ok) Sample.prepare_eq_ok
  have hiff := (refused_iff_absent Sample.build_eq_ok Sample.document {}).2.2 _ _ _ _ _
    Sample.returns
  exact ⟨(refused_iff_absent Sample.build_eq_ok _ _).1 hother, hiff,
    fun h => hsample (hiff.mp h)⟩

end Execution

end GraphQL
