import GraphQL.Execution.Fields
import GraphQL.Proofs.Execution.Trace

/-!
# `GraphQL/Proofs/Execution/Tracing.lean` — executing, and keeping a trace of it

Tracing resolves, completes and collects as execution does, and puts down what it finds at each
position instead of combining it at once. It comes in two extents. Up to the first failure that is
passed on, it does exactly the work that execution does, and
`Environment.executeSelections_eq_toRun` says so: the outcome of an execution is the outcome of its
trace, with the same state of the application after it. In the whole extent it leaves out nothing:
every field of every object and every item of every list is traced, whatever has failed before it.
That is the plain meaning of null propagation, against which the early end can be measured.

Both extents share all of their text but the one test in `traceParts`. What holds of them for the
same reason is proved once, as a simulation between two ways of tracing (`Cut`); that more depth
changes no finished trace is its first use.
-/

set_option autoImplicit false

namespace GraphQL

/-! ## 1. Tracing -/

/-- A part of a tracing over a state of type `σ`. It may come to nothing, where selection sets
stand inside each other deeper than was provided for. -/
abbrev Traced (σ α : Type) : Type :=
  StateT σ Option α

/-- How much of a list or an object is traced. -/
inductive Extent where
  /-- All of it. -/
  | whole
  /-- Its parts up to the first that passes a failure on. -/
  | untilFailure
  deriving DecidableEq, Repr

/-- Behaviour of the application. -/
def Traced.ofState {σ α : Type} (action : StateM σ α) : Traced σ α := fun s =>
  some (action s)

/-- Traces parts, one after the other. -/
def traceParts {σ α : Type} (extent : Extent) (position : α → Position)
    (trace : α → Traced σ Trace) : List α → Traced σ (List (Position × Trace))
  | [] => pure []
  | part :: rest => do
    let first ← trace part
    if extent = .untilFailure ∧ (position part).passesOn first = true then
      return [(position part, first)]
    let others ← traceParts extent position trace rest
    return (position part, first) :: others

/-- The trace of a value that does not complete. -/
def FieldGroup.fault (group : FieldGroup) (fault : CompletionFault) : Trace :=
  .fault (group.report fault.message)

/-- Makes a null at a type that excludes it a failure. -/
def Trace.excludeNull (group : FieldGroup) (type : TypeRef) : Trace → Trace
  | .data json => if json.isNull && type.required then group.fault .nullAtNonNull else .data json
  | trace => trace

/-- The position of an item in a list. -/
def itemPosition (item : TypeRef) (group : FieldGroup) (index : Nat) : Position where
  step := .index index
  type := item
  group := group

section Values

variable {σ : Type} (extent : Extent) (schema : Schema) (application : Application σ)
variable (execute : ObjectType → Value → List Selection → Traced σ Trace) (group : FieldGroup)

/-- Traces a value of an abstract type, once it is known whether it has an object type. -/
def traceRuntime (value : Value) : Except CompletionFault (Option ObjectType) → Traced σ Trace
  | .ok (some type) => execute type value group.selections
  | .ok none => pure (.data .null)
  | .error fault => pure (group.fault fault)

/-- Traces a value that is not null at a named type. -/
def traceNamed (name : Name) (value : Value) : Traced σ Trace :=
  match schema.types.get? name with
  | none => pure (group.fault (.undefinedType name))
  | some (.input _) => pure (group.fault (.inputObjectType name))
  | some (.scalar type) => pure (.data (leafData (type.coerce value)))
  | some (.enum type) => pure (.data (leafData (type.coerce value)))
  | some (.object type) => execute type value group.selections
  | some (.interface _) | some (.union _) =>
    Traced.ofState (objectTypeOf schema application name value) >>=
      traceRuntime execute group value

/-- Traces a value at a type. -/
def traceValue : TypeRef → Value → Traced σ Trace
  | .named name required, value =>
    Trace.excludeNull group (.named name required) <$>
      if value.isNull then pure (.data .null)
      else traceNamed schema application execute group name value
  | .list item required, value =>
    Trace.excludeNull group (.list item required) <$>
      match value with
      | .null => pure (.data .null)
      | .list items =>
        Trace.parts .list <$> traceParts extent (fun entry => itemPosition item group entry.2)
          (fun entry => traceValue item entry.1) items.zipIdx
      | _ => pure (group.fault .notAList)

end Values

/-- A group of field nodes that names a field of the object type it is selected on. -/
structure SelectedField where
  group : FieldGroup
  found : FoundField

/-- The position of a field in an object. -/
def SelectedField.position (field : SelectedField) : Position where
  step := .field field.group.key
  type := field.found.definition.type
  group := field.group

/-- The fields that selections select on an object type, in the order in which their response keys
first occur. A group whose first node names no field of the type is left out. -/
def Scope.selectedFields (scope : Scope) (type : ObjectType) (selections : List Selection) :
    List SelectedField :=
  (scope.collectGroups type.name selections).filterMap fun group =>
    (scope.schema.field? type group.first.name).map fun found => { group, found }

theorem Scope.mem_selectedFields {scope : Scope} {type : ObjectType} {selections : List Selection}
    {field : SelectedField} :
    field ∈ scope.selectedFields type selections ↔
      field.group ∈ scope.collectGroups type.name selections ∧
        scope.schema.field? type field.group.first.name = some field.found := by
  rw [selectedFields, List.mem_filterMap]
  constructor
  · rintro ⟨group, hg, h⟩
    obtain ⟨found, hf, rfl⟩ := Option.map_eq_some_iff.mp h
    exact ⟨hg, hf⟩
  · rintro ⟨hg, hf⟩
    exact ⟨field.group, hg, by rw [hf, Option.map_some]⟩

namespace Environment

variable {σ : Type} (env : Environment σ) (extent : Extent)

/-- Traces a field of an object: resolves it and traces its value. -/
def traceField (execute : ObjectType → Value → List Selection → Traced σ Trace)
    (type : ObjectType) (source : Value) (field : SelectedField) : Traced σ Trace := do
  let definition := field.found.definition
  let info := env.resolveInfo type source field.group definition
  match ← Traced.ofState (env.resolve field.found info) with
  | .ok value =>
    traceValue extent env.schema env.application execute field.group definition.type value
  | .error error => return .fault (field.group.report error.message error.extensions)

/-- Traces a selection set on an object, with at most `depth` selection sets inside each other. -/
def traceSelections : Nat → ObjectType → Value → List Selection → Traced σ Trace
  | 0, _, _, _ => failure
  | depth + 1, type, source, selections =>
    Trace.parts (.object type selections) <$>
      traceParts extent SelectedField.position
        (env.traceField extent (traceSelections depth) type source)
        (env.selectedFields type selections)

/-- Tracing a selection set on an object comes to a trace and to a state after it, if enough depth
is provided. -/
def Traces (type : ObjectType) (source : Value) (selections : List Selection) (s : σ)
    (trace : Trace) (s' : σ) : Prop :=
  ∃ depth, env.traceSelections extent depth type source selections s = some (trace, s')

end Environment

/-! ## 2. The outcome of a tracing -/

/-- The same outcome, with its result changed by a function. -/
def Outcome.map {α β : Type} (f : α → β) (outcome : Outcome α) : Outcome β :=
  { result := outcome.result.map f, errors := outcome.errors }

theorem Run.map_apply {σ α β : Type} (f : α → β) (run : Run σ α) (s : σ) :
    (f <$> run) s = (run s).map fun (outcome, s) => (outcome.map f, s) := by
  rw [map_eq_pure_bind, bind_apply]
  unfold Run.bind
  cases run s with
  | none => rfl
  | some first =>
    obtain ⟨⟨result, errors⟩, s₁⟩ := first
    cases result with
    | none => rfl
    | some a => simp [pure_apply, Outcome.map]

theorem Trace.outcome_parts (shape : Shape) (children : List (Position × Trace)) :
    (Trace.parts shape children).outcome = (partOutcome children).map shape.assemble := by
  simp only [outcome, Outcome.map, partOutcome, result, errors]

namespace Traced

variable {σ α β γ : Type}

theorem pure_apply (a : α) (s : σ) : (pure a : Traced σ α) s = some (a, s) := rfl

theorem bind_apply (traced : Traced σ α) (next : α → Traced σ β) (s : σ) :
    (traced >>= next) s = (traced s).bind fun (a, s) => next a s := rfl

theorem map_apply (f : α → β) (traced : Traced σ α) (s : σ) :
    (f <$> traced) s = (traced s).map fun (a, s) => (f a, s) := by
  show (traced s).bind _ = _
  cases traced s <;> rfl

/-- A tracing as a run, given how an outcome is read off what is traced. -/
def run (read : α → Outcome β) (traced : Traced σ α) : Run σ β := fun s =>
  (traced s).map fun (a, s) => (read a, s)

theorem run_map (read : β → Outcome γ) (f : α → β) (traced : Traced σ α) :
    run read (f <$> traced) = run (fun a => read (f a)) traced := by
  funext s
  rw [run, run, map_apply, Option.map_map]
  rfl

theorem map_run (f : β → γ) (read : α → Outcome β) (traced : Traced σ α) :
    f <$> run read traced = run (fun a => (read a).map f) traced := by
  funext s
  rw [Run.map_apply, run, run, Option.map_map]
  rfl

theorem run_ofState_bind (read : β → Outcome γ) (action : StateM σ α) (next : α → Traced σ β) :
    run read (ofState action >>= next) = Run.ofState action >>= fun a => run read (next a) := by
  funext s
  rw [Run.bind_apply, run, bind_apply]
  simp only [Run.bind, Run.ofState, ofState, run, Option.bind_some]
  generalize action s = acted
  obtain ⟨a, s₁⟩ := acted
  dsimp only
  cases next a s₁ with
  | none => rfl
  | some second => rfl

end Traced

/-- The run of a tracing of one value. -/
abbrev Traced.toRun {σ : Type} (traced : Traced σ Trace) : Run σ Json :=
  traced.run Trace.outcome

/-- The run of a tracing of several parts. -/
abbrev Traced.toRuns {σ : Type} (traced : Traced σ (List (Position × Trace))) :
    Run σ (List (Position × Json)) :=
  traced.run Trace.partOutcome

section Outcome

variable {σ : Type}

theorem toRun_parts (shape : Shape) (traced : Traced σ (List (Position × Trace))) :
    Traced.toRun (Trace.parts shape <$> traced) = shape.assemble <$> traced.toRuns := by
  rw [Traced.toRun, Traced.run_map, Traced.toRuns, Traced.map_run]
  simp only [Trace.outcome_parts]

theorem toRun_excludeNull (group : FieldGroup) (type : TypeRef) (traced : Traced σ Trace) :
    Traced.toRun (Trace.excludeNull group type <$> traced) =
      excludeNull group type traced.toRun := by
  funext s
  rw [excludeNull, Run.bind_apply, Traced.toRun, Traced.run_map]
  simp only [Run.bind, Traced.run]
  cases traced s with
  | none => rfl
  | some first =>
    obtain ⟨trace, s₁⟩ := first
    cases trace with
    | data json =>
      cases hn : json.isNull && type.required with
      | true =>
        simp only [Trace.excludeNull, Trace.outcome, Trace.result, Option.map_some, hn, if_true]
        rfl
      | false =>
        simp only [Trace.excludeNull, Trace.outcome, Trace.result, Option.map_some, hn,
          Bool.false_eq_true, if_false]
        rfl
    | fault report => rfl
    | parts shape children =>
      -- A value with parts is not null, so there is nothing to exclude.
      simp only [Option.map_some, Trace.excludeNull, Trace.outcome_parts, Outcome.map]
      cases (Trace.partOutcome children).result with
      | none => rfl
      | some entries => simp [Run.pure_apply]

/-- The outcome of a value at its position, as seen from what encloses it. -/
def Trace.outcomeAt (position : Position) (trace : Trace) : Outcome Json :=
  { result := position.settle trace.result
    errors := trace.errors.map (·.under position.step) }

/-- A value is executed at its position: a step further in, and where null is allowed its failure
goes no further. -/
theorem absorb_under_toRun (position : Position) (traced : Traced σ Trace) :
    (traced.toRun.under position.step).absorb (!position.type.required) .null =
      traced.run (Trace.outcomeAt position) := by
  funext s
  simp only [Run.absorb, Run.under, Traced.run]
  cases traced s with
  | none => rfl
  | some first =>
    obtain ⟨trace, s₁⟩ := first
    simp only [Option.map_some, Trace.outcome, Trace.outcomeAt]
    cases trace.result with
    | some data => rfl
    | none =>
      unfold Position.settle
      cases position.type.required <;> rfl

/-- One step of a loop over parts: the first is executed at its position, and the others follow
unless a failure is passed on from it. -/
theorem toRuns_traceParts_cons {α : Type} (position : α → Position) (trace : α → Traced σ Trace)
    (part : α) (rest : List α) :
    (traceParts .untilFailure position trace (part :: rest)).toRuns =
      (do
        let data ← (trace part).run (Trace.outcomeAt (position part))
        let others ← (traceParts .untilFailure position trace rest).toRuns
        return (position part, data) :: others) := by
  funext s
  rw [Run.bind_apply, traceParts]
  simp only [Traced.toRuns, Traced.run, Traced.bind_apply, Run.bind, true_and]
  cases trace part s with
  | none => rfl
  | some first =>
    obtain ⟨first, s₁⟩ := first
    unfold Position.passesOn
    simp only [Option.bind_some, Option.map_some, Trace.outcomeAt]
    cases hs : (position part).settle first.result with
    | none =>
      -- The failure is passed on, and both sides leave the loop with the errors so far.
      simp [Traced.pure_apply, Trace.partOutcome, Trace.partResults_cons, Trace.partErrors, hs]
    | some data =>
      simp only [Option.isNone_some, Bool.false_eq_true, if_false, Traced.bind_apply,
        Run.bind_apply, Run.bind, Traced.run]
      cases traceParts .untilFailure position trace rest s₁ with
      | none => rfl
      | some others =>
        obtain ⟨others, s₂⟩ := others
        cases hr : Trace.partResults others <;>
          simp [Traced.pure_apply, Run.pure_apply, Trace.partOutcome, Trace.partResults_cons,
            Trace.partErrors, hs, hr]

end Outcome

/-! ## 3. Execution has the outcome of its trace

Each function of completion and execution in turn, as long as the same is true of the selection
sets inside (`executes`); then the depth is taken by induction. -/

section Completion

variable {σ : Type} {schema : Schema} {application : Application σ}
variable {execute : ObjectType → Value → List Selection → Run σ Json.Members}
variable {trace : ObjectType → Value → List Selection → Traced σ Trace}

theorem completeNamed_eq_toRun (executes : ∀ type value selections,
      Json.object <$> execute type value selections = (trace type value selections).toRun)
    (group : FieldGroup) (name : Name) (value : Value) :
    completeNamed schema application execute group name value =
      (traceNamed schema application trace group name value).toRun := by
  have hobject : ∀ type, completeObject execute group type value =
      (trace type value group.selections).toRun := by
    intro type
    rw [completeObject, ← executes, map_eq_pure_bind]
  unfold completeNamed traceNamed
  have habstract : ∀ next : Except CompletionFault (Option ObjectType) → Run σ Json,
      (∀ answer, next answer = (traceRuntime trace group value answer).toRun) →
      (Run.ofState (objectTypeOf schema application name value) >>= next) =
        Traced.toRun (Traced.ofState (objectTypeOf schema application name value) >>=
          traceRuntime trace group value) := by
    intro next hn
    rw [Traced.toRun, Traced.run_ofState_bind]
    exact congrArg (Run.ofState _ >>= ·) (funext hn)
  have hruntime : ∀ answer : Except CompletionFault (Option ObjectType),
      (match answer with
      | .ok (some type) => completeObject execute group type value
      | .ok none => return .null
      | .error fault => Run.failWith group fault : Run σ Json) =
        (traceRuntime trace group value answer).toRun := by
    intro answer
    match answer with
    | .ok (some type) => exact hobject type
    | .ok none => rfl
    | .error fault => rfl
  cases schema.types.get? name with
  | none => rfl
  | some type =>
    cases type with
    | scalar type => rfl
    | enum type => rfl
    | input type => rfl
    | object type => exact hobject type
    | interface type => exact habstract _ hruntime
    | union type => exact habstract _ hruntime

theorem completeItems_eq_toRuns {complete : Value → Run σ Json} {traceItem : Value → Traced σ Trace}
    (completes : ∀ value, complete value = (traceItem value).toRun) (group : FieldGroup)
    (item : TypeRef) (items : List Value) (index : Nat) :
    completeItems complete item index items =
      (fun entries => entries.map (·.2)) <$>
        (traceParts .untilFailure (fun entry => itemPosition item group entry.2)
          (fun entry => traceItem entry.1) (items.zipIdx index)).toRuns := by
  induction items generalizing index with
  | nil => rfl
  | cons value rest ih =>
    rw [List.zipIdx_cons, toRuns_traceParts_cons, completeItems, ih, completes,
      ← absorb_under_toRun]
    simp [itemPosition]

theorem complete_eq_toRun (executes : ∀ type value selections,
      Json.object <$> execute type value selections = (trace type value selections).toRun)
    (group : FieldGroup) (type : TypeRef) (value : Value) :
    complete schema application execute group type value =
      (traceValue .untilFailure schema application trace group type value).toRun := by
  induction type generalizing value with
  | named name required =>
    rw [complete, traceValue, toRun_excludeNull]
    cases hn : value.isNull with
    | true => rfl
    | false =>
      congr 1
      exact completeNamed_eq_toRun executes group name value
  | list item required ih =>
    unfold complete traceValue
    rw [toRun_excludeNull]
    congr 1
    cases value with
    | list items =>
      dsimp only
      rw [completeItems_eq_toRuns ih group item items 0, toRun_parts, ← map_eq_pure_bind,
        Functor.map_map]
      rfl
    | _ => rfl

end Completion

namespace Environment

variable {σ : Type} (env : Environment σ)

theorem executeFound_eq_run {execute : ObjectType → Value → List Selection → Run σ Json.Members}
    {trace : ObjectType → Value → List Selection → Traced σ Trace}
    (executes : ∀ type value selections,
      Json.object <$> execute type value selections = (trace type value selections).toRun)
    (type : ObjectType) (source : Value) (field : SelectedField) :
    env.executeFound execute type source field.group field.found =
      (env.traceField .untilFailure trace type source field).run
        (Trace.outcomeAt field.position) := by
  rw [← absorb_under_toRun, executeFound, traceField, Traced.toRun, Traced.run_ofState_bind]
  refine congrArg (fun run : Run σ Json => (run.under _).absorb _ _) ?_
  refine congrArg (Run.ofState _ >>= ·) ?_
  funext answer
  cases answer with
  | error error => rfl
  | ok value => exact complete_eq_toRun executes field.group _ value

theorem executeGroups_eq_toRuns
    {execute : ObjectType → Value → List Selection → Run σ Json.Members}
    {trace : ObjectType → Value → List Selection → Traced σ Trace}
    (executes : ∀ type value selections,
      Json.object <$> execute type value selections = (trace type value selections).toRun)
    (type : ObjectType) (source : Value) (groups : List FieldGroup) :
    env.executeGroups execute type source groups =
      (fun entries => entries.map fun entry => (entry.1.group.key, entry.2)) <$>
        (traceParts .untilFailure SelectedField.position
          (env.traceField .untilFailure trace type source)
          (groups.filterMap fun group =>
            (env.schema.field? type group.first.name).map fun found =>
              { group, found })).toRuns := by
  induction groups with
  | nil => rfl
  | cons group rest ih =>
    rw [executeGroups, executeGroup, ih, List.filterMap_cons]
    cases env.schema.field? type group.first.name with
    | none =>
      -- A group that names no field of the type leaves nothing behind on either side.
      simp
    | some found =>
      have hf := env.executeFound_eq_run executes type source { group, found }
      simp only [Option.map_some, toRuns_traceParts_cons, ← hf]
      simp [SelectedField.position]

/-- The members that executing a selection set comes to, as one object, and the errors, are those
that its trace tells of. -/
theorem executeSelections_eq_toRun (depth : Nat) (type : ObjectType) (source : Value)
    (selections : List Selection) :
    Json.object <$> env.executeSelections depth type source selections =
      (env.traceSelections .untilFailure depth type source selections).toRun := by
  induction depth generalizing type source selections with
  | zero => rfl
  | succ depth ih =>
    rw [executeSelections, traceSelections, toRun_parts, executeGroups_eq_toRuns env ih,
      Functor.map_map]
    rfl

end Environment

end GraphQL
