import GraphQL.Execution
import GraphQL.Proofs.Execution.PureRuns

/-!
# `GraphQL/Proofs/Execution/Recording.lean` — the calls that an execution makes

What an execution asks of the application shows in the state of the application, if that keeps a
record. Every application can be made to keep one (`Application.recorded`), and it does not get in
the way: an execution with the record comes to what the execution without it comes to
(`Execution.run?_recorded`). So whatever holds of all applications holds of the calls as well.

The proof is about any application that does on a part of its state what another does on its whole
state, and goes through completion and field execution once (`Application.Projects`).
-/

set_option autoImplicit false

namespace GraphQL

/-! ## 1. Calls -/

/-- A call of behaviour of the application. -/
inductive Call where
  /-- Resolves a field, with what the resolver is given. -/
  | resolver (info : ResolveInfo)
  /-- Reads a member of an object. -/
  | member (id : Nat) (name : Name)
  /-- Asks whether a value belongs to an object type. -/
  | isTypeOf (objectType : Name) (value : Value)
  /-- Asks which object type a value of an abstract type belongs to. -/
  | resolveType (abstractType : Name) (value : Value)

/-- The same behaviour, which also puts a call at the end of a record. -/
def Call.record {σ α : Type} (call : Call) (action : StateM σ α) : StateM (σ × List Call) α :=
  fun (s, calls) => ((action s).1, (action s).2, calls ++ [call])

/-- The same application, which also keeps a record of the calls of its behaviour. -/
def Application.recorded {σ : Type} (application : Application σ) :
    Application (σ × List Call) where
  member id name := some <| .method fun object =>
    (Call.member id name).record (application.read object name)
  resolver typeName fieldName := (application.resolver typeName fieldName).map fun resolve info =>
    (Call.resolver info).record (resolve info)
  isTypeOf typeName := (application.isTypeOf typeName).map fun belongs value =>
    (Call.isTypeOf typeName value).record (belongs value)
  resolveType typeName := (application.resolveType typeName).map fun resolve value =>
    (Call.resolveType typeName value).record (resolve value)

/-! ## 2. Runs on a part of the state -/

section Projects

variable {τ σ α β : Type} {part : τ → σ}

/-- Behaviour that does on a part of its state what other behaviour does on its whole state. -/
def ProjectsState (part : τ → σ) (action : StateM τ α) (action' : StateM σ α) : Prop :=
  ∀ t, action' (part t) = ((action t).1, part (action t).2)

/-- The same of runs. -/
def Run.Projects (part : τ → σ) (run : Run τ α) (run' : Run σ α) : Prop :=
  ∀ t, run' (part t) = (run t).map fun (outcome, after) => (outcome, part after)

theorem ProjectsState.pure (a : α) :
    ProjectsState part (Pure.pure a : StateM τ α) (Pure.pure a : StateM σ α) :=
  fun _ => rfl

theorem ProjectsState.bind {action : StateM τ α} {action' : StateM σ α} {next : α → StateM τ β}
    {next' : α → StateM σ β} (h : ProjectsState part action action')
    (hn : ∀ a, ProjectsState part (next a) (next' a)) :
    ProjectsState part (action >>= next) (action' >>= next') := by
  intro t
  show next' (action' (part t)).1 (action' (part t)).2 = _
  rw [h t]
  exact hn _ _

namespace Run.Projects

theorem exhausted : Projects part (exhausted : Run τ α) (exhausted : Run σ α) :=
  fun _ => rfl

theorem pure (a : α) : Projects part (Pure.pure a : Run τ α) (Pure.pure a : Run σ α) :=
  fun _ => rfl

theorem fail (report : ErrorReport) :
    Projects part (fail report : Run τ α) (fail report : Run σ α) :=
  fun _ => rfl

theorem failWith (group : FieldGroup) (fault : CompletionFault) :
    Projects part (failWith group fault : Run τ α) (failWith group fault : Run σ α) :=
  fail _

theorem ofState {action : StateM τ α} {action' : StateM σ α}
    (h : ProjectsState part action action') :
    Projects part (ofState action) (ofState action') := by
  intro t
  simp only [Run.ofState, h t]
  rfl

variable {run : Run τ α} {run' : Run σ α}

theorem bind (h : Projects part run run') {next : α → Run τ β} {next' : α → Run σ β}
    (hn : ∀ a, Projects part (next a) (next' a)) :
    Projects part (run >>= next) (run' >>= next') := by
  intro t
  simp only [bind_apply, Run.bind, h t]
  cases run t with
  | none => rfl
  | some ended =>
    obtain ⟨⟨result, errors⟩, after⟩ := ended
    cases result with
    | none => rfl
    | some a =>
      simp only [Option.map_some, hn a after]
      cases next a after <;> rfl

theorem under (h : Projects part run run') (step : PathElement) :
    Projects part (run.under step) (run'.under step) := by
  intro t
  simp only [Run.under, h t]
  cases run t <;> rfl

theorem absorb (h : Projects part run run') (allowed : Bool) (null : α) :
    Projects part (run.absorb allowed null) (run'.absorb allowed null) := by
  intro t
  simp only [Run.absorb, h t]
  cases run t with
  | none => rfl
  | some ended =>
    obtain ⟨⟨result, errors⟩, after⟩ := ended
    cases result <;> rfl

end Run.Projects

/-! ## 3. Executions on a part of the state -/

/-- An application that does on a part of its state what another does on its whole state. -/
structure Application.Projects (part : τ → σ) (application : Application τ)
    (application' : Application σ) : Prop where
  read : ∀ source name,
    ProjectsState part (application.read source name) (application'.read source name)
  resolver : ∀ typeName fieldName, Option.Rel
    (fun resolve resolve' => ∀ info, ProjectsState part (resolve info) (resolve' info))
    (application.resolver typeName fieldName) (application'.resolver typeName fieldName)
  isTypeOf : ∀ typeName, Option.Rel
    (fun belongs belongs' => ∀ value, ProjectsState part (belongs value) (belongs' value))
    (application.isTypeOf typeName) (application'.isTypeOf typeName)
  resolveType : ∀ typeName, Option.Rel
    (fun resolve resolve' => ∀ value, ProjectsState part (resolve value) (resolve' value))
    (application.resolveType typeName) (application'.resolveType typeName)

namespace Application.Projects

variable {application : Application τ} {application' : Application σ} {schema : Schema}

theorem firstTypeOf (h : application.Projects part application') (abstractType : Name)
    (value : Value) (names : List Name) :
    ProjectsState part (firstTypeOf schema application abstractType value names)
      (firstTypeOf schema application' abstractType value names) := by
  induction names with
  | nil => exact .pure _
  | cons name rest ih =>
    unfold GraphQL.firstTypeOf
    cases schema.object? name with
    | none => exact ih
    | some type =>
      have hbelongs := h.isTypeOf name
      dsimp only
      generalize application.isTypeOf name = belongs at hbelongs ⊢
      generalize application'.isTypeOf name = belongs' at hbelongs ⊢
      cases hbelongs with
      | none => exact .pure _
      | some hb =>
        refine (hb value).bind fun answer => ?_
        cases answer with
        | false => exact ih
        | true => exact .pure _

theorem objectTypeOf (h : application.Projects part application') (abstractType : Name)
    (value : Value) :
    ProjectsState part (objectTypeOf schema application abstractType value)
      (objectTypeOf schema application' abstractType value) := by
  have hresolve := h.resolveType abstractType
  unfold GraphQL.objectTypeOf
  generalize application.resolveType abstractType = resolve at hresolve ⊢
  generalize application'.resolveType abstractType = resolve' at hresolve ⊢
  cases hresolve with
  | none => exact h.firstTypeOf abstractType value _
  | some hr =>
    refine (hr value).bind fun answer => ?_
    cases answer with
    | none => exact .pure _
    | some name =>
      dsimp only
      cases schema.object? name <;> exact .pure _

variable {execute : ObjectType → Value → List Selection → Run τ Json.Members}
variable {execute' : ObjectType → Value → List Selection → Run σ Json.Members}
variable {group : FieldGroup}

theorem completeNamed (h : application.Projects part application')
    (he : ∀ type value selections,
      Run.Projects part (execute type value selections) (execute' type value selections))
    (name : Name) (value : Value) :
    Run.Projects part (completeNamed schema application execute group name value)
      (completeNamed schema application' execute' group name value) := by
  have hobject : ∀ type, Run.Projects part (completeObject execute group type value)
      (completeObject execute' group type value) := by
    intro type
    exact (he type value group.selections).bind fun _ => .pure _
  have habstract : Run.Projects part
      (Run.ofState (GraphQL.objectTypeOf schema application name value) >>=
        completeFound execute group value)
      (Run.ofState (GraphQL.objectTypeOf schema application' name value) >>=
        completeFound execute' group value) := by
    refine (Run.Projects.ofState (h.objectTypeOf name value)).bind fun found => ?_
    cases found with
    | error fault => exact .failWith _ _
    | ok found =>
      cases found with
      | none => exact .pure _
      | some type => exact hobject type
  cases ht : schema.types.get? name with
  | none =>
    simp only [GraphQL.completeNamed, ht]
    exact .failWith _ _
  | some type =>
    cases type with
    | interface type =>
      rw [completeNamed_abstract ht rfl, completeNamed_abstract ht rfl]
      exact habstract
    | union type =>
      rw [completeNamed_abstract ht rfl, completeNamed_abstract ht rfl]
      exact habstract
    | scalar type =>
      simp only [GraphQL.completeNamed, ht]
      exact .pure _
    | enum type =>
      simp only [GraphQL.completeNamed, ht]
      exact .pure _
    | input type =>
      simp only [GraphQL.completeNamed, ht]
      exact .failWith _ _
    | object type =>
      simp only [GraphQL.completeNamed, ht]
      exact hobject type

theorem excludeNull {run : Run τ Json} {run' : Run σ Json} (h : Run.Projects part run run')
    (type : TypeRef) :
    Run.Projects part (excludeNull group type run) (excludeNull group type run') := by
  refine h.bind fun data => ?_
  split
  · exact .failWith _ _
  · exact .pure _

theorem completeItems {run : Value → Run τ Json} {run' : Value → Run σ Json}
    (h : ∀ value, Run.Projects part (run value) (run' value)) (item : TypeRef)
    (items : List Value) (position : Nat) :
    Run.Projects part (completeItems run item position items)
      (completeItems run' item position items) := by
  induction items generalizing position with
  | nil => exact .pure _
  | cons value rest ih =>
    unfold GraphQL.completeItems
    refine (((h value).under _).absorb _ _).bind fun data => ?_
    exact (ih (position + 1)).bind fun others => .pure _

theorem complete (h : application.Projects part application')
    (he : ∀ type value selections,
      Run.Projects part (execute type value selections) (execute' type value selections))
    (type : TypeRef) (value : Value) :
    Run.Projects part (complete schema application execute group type value)
      (complete schema application' execute' group type value) := by
  induction type generalizing value with
  | named name required =>
    unfold GraphQL.complete
    refine excludeNull ?_ _
    split
    · exact .pure _
    · exact h.completeNamed he name value
  | list item required ih =>
    unfold GraphQL.complete
    refine excludeNull ?_ _
    split
    · exact .pure _
    · exact (completeItems ih item _ 0).bind fun _ => .pure _
    · exact .failWith _ _

end Application.Projects

namespace Environment

variable {env : Environment τ} {application' : Application σ}

/-- The same environment with another application. -/
def withApplication (env : Environment τ) (application' : Application σ) : Environment σ where
  toScope := env.toScope
  application := application'
  operation := env.operation
  root := env.root
  introspection := env.introspection

theorem projects_resolve (h : env.application.Projects part application') (found : FoundField)
    (info : ResolveInfo) :
    ProjectsState part (env.resolve found info)
      ((env.withApplication application').resolve found info) := by
  have hallowed : ∀ value : Value, ProjectsState part
      (if env.introspection then pure (.ok value)
        else pure (.error { message := "schema introspection is disabled" }) :
        StateM τ (Except FieldError Value))
      (if env.introspection then pure (.ok value)
        else pure (.error { message := "schema introspection is disabled" }) :
        StateM σ (Except FieldError Value)) := by
    intro value
    by_cases hi : env.introspection = true
    · rw [if_pos hi, if_pos hi]
      exact .pure _
    · rw [if_neg hi, if_neg hi]
      exact .pure _
  cases found with
  | typename => exact .pure _
  | schema => exact hallowed _
  | type => exact hallowed _
  | declared definition =>
    unfold resolve Application.resolver?
    dsimp only [withApplication]
    cases Introspection.resolver? info.parent.name with
    | some resolve => exact .pure _
    | none =>
      have hresolve := h.resolver info.parent.name definition.name
      dsimp only
      generalize env.application.resolver _ _ = resolve at hresolve ⊢
      generalize application'.resolver _ _ = resolve' at hresolve ⊢
      cases hresolve with
      | some hr => exact hr info
      | none =>
        unfold Application.readField
        dsimp only
        split
        · split
          · exact .pure _
          · exact h.read _ _
        · exact h.read _ _

theorem projects_executeGroups (h : env.application.Projects part application')
    {execute : ObjectType → Value → List Selection → Run τ Json.Members}
    {execute' : ObjectType → Value → List Selection → Run σ Json.Members}
    (he : ∀ type value selections,
      Run.Projects part (execute type value selections) (execute' type value selections))
    (type : ObjectType) (source : Value) (groups : List FieldGroup) :
    Run.Projects part (env.executeGroups execute type source groups)
      ((env.withApplication application').executeGroups execute' type source groups) := by
  have hfound : ∀ (group : FieldGroup) (found : FoundField),
      Run.Projects part (env.executeFound execute type source group found)
        ((env.withApplication application').executeFound execute' type source group found) := by
    intro group found
    refine (((Run.Projects.ofState (projects_resolve h found _)).bind ?_).under _).absorb _ _
    intro answer
    cases answer with
    | ok value => exact h.complete he _ value
    | error error => exact .fail _
  have hgroup : ∀ group : FieldGroup, Run.Projects part (env.executeGroup execute type source group)
      ((env.withApplication application').executeGroup execute' type source group) := by
    intro group
    unfold executeGroup
    dsimp only [withApplication]
    cases env.schema.field? type group.first.name with
    | none => exact .pure _
    | some found => exact (hfound group found).bind fun _ => .pure _
  induction groups with
  | nil => exact .pure _
  | cons group rest ih => exact (hgroup group).bind fun data => ih.bind fun others => .pure _

theorem projects_executeSelections (h : env.application.Projects part application') (depth : Nat)
    (type : ObjectType) (source : Value) (selections : List Selection) :
    Run.Projects part (env.executeSelections depth type source selections)
      ((env.withApplication application').executeSelections depth type source selections) := by
  induction depth generalizing type source selections with
  | zero => exact .exhausted
  | succ depth ih => exact projects_executeGroups h ih type source _

end Environment

end Projects

/-! ## 4. The record -/

theorem Application.recorded_projects {σ : Type} (application : Application σ) :
    application.recorded.Projects Prod.fst application where
  read source name := by
    unfold read
    split
    · exact .pure _
    · exact fun _ => rfl
    · exact .pure _
  resolver typeName fieldName := by
    unfold recorded
    dsimp only
    cases application.resolver typeName fieldName with
    | none => exact .none
    | some resolve => exact .some fun _ _ => rfl
  isTypeOf typeName := by
    unfold recorded
    dsimp only
    cases application.isTypeOf typeName with
    | none => exact .none
    | some belongs => exact .some fun _ _ => rfl
  resolveType typeName := by
    unfold recorded
    dsimp only
    cases application.resolveType typeName with
    | none => exact .none
    | some resolve => exact .some fun _ _ => rfl

/-- The record changes nothing: without it, an execution comes to the same response and leaves the
application in the same state. -/
theorem Execution.run?_recorded {σ : Type} (execution : Execution) (depth : Nat) (schema : Schema)
    (application : Application σ) (document : Document) (s : σ) (calls : List Call) :
    execution.run? depth schema application document s =
      (execution.run? depth schema application.recorded document (s, calls)).map
        fun (response, after) => (response, after.1) := by
  unfold run?
  cases execution.prepare schema document with
  | error error => rfl
  | ok prepared =>
    let env := execution.environment schema application.recorded document prepared
    have hprojects : Application.Projects Prod.fst env.application application :=
      application.recorded_projects
    have hrun := Environment.projects_executeSelections hprojects depth prepared.rootType
      execution.root prepared.operation.selections (s, calls)
    have henv : execution.environment schema application document prepared =
        env.withApplication application := rfl
    simp only [henv, hrun, Option.map_map]
    rfl

end GraphQL
