import GraphQL.Proofs.Document.Nesting
import GraphQL.Proofs.Execution.Grouping
import GraphQL.Proofs.Execution.Response

/-!
# `GraphQL/Proofs/Execution/Termination.lean` — executions that end

A selection set is executed inside another as deep as both the data and the selections go. Data may
go on for ever, since a resolver may answer with its own source; so an execution surely ends only if
the selections do not go on for ever. They do not if the operation is well nested, and then one
depth is enough for every schema, every application and every root value
(`Execution.exists_depth`). The visited names of a collection see to spreads on one level, and that
is all they see to: each selection set is collected afresh.

The link from the text to the execution is that collected fields are fields of one level
(`Scope.offers_of_mem_collect`); everything between a field and the selection sets below it is
total.
-/

set_option autoImplicit false

namespace GraphQL

/-! ## 1. Collected fields are fields of one level -/

/-- Between two states of a collection, only fields come in that selections offer. -/
def Scope.Collected.Gains (fragments : List Fragment) (selections : List Selection)
    (before after : Collected) : Prop :=
  ∀ node ∈ after.nodes, node ∈ before.nodes ∨ Offers fragments selections node.selections

namespace Scope

variable {scope : Scope} {objectType : Name}

theorem Collected.Gains.refl {fragments : List Fragment} {selections : List Selection}
    (found : Collected) : Collected.Gains fragments selections found found :=
  fun _ hm => Or.inl hm

section Expand

variable {expand : List Selection → Collected → Collected}

mutual

theorem collectOne_gains (he : ∀ selections found,
      Collected.Gains scope.fragments selections found (expand selections found)) :
    ∀ (selection : Selection) (found : Collected), Collected.Gains scope.fragments [selection] found
      (scope.collectOne objectType expand selection found)
  | .field head selections, found => by
    rw [collectOne]
    split
    · intro node hm
      rcases List.mem_append.mp hm with hm | hm
      · exact Or.inl hm
      · cases List.mem_singleton.mp hm
        exact Or.inr .field
    · exact .refl found
  | .inline condition directives selections, found => by
    rw [collectOne]
    split
    · intro node hm
      exact (collectAll_gains he selections found node hm).imp_right Offers.inline
    · exact .refl found
  | .spread name directives, found => by
    rw [collectOne]
    split
    · exact .refl found
    · dsimp only
      split
      · exact fun _ hm => Or.inl hm
      · next fragment hf =>
        split
        · intro node hm
          exact (he _ _ node hm).imp_right (Offers.spread hf)
        · exact fun _ hm => Or.inl hm

theorem collectAll_gains (he : ∀ selections found,
      Collected.Gains scope.fragments selections found (expand selections found)) :
    ∀ (selections : List Selection) (found : Collected), Collected.Gains scope.fragments selections
      found (scope.collectAll objectType expand selections found)
  | [], found => .refl found
  | selection :: rest, found => by
    intro node hm
    rw [collectAll] at hm
    rcases collectAll_gains he rest _ node hm with hm | ho
    · exact (collectOne_gains he selection found node hm).imp_right
        fun ho => ho.mono (List.cons_subset_cons _ (List.nil_subset _))
    · exact Or.inr (ho.mono (List.subset_cons_self _ _))

end

end Expand

theorem collectWithin_gains (depth : Nat) (selections : List Selection) (found : Collected) :
    Collected.Gains scope.fragments selections found
      (scope.collectWithin objectType depth selections found) := by
  induction depth generalizing selections found with
  | zero => exact collectAll_gains (fun _ found => .refl found) selections found
  | succ depth ih => exact collectAll_gains ih selections found

/-- The fields that selections select are fields of one level. -/
theorem offers_of_mem_collect {selections : List Selection} {node : FieldNode}
    (hm : node ∈ scope.collect objectType selections) :
    Offers scope.fragments selections node.selections := by
  rcases collectWithin_gains scope.fragments.length selections {} node hm with h | h
  · cases h
  · exact h

/-- All that is selected below a group of fields is one level further in. -/
theorem bounded_selections_of_mem_collectGroups {selections : List Selection} {depth : Nat}
    (hb : Bounded scope.fragments (depth + 1) selections) {group : FieldGroup}
    (hg : group ∈ scope.collectGroups objectType selections) :
    Bounded scope.fragments depth group.selections := by
  refine Bounded.flatMap (List.cons_ne_nil _ _) fun node hm => ?_
  have hn : node ∈ group.nodes := hm
  -- The nodes of a group are among those that were collected.
  rw [FieldGroup.nodes_of_mem_ofNodes hg] at hn
  exact hb _ (offers_of_mem_collect (List.mem_of_mem_filter hn))

end Scope

/-! ## 2. Tracing ends -/

/-- A tracing comes to something from every state. -/
def Traced.Total {σ α : Type} (traced : Traced σ α) : Prop :=
  ∀ s, ∃ a s', traced s = some (a, s')

namespace Traced.Total

variable {σ α β : Type}

theorem pure (a : α) : Total (Pure.pure a : Traced σ α) :=
  fun s => ⟨a, s, rfl⟩

theorem ofState (action : StateM σ α) : Total (Traced.ofState action) :=
  fun s => ⟨(action s).1, (action s).2, rfl⟩

theorem bind {traced : Traced σ α} {next : α → Traced σ β} (h : Total traced)
    (hn : ∀ a, Total (next a)) : Total (traced >>= next) := by
  intro s
  obtain ⟨a, s₁, ha⟩ := h s
  obtain ⟨b, s₂, hb⟩ := hn a s₁
  exact ⟨b, s₂, by rw [Traced.bind_apply, ha]; exact hb⟩

theorem map {traced : Traced σ α} (h : Total traced) (f : α → β) : Total (f <$> traced) := by
  rw [map_eq_pure_bind]
  exact h.bind fun a => pure (f a)

end Traced.Total

section Total

variable {σ : Type} {extent : Extent} {schema : Schema} {application : Application σ}
variable {execute : ObjectType → Value → List Selection → Traced σ Trace} {group : FieldGroup}

theorem traceParts_total {α : Type} {position : α → Position} {trace : α → Traced σ Trace}
    {all : List α} (h : ∀ part ∈ all, (trace part).Total) :
    (traceParts extent position trace all).Total := by
  induction all with
  | nil => exact .pure _
  | cons part rest ih =>
    rw [List.forall_mem_cons] at h
    unfold traceParts
    refine h.1.bind fun first => ?_
    split
    · exact .pure _
    · exact (ih h.2).bind fun _ => .pure _

theorem traceRuntime_total (he : ∀ type value, (execute type value group.selections).Total)
    (value : Value) (answer : Except CompletionFault (Option ObjectType)) :
    (traceRuntime execute group value answer).Total := by
  cases answer with
  | error fault => exact .pure _
  | ok found =>
    cases found with
    | none => exact .pure _
    | some type => exact he type value

theorem traceNamed_total (he : ∀ type value, (execute type value group.selections).Total)
    (name : Name) (value : Value) :
    (traceNamed schema application execute group name value).Total := by
  unfold traceNamed
  split
  · exact .pure _
  · exact .pure _
  · exact .pure _
  · exact .pure _
  · exact he _ value
  · exact (Traced.Total.ofState _).bind (traceRuntime_total he value)
  · exact (Traced.Total.ofState _).bind (traceRuntime_total he value)

/-- A value is traced to its end: its type gets shorter from list to item. -/
theorem traceValue_total (he : ∀ type value, (execute type value group.selections).Total)
    (type : TypeRef) (value : Value) :
    (traceValue extent schema application execute group type value).Total := by
  induction type generalizing value with
  | named name required =>
    unfold traceValue
    refine Traced.Total.map ?_ _
    split
    · exact .pure _
    · exact traceNamed_total he name value
  | list item required ih =>
    unfold traceValue
    refine Traced.Total.map ?_ _
    cases value with
    | list items => exact (traceParts_total fun entry _ => ih entry.1).map _
    | _ => exact .pure _

namespace Environment

theorem traceField_total {env : Environment σ} {field : SelectedField}
    (he : ∀ type value, (execute type value field.group.selections).Total) (type : ObjectType)
    (source : Value) : (env.traceField extent execute type source field).Total := by
  unfold traceField
  refine (Traced.Total.ofState _).bind fun answer => ?_
  cases answer with
  | ok value => exact traceValue_total he _ value
  | error error => exact .pure _

/-- A bound for the levels of the selections is depth enough, for either extent. -/
theorem traceSelections_total (env : Environment σ) (extent : Extent) {depth : Nat}
    {selections : List Selection} (hb : Bounded env.fragments depth selections) (type : ObjectType)
    (source : Value) :
    (env.traceSelections extent depth type source selections).Total := by
  induction depth generalizing type source selections with
  | zero => cases hb
  | succ depth ih =>
    unfold traceSelections
    refine (traceParts_total fun field hf => traceField_total (fun type value => ih ?_ type value)
      type source).map _
    exact Scope.bounded_selections_of_mem_collectGroups hb (Scope.mem_selectedFields.mp hf).1

end Environment

end Total

/-! ## 3. Executions end -/

theorem Execution.exists_returns {execution : Execution} {document : Document}
    (hn : ∀ operation, document.operation? execution.operationName = .ok operation →
      WellNested document.fragments operation.selections)
    (schema : Schema) {σ : Type} (application : Application σ) (s : σ) :
    ∃ response s', execution.Returns schema application document s response s' := by
  cases hp : execution.prepare schema document with
  | error error => exact ⟨error.response, s, 0, by rw [run?, hp]⟩
  | ok prepared =>
    have ho := hn prepared.operation (prepare_eq_ok hp).1
    obtain ⟨depth, hd⟩ := ho.exists_bounded
    obtain ⟨trace, s', ht⟩ := (execution.environment schema application document
      prepared).traceSelections_total .untilFailure hd prepared.rootType execution.root s
    exact ⟨trace.response, s', (returns_iff_traces hp).mpr ⟨trace, ⟨depth, ht⟩, rfl⟩⟩

/-- Executions of a well nested operation end: one depth, which depends on the document and the name
of the operation alone, is enough for every schema, every application in every state, all variables
and every root value. -/
theorem Execution.exists_depth {document : Document} {name : Option String}
    (hn : ∀ operation, document.operation? name = .ok operation →
      WellNested document.fragments operation.selections) :
    ∃ depth, ∀ execution : Execution, execution.operationName = name →
      ∀ (schema : Schema) (σ : Type) (application : Application σ) (s : σ), ∃ response s',
        execution.run? depth schema application document s = some (response, s') := by
  have hbound : ∃ depth, ∀ operation, document.operation? name = .ok operation →
      Bounded document.fragments depth operation.selections := by
    cases ho : document.operation? name with
    | error error => exact ⟨0, fun _ h => by cases h⟩
    | ok operation =>
      obtain ⟨depth, hd⟩ := (hn operation ho).exists_bounded
      refine ⟨depth, fun _ h => ?_⟩
      cases h
      exact hd
  obtain ⟨depth, hd⟩ := hbound
  refine ⟨depth, fun execution he schema σ application s => ?_⟩
  subst he
  cases hp : execution.prepare schema document with
  | error error => exact ⟨error.response, s, by rw [run?, hp]⟩
  | ok prepared =>
    let env := execution.environment schema application document prepared
    obtain ⟨trace, s', ht⟩ := env.traceSelections_total .untilFailure
      (hd prepared.operation (prepare_eq_ok hp).1) prepared.rootType execution.root s
    exact ⟨trace.response, s', by rw [run?_eq_map_trace hp, ht, Option.map_some]⟩

theorem Sample.wellNested : WellNested document.fragments operation.selections := by
  refine .of_leaves fun fragment hm below hb => ?_
  cases List.mem_singleton.mp hm
  exact List.mem_singleton.mp hb

theorem Execution.exists_depth_sample : WellNested Sample.document.fragments
      Sample.operation.selections ∧
    ∃ depth, ∀ execution : Execution, execution.operationName = none →
      ∀ (schema : Schema) (σ : Type) (application : Application σ) (s : σ), ∃ response s',
        execution.run? depth schema application Sample.document s = some (response, s') := by
  refine ⟨Sample.wellNested, exists_depth fun operation ho => ?_⟩
  cases ho
  exact Sample.wellNested

namespace Sample

/-- A fragment that gets back to itself through a field. -/
def endless : Fragment where
  name := "Endless"
  condition := "Query"
  directives := []
  selections := [field none "self" [.spread "Endless" []]]

def endlessOperation : Operation :=
  { operation with selections := [.spread "Endless" []] }

def endlessDocument : Document where
  operations := [endlessOperation]
  fragments := [endless]

/-- Every field resolves to the value that it is resolved on. -/
def mirror : Application Unit where
  resolver _ _ := some fun info => pure (.ok info.source)

def endlessExecution : Execution :=
  { root := .map [] }

def endlessPrepared : Prepared where
  operation := endlessOperation
  rootType := schema.query
  variableValues := []

theorem prepare_endless :
    endlessExecution.prepare schema endlessDocument = .ok endlessPrepared := rfl

theorem name_query : schema.query.name = "Query" := by decide

theorem get?_query : schema.types.get? "Query" = some (.object schema.query) := by
  have h := (SchemaDescription.builds build_eq_ok).get?_query
  rwa [name_query] at h

theorem field?_self : ∃ definition,
    schema.field? schema.query "self" = some (.declared definition) ∧
    definition.type = .named "Query" false := by
  have h : (schema.query.fields.get? "self").map (·.type) = some (.named "Query" false) := by
    decide
  obtain ⟨definition, hd, ht⟩ := Option.map_eq_some_iff.mp h
  refine ⟨definition, ?_, ht⟩
  simp [Schema.field?, hd]

/-- The field of the fragment is all that the fragment selects, and below it the fragment is
selected again. -/
theorem collectGroups_endless {scope : Scope} (hf : scope.fragments = [endless])
    (ha : scope.applies "Query" "Query" = true) :
    ∃ group, scope.collectGroups "Query" [.spread "Endless" []] = [group] ∧
      group.first.name = "self" ∧ group.selections = [.spread "Endless" []] := by
  have hc : scope.collect "Query" [.spread "Endless" []] =
      [{ location := .start, aliased := none, name := "self", arguments := [], directives := []
         selections := [.spread "Endless" []] }] := by
    simp [Scope.collect, Scope.collectWithin, Scope.collectAll, Scope.collectOne, Scope.includes,
      hf, ha, Fragment.find?, endless, field]
  exact ⟨_, congrArg FieldGroup.ofNodes hc, rfl, rfl⟩

theorem selectedFields_endless {scope : Scope} (hs : scope.schema = schema)
    (hf : scope.fragments = [endless]) (ha : scope.applies "Query" "Query" = true) :
    ∃ group definition, scope.selectedFields schema.query [.spread "Endless" []] =
        [{ group, found := .declared definition }] ∧
      group.selections = [.spread "Endless" []] ∧ definition.type = .named "Query" false := by
  obtain ⟨group, hg, hn, hb⟩ := collectGroups_endless hf ha
  obtain ⟨definition, hd, ht⟩ := field?_self
  refine ⟨group, definition, ?_, hb, ht⟩
  rw [Scope.selectedFields, name_query, hg, hs]
  simp [hn, hd]

theorem resolve_endless {env : Environment Unit} (ha : env.application = mirror)
    (definition : FieldDefinition) {info : ResolveInfo} (hp : info.parent = schema.query) :
    env.resolve (.declared definition) info () = (.ok info.source, ()) := by
  have hr : Introspection.resolver? schema.query.name = none := by
    rw [name_query]
    rfl
  unfold Environment.resolve
  dsimp only
  rw [ha, hp, Application.resolver?, hr]
  rfl

/-- However much depth there is, it is used up. -/
theorem traceSelections_endless (depth : Nat) :
    (endlessExecution.environment schema mirror endlessDocument endlessPrepared).traceSelections
      .untilFailure depth schema.query (.map []) [.spread "Endless" []] () = none := by
  generalize he : endlessExecution.environment schema mirror endlessDocument endlessPrepared = env
  have hscope : env.toScope = endlessPrepared.scope schema endlessDocument := by rw [← he]; rfl
  have hschema : env.schema = schema := by rw [← he]; rfl
  have happ : env.application = mirror := by rw [← he]; rfl
  have ha : (endlessPrepared.scope schema endlessDocument).applies "Query" "Query" = true := by
    decide
  obtain ⟨group, definition, hs, hb, ht⟩ := selectedFields_endless rfl rfl ha
  induction depth with
  | zero => rfl
  | succ depth ih =>
    have hvalue : traceValue .untilFailure env.schema env.application
        (env.traceSelections .untilFailure depth) group definition.type (.map []) () = none := by
      rw [ht, traceValue, Traced.map_apply, Option.map_eq_none_iff]
      show traceNamed env.schema _ _ group "Query" (.map []) () = none
      rw [hschema, traceNamed, get?_query]
      dsimp only
      rw [hb]
      exact ih
    rw [Environment.traceSelections, hscope, hs, Traced.map_apply, Option.map_eq_none_iff,
      traceParts, Traced.bind_apply, Environment.traceField, Traced.bind_apply]
    dsimp only [Traced.ofState]
    rw [Option.bind_some, resolve_endless happ definition rfl]
    show Option.bind (traceValue _ _ _ _ _ definition.type (.map []) ()) _ = none
    rw [hvalue, Option.bind_none]

end Sample

/-- Executions need not end: if a fragment gets back to itself through a field, and the field
resolves to the value that it is resolved on, then no depth is enough. -/
theorem Execution.not_returns_endless : Sample.description.build = .ok Sample.schema ∧
    ¬ ∃ response s', Sample.endlessExecution.Returns Sample.schema Sample.mirror
      Sample.endlessDocument () response s' := by
  refine ⟨Sample.build_eq_ok, ?_⟩
  rintro ⟨response, s', depth, hr⟩
  rw [run?_eq_map_trace Sample.prepare_endless, Option.map_eq_some_iff] at hr
  obtain ⟨_, ht, -⟩ := hr
  have hnone := Sample.traceSelections_endless depth
  exact absurd (hnone.symm.trans ht) (by simp)

end GraphQL
