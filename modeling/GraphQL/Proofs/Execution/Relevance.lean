import GraphQL.Proofs.Execution.FragmentInlining
import GraphQL.Proofs.Execution.Passes
import GraphQL.Proofs.Execution.Recording
import GraphQL.Proofs.Execution.Refusal

/-!
# `GraphQL/Proofs/Execution/Relevance.lean` — what of a document and a request matters

A document may hold operations that are not selected, fragments that nothing spreads and definitions
in any order, and a request may bring values for variables that nobody has declared. None of this
shows in a response, or in the calls of the application's behaviour
(`Execution.run?_of_selected`).

What matters is the operation, the fragments of the names that it spreads, directly or through other
fragments, and the values of its variables. The set of names is closed: what is selected below a
field of a selection set spreads no names that the selection set does not spread
(`Spreads.of_selects`), so two tables of fragments that agree on the names at the root agree on
them at every level.
-/

set_option autoImplicit false

namespace GraphQL

/-! ## 1. The names that are spread -/

/-- Selections spread a name: in a spread of theirs, below a field or in an inline fragment, or in
the fragment of a name that they spread. There need not be a fragment of the name. -/
inductive Spreads (fragments : List Fragment) : List Selection → Name → Prop where
  | spread {selections : List Selection} {name : Name} {directives : List DirectiveUse}
    (hm : .spread name directives ∈ selections) : Spreads fragments selections name
  | inline {selections inner : List Selection} {condition : Option Name}
    {directives : List DirectiveUse} {name : Name}
    (hm : .inline condition directives inner ∈ selections) (h : Spreads fragments inner name) :
    Spreads fragments selections name
  | field {selections below : List Selection} {head : FieldHead} {name : Name}
    (hm : .field head below ∈ selections) (h : Spreads fragments below name) :
    Spreads fragments selections name
  | through {selections : List Selection} {name name' : Name} {fragment : Fragment}
    (h : Spreads fragments selections name)
    (hf : Fragment.find? fragments name = some fragment)
    (h' : Spreads fragments fragment.selections name') : Spreads fragments selections name'

/-- Two tables of fragments have the same fragments for the names that selections spread, and none
for the same names. -/
def AgreeOn (selections : List Selection) (fragments fragments' : List Fragment) : Prop :=
  ∀ name, Spreads fragments selections name →
    Fragment.find? fragments' name = Fragment.find? fragments name

mutual

/-- The names in the spreads of a selection, at any depth. -/
def Selection.spreadNames : Selection → List Name
  | .field _ selections => allSpreadNames selections
  | .inline _ _ selections => allSpreadNames selections
  | .spread name _ => [name]

/-- The names in the spreads of several selections. -/
def Selection.allSpreadNames : List Selection → List Name
  | [] => []
  | selection :: rest => selection.spreadNames ++ allSpreadNames rest

end

theorem Selection.spreadNames_subset {selection : Selection} {all : List Selection}
    (hm : selection ∈ all) : selection.spreadNames ⊆ allSpreadNames all := by
  induction all with
  | nil => cases hm
  | cons other rest ih =>
    rw [allSpreadNames]
    rcases List.mem_cons.mp hm with rfl | hm
    · exact List.subset_append_left _ _
    · exact List.Subset.trans (ih hm) (List.subset_append_right _ _)

namespace Spreads

variable {fragments : List Fragment} {selections : List Selection} {name : Name}

theorem mono (h : Spreads fragments selections name) {more : List Selection}
    (hs : selections ⊆ more) : Spreads fragments more name := by
  induction h generalizing more with
  | spread hm => exact .spread (hs hm)
  | inline hm h _ => exact .inline (hs hm) h
  | field hm h _ => exact .field (hs hm) h
  | through _ hf h' ih _ => exact .through (ih hs) hf h'

/-- What several selections spread, one of them spreads. -/
theorem exists_selection (h : Spreads fragments selections name) :
    ∃ selection ∈ selections, Spreads fragments [selection] name := by
  induction h with
  | spread hm => exact ⟨_, hm, .spread List.mem_cons_self⟩
  | inline hm h _ => exact ⟨_, hm, .inline List.mem_cons_self h⟩
  | field hm h _ => exact ⟨_, hm, .field List.mem_cons_self h⟩
  | through _ hf h' ih _ =>
    obtain ⟨selection, hm, h⟩ := ih
    exact ⟨selection, hm, .through h hf h'⟩

/-- No name is spread that is not in a set of names with all names that are written in the
selections, and with all names that are written in its fragments. -/
theorem mem_of_closed {names : List Name}
    (hc : ∀ name ∈ names, ∀ fragment, Fragment.find? fragments name = some fragment →
      Selection.allSpreadNames fragment.selections ⊆ names)
    (h : Spreads fragments selections name) (hs : Selection.allSpreadNames selections ⊆ names) :
    name ∈ names := by
  induction h with
  | spread hm => exact hs (Selection.spreadNames_subset hm List.mem_cons_self)
  | inline hm _ ih => exact ih (List.Subset.trans (Selection.spreadNames_subset hm) hs)
  | field hm _ ih => exact ih (List.Subset.trans (Selection.spreadNames_subset hm) hs)
  | through _ hf _ ih ih' => exact ih' (hc _ (ih hs) _ hf)

/-- What is spread below a field that selections select, they spread themselves. -/
theorem of_selects {scope : Scope} {objectType : Name} {node : FieldNode}
    (hs : scope.Selects objectType selections node)
    (h : Spreads scope.fragments node.selections name) :
    Spreads scope.fragments selections name := by
  induction hs with
  | field hm _ => exact .field hm h
  | inline hm _ _ ih => exact .inline hm (ih h)
  | spread hm _ hc _ ih => exact .through (.spread hm) (Scope.counted?_eq_some_iff.mp hc).1 (ih h)

end Spreads

namespace AgreeOn

variable {fragments fragments' : List Fragment} {selections : List Selection}

/-- Agreement on selections is agreement on everything whose names they spread. -/
theorem of_spreads (h : AgreeOn selections fragments fragments') {inner : List Selection}
    (hs : ∀ name, Spreads fragments inner name → Spreads fragments selections name) :
    AgreeOn inner fragments fragments' :=
  fun name hn => h name (hs name hn)

theorem tail {selection : Selection} (h : AgreeOn (selection :: selections) fragments fragments') :
    AgreeOn selections fragments fragments' :=
  h.of_spreads fun _ hn => hn.mono (List.subset_cons_self _ _)

end AgreeOn

/-! ## 2. Collection -/

namespace Scope

variable {scope : Scope} {objectType : Name} {selections : List Selection}

/-- The same schema and variables, with other fragments. -/
def withFragments (scope : Scope) (fragments : List Fragment) : Scope :=
  { scope with fragments }

variable {fragments : List Fragment}

theorem includes_withFragments (directives : List DirectiveUse) :
    (scope.withFragments fragments).includes directives = scope.includes directives :=
  @includes_congr scope (scope.withFragments fragments) rfl rfl directives

theorem counts_withFragments (condition : Option Name) (directives : List DirectiveUse) :
    (scope.withFragments fragments).counts objectType condition directives =
      scope.counts objectType condition directives := by
  have ha : (scope.withFragments fragments).applies objectType = scope.applies objectType :=
    funext (applies_congr rfl objectType)
  rw [counts, counts, includes_withFragments, ha]

theorem counted?_withFragments (objectType : Name) {name : Name}
    (h : Fragment.find? fragments name = Fragment.find? scope.fragments name) :
    (scope.withFragments fragments).counted? objectType name = scope.counted? objectType name := by
  have hfind : Fragment.find? (scope.withFragments fragments).fragments name =
      Fragment.find? scope.fragments name := h
  rw [counted?, counted?, hfind]
  simp only [counts_withFragments]

/-- A pass over selections is a pass with any fragments that agree on the names they spread. -/
theorem Collects.withFragments {found after : Collected} {expanded : List Name}
    (h : scope.Collects objectType selections found expanded after)
    (ha : AgreeOn selections scope.fragments fragments) :
    (scope.withFragments fragments).Collects objectType selections found expanded after := by
  induction h with
  | nil => exact .nil _
  | field hi _ ih => exact .field ((includes_withFragments _).trans hi) (ih ha.tail)
  | fieldExcluded hi _ ih => exact .fieldExcluded ((includes_withFragments _).trans hi) (ih ha.tail)
  | inline hc _ _ ihi ihr =>
    have hinner := ha.of_spreads fun _ hn => .inline List.mem_cons_self hn
    exact .inline ((counts_withFragments _ _).trans hc) (ihi hinner) (ihr ha.tail)
  | inlineExcluded hc _ ih =>
    exact .inlineExcluded ((counts_withFragments _ _).trans hc) (ih ha.tail)
  | passed hp _ ih =>
    refine .passed (hp.imp_right fun hi => ?_) (ih ha.tail)
    exact (includes_withFragments _).trans hi
  | visited hn hi hc _ ih =>
    have hcounted := counted?_withFragments objectType (ha _ (.spread List.mem_cons_self))
    exact .visited hn ((includes_withFragments _).trans hi) (hcounted.trans hc) (ih ha.tail)
  | expanded hn hi hc _ _ ihf ihr =>
    have hcounted := counted?_withFragments objectType (ha _ (.spread List.mem_cons_self))
    have hbody := ha.of_spreads fun _ hs =>
      .through (.spread List.mem_cons_self) (counted?_eq_some_iff.mp hc).1 hs
    exact .expanded hn ((includes_withFragments _).trans hi) (hcounted.trans hc) (ihf hbody) (ihr ha.tail)

theorem collectGroups_withFragments (ha : AgreeOn selections scope.fragments fragments) :
    (scope.withFragments fragments).collectGroups objectType selections =
      scope.collectGroups objectType selections := by
  obtain ⟨_, after, h, heq⟩ := @exists_collects scope objectType selections
  rw [collectGroups, collectGroups, heq, (h.withFragments ha).collect_eq]

/-- What a group brings in below spreads no names that are new. -/
theorem spreads_of_mem_collectGroups {group : FieldGroup}
    (hg : group ∈ scope.collectGroups objectType selections) {name : Name}
    (h : Spreads scope.fragments group.selections name) :
    Spreads scope.fragments selections name := by
  obtain ⟨selection, hm, hs⟩ := h.exists_selection
  obtain ⟨node, hn, hm⟩ := List.mem_flatMap.mp hm
  rw [FieldGroup.nodes_of_mem_ofNodes hg] at hn
  obtain ⟨_, after, hcollects, heq⟩ := @exists_collects scope objectType selections
  have hnode : node ∈ after.nodes := heq ▸ List.mem_of_mem_filter hn
  have hselects := (hcollects.selects node hnode).resolve_left List.not_mem_nil
  exact .of_selects hselects (hs.mono (List.cons_subset.mpr ⟨hm, List.nil_subset _⟩))

end Scope

/-! ## 3. Execution -/

/-- Selections are executed alike with other fragments that agree on the names they spread. -/
theorem Environment.alike_withFragments {σ : Type} (env : Environment σ)
    (fragments : List Fragment) :
    env.Alike { env with toScope := env.toScope.withFragments fragments }
      (fun selections selections' =>
        selections' = selections ∧ AgreeOn selections env.fragments fragments) where
  schema := rfl
  application := rfl
  groups type selections selections' h := by
    obtain ⟨rfl, ha⟩ := h
    have hgroups : (env.toScope.withFragments fragments).collectGroups type.name selections' =
        env.toScope.collectGroups type.name selections' := Scope.collectGroups_withFragments ha
    rw [hgroups, List.forall₂_same]
    intro group hg
    exact ⟨rfl, rfl, rfl, fun _ _ => rfl, rfl,
      ha.of_spreads fun _ hn => Scope.spreads_of_mem_collectGroups hg hn⟩

/-- Values that are supplied for other variables than the declared ones are ignored. -/
theorem Schema.coerceVariables_congr {schema : Schema} {declared : List VariableDefinition}
    {supplied supplied' : Json.Members}
    (h : ∀ definition ∈ declared, supplied'.get? definition.name = supplied.get? definition.name) :
    schema.coerceVariables declared supplied' = schema.coerceVariables declared supplied := by
  refine coerceVariables_congr_of_forall₂ (List.forall₂_same.mpr fun definition hm => ⟨rfl, ?_⟩)
  rw [coerceVariable, coerceVariable, h definition hm]

namespace Execution

variable {execution : Execution} {document document' : Document} {operation : Operation}
variable {supplied : Json.Members}

theorem prepare_eq_of_selects {execution : Execution} {document : Document} {operation : Operation}
    (hs : document.Selects execution.operationName operation) (schema : Schema) :
    execution.prepare schema document = do
      let rootType ← schema.rootOf operation
      let variableValues ←
        schema.coerceVariables operation.variableDefinitions execution.variableValues
      return { operation, rootType, variableValues } := by
  rw [prepare, Document.operation?_eq_ok_iff.mpr hs]
  rfl

theorem prepare_of_selected (hs : document.Selects execution.operationName operation)
    (hs' : document'.Selects execution.operationName operation)
    (hv : ∀ definition ∈ operation.variableDefinitions,
      supplied.get? definition.name = execution.variableValues.get? definition.name)
    (schema : Schema) :
    { execution with variableValues := supplied }.prepare schema document' =
      execution.prepare schema document := by
  have hprepare' := @prepare_eq_of_selects { execution with variableValues := supplied } _ _ hs'
  rw [prepare_eq_of_selects hs, hprepare']
  simp only [Schema.coerceVariables_congr hv]

variable {σ : Type}

theorem run?_eq_of_selected (hs : document.Selects execution.operationName operation)
    (hs' : document'.Selects execution.operationName operation)
    (hf : AgreeOn operation.selections document.fragments document'.fragments)
    (hv : ∀ definition ∈ operation.variableDefinitions,
      supplied.get? definition.name = execution.variableValues.get? definition.name)
    (schema : Schema) (application : Application σ) (depth : Nat) (s : σ) :
    { execution with variableValues := supplied }.run? depth schema application document' s =
      execution.run? depth schema application document s := by
  have hprepare := prepare_of_selected hs hs' hv schema
  cases hp : execution.prepare schema document with
  | error error =>
    rw [hp] at hprepare
    simp only [run?, hp, hprepare]
  | ok prepared =>
    rw [hp] at hprepare
    have hsame : prepared.operation = operation := by
      have ho := (prepare_eq_ok hp).1
      exact Except.ok.inj (ho.symm.trans (Document.operation?_eq_ok_iff.mpr hs))
    subst hsame
    have halike := (execution.environment schema application document prepared).alike_withFragments
      document'.fragments
    have hrun := halike.executeSelections depth ⟨rfl, hf⟩ prepared.rootType execution.root
    simp only [run?, hp, hprepare]
    exact congrArg (fun run => Option.map _ (run s)) hrun

/-- Only the selected operation, the fragments of the names that it spreads and the values of the
variables that it declares matter. If two documents and two requests have these in common, their
executions come to the same response and leave the application in the same state, or neither comes
to anything; and both make the same calls, with the same arguments and in the same order. -/
theorem run?_of_selected (hs : document.Selects execution.operationName operation)
    (hs' : document'.Selects execution.operationName operation)
    (hf : AgreeOn operation.selections document.fragments document'.fragments)
    (hv : ∀ definition ∈ operation.variableDefinitions,
      supplied.get? definition.name = execution.variableValues.get? definition.name)
    (schema : Schema) (application : Application σ) (depth : Nat) (s : σ) :
    { execution with variableValues := supplied }.run? depth schema application document' s =
        execution.run? depth schema application document s ∧
      { execution with variableValues := supplied }.run? depth schema application.recorded document'
          (s, []) =
        execution.run? depth schema application.recorded document (s, []) :=
  ⟨run?_eq_of_selected hs hs' hf hv schema application depth s,
    run?_eq_of_selected hs hs' hf hv schema application.recorded depth (s, [])⟩

end Execution

/-! ## 4. Two documents to look at -/

namespace Sample

/-- An operation with a variable, which spreads a fragment and a name without one. -/
def askingOperation : Operation :=
  { operation with
    name := some "Asking"
    variableDefinitions := [{ location := .start, name := "flag", type := .named "Boolean" false
                              default := none, directives := [] }]
    selections := [.spread "Name" [], field none "self" [.spread "Unknown" []]] }

def askingDocument : Document where
  operations := [askingOperation]
  fragments := [nameFragment]

/-- The same operation among others, and its fragment among others. -/
def crowdedDocument : Document where
  operations := [operation, { operation with name := some "Other" }, askingOperation]
  fragments := [loop, nameFragment, { loop with name := "Unrelated" }]

def askingExecution : Execution where
  operationName := some "Asking"
  variableValues := [("flag", .boolean true)]

def crowdedValues : Json.Members := [("undeclared", .null), ("flag", .boolean true)]

theorem selects_askingDocument : askingDocument.Selects (some "Asking") askingOperation :=
  Document.operation?_eq_ok_iff.mp rfl

theorem selects_crowdedDocument : crowdedDocument.Selects (some "Asking") askingOperation :=
  Document.operation?_eq_ok_iff.mp rfl

theorem agreeOn_askingOperation : AgreeOn askingOperation.selections askingDocument.fragments
    crowdedDocument.fragments := by
  intro name h
  have hclosed : ∀ name ∈ ["Name", "Unknown"], ∀ fragment,
      Fragment.find? askingDocument.fragments name = some fragment →
        Selection.allSpreadNames fragment.selections ⊆ ["Name", "Unknown"] := by
    intro _ _ fragment hf
    cases List.mem_singleton.mp (Fragment.mem_of_find? hf)
    exact List.nil_subset _
  have hm := h.mem_of_closed hclosed (List.Subset.refl _)
  rcases List.mem_cons.mp hm with rfl | hm
  · rfl
  · cases List.mem_singleton.mp hm
    rfl

theorem get?_crowdedValues : ∀ definition ∈ askingOperation.variableDefinitions,
    crowdedValues.get? definition.name =
      askingExecution.variableValues.get? definition.name := by
  intro definition hm
  cases List.mem_singleton.mp hm
  rfl

end Sample

theorem Execution.run?_of_selected_sample :
    Sample.askingDocument.Selects (some "Asking") Sample.askingOperation ∧
    Sample.crowdedDocument.Selects (some "Asking") Sample.askingOperation ∧
    AgreeOn Sample.askingOperation.selections Sample.askingDocument.fragments
      Sample.crowdedDocument.fragments ∧
    (∀ definition ∈ Sample.askingOperation.variableDefinitions,
      Sample.crowdedValues.get? definition.name =
        Sample.askingExecution.variableValues.get? definition.name) ∧
    { Sample.askingExecution with variableValues := Sample.crowdedValues }.run? 3 Sample.schema
        Sample.application Sample.crowdedDocument () =
      Sample.askingExecution.run? 3 Sample.schema Sample.application Sample.askingDocument () :=
  ⟨Sample.selects_askingDocument, Sample.selects_crowdedDocument, Sample.agreeOn_askingOperation,
    Sample.get?_crowdedValues,
    (run?_of_selected Sample.selects_askingDocument Sample.selects_crowdedDocument
      Sample.agreeOn_askingOperation Sample.get?_crowdedValues Sample.schema Sample.application 3
      ()).1⟩

end GraphQL
