import GraphQL.Proofs.Execution.Congruence
import GraphQL.Proofs.Execution.Expansion
import GraphQL.Proofs.Execution.Termination

/-!
# `GraphQL/Proofs/Execution/FragmentInlining.lean` — fragments are an abbreviation

A document without cycles means the same with its spreads written out
(`Execution.returns_inlined`), although execution does different things with the two. On one level,
what is collected from the written-out text repeats itself (`Scope.collectWithin_expands`); grouping
makes one group of all nodes of a key, so the repetitions disappear from the groups
(`FieldGroup.ofNodes_echoes`), but not from what is selected below, where a node that has come in
twice brings its selections in twice. So what goes from level to level is not the writing out of
selections but `Unrolls`, where whole runs of selections may come in again.
-/

set_option autoImplicit false

namespace GraphQL

/-! ## 1. What is read by the same schema and variables -/

namespace Scope

variable {scope scope' : Scope}

theorem includes_congr (hs : scope'.schema = scope.schema)
    (hv : scope'.variableValues = scope.variableValues) (directives : List DirectiveUse) :
    scope'.includes directives = scope.includes directives := by
  induction directives with
  | nil => rfl
  | cons directive rest ih =>
    have hc : scope'.condition? directive = scope.condition? directive := by
      rw [condition?, condition?, hs, hv]
    rw [includes, includes, hc, ih]

theorem applies_congr (hs : scope'.schema = scope.schema) (objectType condition : Name) :
    scope'.applies objectType condition = scope.applies objectType condition := by
  rw [applies, applies, hs]

mutual

theorem gatherOne_congr (hs : scope'.schema = scope.schema)
    (hv : scope'.variableValues = scope.variableValues) (objectType : Name) :
    ∀ selection, scope'.gatherOne objectType selection = scope.gatherOne objectType selection
  | .field head selections => by rw [gatherOne, gatherOne, includes_congr hs hv]
  | .inline condition directives selections => by
    have ha : scope'.applies objectType = scope.applies objectType :=
      funext (applies_congr hs objectType)
    rw [gatherOne, gatherOne, includes_congr hs hv, ha, gather_congr hs hv]
  | .spread name directives => rfl

/-- What a text without spreads stands for does not depend on the fragments. -/
theorem gather_congr (hs : scope'.schema = scope.schema)
    (hv : scope'.variableValues = scope.variableValues) (objectType : Name) :
    ∀ selections, scope'.gather objectType selections = scope.gather objectType selections
  | [] => rfl
  | selection :: rest => by
    rw [gather, gather, gatherOne_congr hs hv, gather_congr hs hv]

end

end Scope

/-! ## 2. From selections to groups -/

/-- Selections, and a text without spreads that says the same: run by run the selections written
out, where a run may come in again. -/
def Unrolls (fragments : List Fragment) (selections text : List Selection) : Prop :=
  ∃ blocks blocks', Echoes (Inlines fragments) [] blocks blocks' ∧
    selections = blocks.flatten ∧ text = blocks'.flatten

theorem Inlines.unrolls {fragments : List Fragment} {selections inlined : List Selection}
    (h : Inlines fragments selections inlined) : Unrolls fragments selections inlined :=
  ⟨[selections], [inlined], .next h .nil, by simp, by simp⟩

/-- The field nodes of selections, and those of a text that unrolls them: the same ones, but for
repetitions. -/
theorem Scope.collect_echoes {scope scope' : Scope} (ha : Acyclic scope.fragments)
    (hs : scope'.schema = scope.schema) (hv : scope'.variableValues = scope.variableValues)
    {selections text : List Selection} (hu : Unrolls scope.fragments selections text)
    (objectType : Name) :
    Echoes (FieldNode.Inlines scope.fragments) [] (scope.collect objectType selections)
      (scope'.collect objectType text) := by
  obtain ⟨blocks, blocks', he, rfl, rfl⟩ := hu
  -- Nothing has been visited at the beginning, so nothing has to be settled.
  have hexpands : scope.Expands objectType {}
      (scope.collectWithin objectType scope.fragments.length blocks.flatten {}) []
      (scope.gather objectType blocks'.flatten) :=
    collectWithin_flatten_expands ha he (List.length_filter_le _ _)
      (fun _ hm => by cases hm) (fun _ hm => by cases hm)
  -- No spreads are left on the other side, so its fragments do not come in.
  have hgathers : scope'.Gathers objectType blocks'.flatten := by
    have hall : ∀ block ∈ blocks', scope'.Gathers objectType block :=
      he.forall_right (fun _ _ hi => gathers_of_inlines hi) (List.forall_mem_nil _)
    clear he hexpands
    induction blocks' with
    | nil =>
      intro depth found
      rw [List.flatten_nil, collectWithin_nil, gather, List.append_nil]
    | cons block rest ih =>
      rw [List.forall_mem_cons] at hall
      exact hall.1.append (ih hall.2)
  obtain ⟨new, hn, hechoes⟩ := hexpands.nodes
  rw [collect, collect, hn, hgathers, gather_congr hs hv]
  exact hechoes

namespace FieldGroup

/-- Repetitions do not show in the groups: the keys are the same, and so is what each goes along
with. -/
theorem ofNodes_echoes {R : FieldNode → FieldNode → Prop} (hk : ∀ a b, R a b → a.key = b.key)
    {nodes nodes' : List FieldNode} (h : Echoes R [] nodes nodes') :
    List.Forall₂ (fun group group' => group'.key = group.key ∧
      Echoes R [] group.nodes group'.nodes) (ofNodes nodes) (ofNodes nodes') := by
  have hkeys : (ofNodes nodes).map key = (ofNodes nodes').map key := by
    rw [keys_ofNodes, keys_ofNodes]
    exact (h.map hk).eraseDups_eq
  -- The groups match by position, and a group is made of the nodes with its key.
  refine (forall₂_of_keys_eq hkeys).imp fun group group' hpair => ?_
  obtain ⟨hg, hg', he⟩ := hpair
  refine ⟨he.symm, ?_⟩
  rw [nodes_of_mem_ofNodes hg, nodes_of_mem_ofNodes hg', ← he]
  exact h.filter fun a b hab => by rw [hk a b hab]

end FieldGroup

/-! ## 3. Two environments -/

namespace Environment

variable {σ : Type} {env env' : Environment σ}

theorem resolve_congr (ha : env'.application = env.application)
    (hi : env'.introspection = env.introspection) (found : FoundField) (info : ResolveInfo) :
    env'.resolve found info = env.resolve found info := by
  cases found <;> simp only [resolve, ha, hi]

/-- An environment with another text, for an application that does not look at the text. -/
structure SameButText (env env' : Environment σ) : Prop where
  schema : env'.schema = env.schema
  variableValues : env'.variableValues = env.variableValues
  application : env'.application = env.application
  root : env'.root = env.root
  introspection : env'.introspection = env.introspection

/-- A field resolves to the same for another operation and other nodes, if the arguments of the
first node are read alike. -/
theorem SameButText.resolve_of_coerced (h : env.SameButText env')
    (ho : env.application.IgnoresOperation) (hn : env.application.IgnoresNodes)
    {group group' : FieldGroup} {found : FoundField}
    (hg : env.schema.coerceArguments env.variableValues found.definition.arguments
        group'.first.arguments =
      env.schema.coerceArguments env.variableValues found.definition.arguments
        group.first.arguments) (type : ObjectType) (source : Value) :
    env'.resolve found (env'.resolveInfo type source group' found.definition) =
      env.resolve found (env.resolveInfo type source group found.definition) := by
  have hinfo : env'.resolveInfo type source group' found.definition =
      { env.resolveInfo type source group found.definition with
        operation := env'.operation, nodes := group' } := by
    simp only [resolveInfo, h.schema, h.variableValues, h.root, hg]
  rw [resolve_congr h.application h.introspection, hinfo]
  apply resolve_text
  intro resolver hr
  have hoperation := ho _ _ resolver hr
    { env.resolveInfo type source group found.definition with nodes := group' } env'.operation
  exact hoperation.trans (hn _ _ resolver hr _ group')

theorem SameButText.resolve (h : env.SameButText env')
    (ho : env.application.IgnoresOperation) (hn : env.application.IgnoresNodes)
    {group group' : FieldGroup} (hg : group'.first.arguments = group.first.arguments)
    (type : ObjectType) (source : Value) (found : FoundField) :
    env'.resolve found (env'.resolveInfo type source group' found.definition) =
      env.resolve found (env.resolveInfo type source group found.definition) :=
  h.resolve_of_coerced ho hn (by rw [hg]) type source

/-- Environments that differ in the text are alike for selections and texts that unroll them. -/
theorem SameButText.alike_unrolls (h : env.SameButText env') (hacyclic : Acyclic env.fragments)
    (ho : env.application.IgnoresOperation) (hn : env.application.IgnoresNodes) :
    env.Alike env' (Unrolls env.fragments) where
  schema := h.schema
  application := h.application
  groups type selections text hu := by
    have hkey : ∀ a b : FieldNode, a.Inlines env.fragments b → a.key = b.key := by
      intro a b hab
      exact congrArg FieldHead.key hab.1.symm
    have hgroups := FieldGroup.ofNodes_echoes hkey
      (Scope.collect_echoes hacyclic h.schema h.variableValues hu type.name)
    refine hgroups.imp fun group group' hg => ?_
    obtain ⟨hk, he⟩ := hg
    -- The first node of a group is no repetition.
    have hfirst : group.first.Inlines env.fragments group'.first := by
      cases he with
      | next hab _ => exact hab
      | again hm _ => cases hm
    refine ⟨hk, congrArg FieldHead.location hfirst.1, congrArg FieldHead.name hfirst.1, ?_, ?_⟩
    · intro found source
      exact h.resolve ho hn (congrArg FieldHead.arguments hfirst.1) type source found
    · refine ⟨_, _, he.map fun a b hab => hab.2, ?_, ?_⟩
      · exact List.flatMap_def
      · exact List.flatMap_def

end Environment

/-! ## 4. Executions of a document and of the written-out document -/

/-- From documents whose operations go along with each other by their names, a request selects
operations that do so, or it selects none from either, with the same error. -/
theorem Document.operation?_of_forall₂ {R : Operation → Operation → Prop}
    (hn : ∀ operation operation', R operation operation' → operation'.name = operation.name)
    {document document' : Document}
    (ho : List.Forall₂ R document.operations document'.operations) (name : Option String) :
    (∃ error, document.operation? name = .error error ∧
        document'.operation? name = .error error) ∨
      ∃ operation operation', document.operation? name = .ok operation ∧
        document'.operation? name = .ok operation' ∧ R operation operation' := by
  unfold Document.operation?
  generalize document.operations = operations at ho
  generalize document'.operations = operations' at ho
  cases name with
  | none =>
    rcases ho with _ | ⟨hone, _ | ⟨-, -⟩⟩
    · exact Or.inl ⟨_, rfl, rfl⟩
    · exact Or.inr ⟨_, _, rfl, rfl, hone⟩
    · exact Or.inl ⟨_, rfl, rfl⟩
  | some name =>
    dsimp only
    induction ho with
    | nil => exact Or.inl ⟨_, rfl, rfl⟩
    | @cons operation operation' _ _ hone _ ih =>
      rw [List.find?_cons, List.find?_cons, hn _ _ hone]
      cases decide (operation.name = some name) with
      | true => exact Or.inr ⟨_, _, rfl, rfl, hone⟩
      | false => exact ih

/-- The same operation is selected from a document and from the written-out one. -/
theorem Document.Inlines.operation? {document inlined : Document} (h : document.Inlines inlined)
    (name : Option String) :
    (∃ error, document.operation? name = .error error ∧ inlined.operation? name = .error error) ∨
      ∃ operation operation', document.operation? name = .ok operation ∧
        inlined.operation? name = .ok operation' ∧
        operation.Inlines document.fragments operation' := by
  refine Document.operation?_of_forall₂ ?_ h.operations name
  rintro _ _ ⟨_, -, rfl⟩
  rfl

namespace Execution

theorem prepare_of_operation?_error {execution : Execution} {schema : Schema}
    {document : Document} {error : RequestError}
    (h : document.operation? execution.operationName = .error error) :
    execution.prepare schema document = .error error := by
  rw [prepare, h]
  rfl

/-- What is settled before execution begins is the same, but for the selections. -/
theorem prepare_of_inlines {document inlined : Document} (h : document.Inlines inlined)
    (execution : Execution) (schema : Schema) :
    (∃ error, execution.prepare schema document = .error error ∧
      execution.prepare schema inlined = .error error) ∨
      ∃ prepared operation, execution.prepare schema document = .ok prepared ∧
        execution.prepare schema inlined = .ok { prepared with operation } ∧
        prepared.operation.Inlines document.fragments operation := by
  rcases h.operation? execution.operationName with
    ⟨error, he, he'⟩ | ⟨operation, _, ho, ho', selections, hs, rfl⟩
  · exact Or.inl ⟨error, prepare_of_operation?_error he, prepare_of_operation?_error he'⟩
  · have hroot : schema.rootOf { operation with selections } = schema.rootOf operation := rfl
    rw [prepare, prepare, ho, ho']
    simp only [bind, Except.bind, hroot]
    cases schema.rootOf operation with
    | error error => exact Or.inl ⟨error, rfl, rfl⟩
    | ok rootType =>
      cases schema.coerceVariables operation.variableDefinitions execution.variableValues with
      | error error => exact Or.inl ⟨error, rfl, rfl⟩
      | ok values => exact Or.inr ⟨_, _, rfl, rfl, selections, hs, rfl⟩

/-- At every depth, the written-out document is executed as the document is. -/
theorem run?_of_inlines {document inlined : Document} (hacyclic : Acyclic document.fragments)
    (h : document.Inlines inlined) {σ : Type} {application : Application σ}
    (ho : application.IgnoresOperation) (hn : application.IgnoresNodes) (execution : Execution)
    (depth : Nat) (schema : Schema) (s : σ) :
    execution.run? depth schema application inlined s =
      execution.run? depth schema application document s := by
  rcases prepare_of_inlines h execution schema with
    ⟨error, he, he'⟩ | ⟨prepared, _, hp, hp', selections, hs, rfl⟩
  · simp only [run?, he, he']
  · have halike : (execution.environment schema application document prepared).Alike
        (execution.environment schema application inlined
          { prepared with operation := { prepared.operation with selections } })
        (Unrolls document.fragments) :=
      Environment.SameButText.alike_unrolls ⟨rfl, rfl, rfl, rfl, rfl⟩ hacyclic ho hn
    simp only [run?, hp, hp', halike.executeSelections depth hs.unrolls]

/-- A document without cycles can be written out in exactly one way, and executing what it is
written out to comes to the same response, and leaves the application in the same state. -/
theorem returns_inlined {document : Document} (hacyclic : Acyclic document.fragments) :
    (∃! inlined, document.Inlines inlined) ∧
      ∀ inlined, document.Inlines inlined → ∀ (σ : Type) (application : Application σ),
        application.IgnoresOperation → application.IgnoresNodes →
        ∀ (schema : Schema) (execution : Execution) (s : σ), ∃ response s',
          execution.Returns schema application document s response s' ∧
          execution.Returns schema application inlined s response s' := by
  refine ⟨hacyclic.existsUnique_inlines, ?_⟩
  intro inlined hi σ application ho hn schema execution s
  obtain ⟨response, s', depth, hr⟩ := exists_returns
    (fun operation _ => hacyclic.wellNested operation.selections) schema application s
  refine ⟨response, s', ⟨depth, hr⟩, depth, ?_⟩
  rw [run?_of_inlines hacyclic hi ho hn]
  exact hr

end Execution

/-! ## 5. A document to look at -/

namespace Sample

def nameFragment : Fragment where
  name := "Name"
  condition := "Query"
  directives := []
  selections := [field none "name" []]

/-- A query in which a fragment is spread twice on one level, and again below a field. -/
def spreadDocument : Document where
  operations := [{ operation with selections :=
    [.spread "Name" [], field none "self" [.spread "Name" []], .spread "Name" [],
      .spread "Unknown" []] }]
  fragments := [nameFragment]

def writtenOut : Selection :=
  .inline none [] [.inline (some "Query") [] [field none "name" []]]

def inlinedDocument : Document where
  operations := [{ operation with selections :=
    [writtenOut, field none "self" [writtenOut], writtenOut] }]
  fragments := [nameFragment]

theorem acyclic_nameFragment : Acyclic [nameFragment] := by
  apply Acyclic.of_leaf
  intro fragment hm
  cases List.mem_singleton.mp hm
  exact ⟨_, rfl⟩

theorem inlines_nameFragment :
    Inlines [nameFragment] nameFragment.selections [field none "name" []] :=
  .field .nil .nil

theorem inlines_spread {rest rest' : List Selection} (h : Inlines [nameFragment] rest rest') :
    Inlines [nameFragment] (.spread "Name" [] :: rest) (writtenOut :: rest') := by
  have hf : Fragment.find? [nameFragment] "Name" = some nameFragment := rfl
  exact .spread hf inlines_nameFragment h

theorem document_inlines : spreadDocument.Inlines inlinedDocument where
  operations := by
    refine .cons ⟨_, ?_, rfl⟩ .nil
    exact inlines_spread (.field (inlines_spread .nil) (inlines_spread (.unknown rfl .nil)))
  fragments := .cons ⟨_, inlines_nameFragment, rfl⟩ .nil

theorem ignoresOperation : application.IgnoresOperation := by
  rintro _ _ _ h _ _
  cases h
  rfl

theorem ignoresNodes : application.IgnoresNodes := by
  rintro _ _ _ h _ _
  cases h
  rfl

end Sample

theorem Execution.returns_inlined_sample : Acyclic Sample.spreadDocument.fragments ∧
    Sample.spreadDocument.Inlines Sample.inlinedDocument ∧
    Sample.application.IgnoresOperation ∧ Sample.application.IgnoresNodes ∧
    ∃ response s', Execution.Returns {} Sample.schema Sample.application Sample.spreadDocument ()
        response s' ∧
      Execution.Returns {} Sample.schema Sample.application Sample.inlinedDocument () response s' :=
  ⟨Sample.acyclic_nameFragment, Sample.document_inlines, Sample.ignoresOperation,
    Sample.ignoresNodes,
    (returns_inlined Sample.acyclic_nameFragment).2 _ Sample.document_inlines _ _
      Sample.ignoresOperation Sample.ignoresNodes Sample.schema {} ()⟩

end GraphQL
