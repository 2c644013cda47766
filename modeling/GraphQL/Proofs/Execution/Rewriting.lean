import GraphQL.Proofs.Execution.Relevance

/-!
# `GraphQL/Proofs/Execution/Rewriting.lean` — the same selections with other arguments

What a client asks for can be written with other arguments and other directives and still mean the
same. A `Rewriting` says which argument lists and which directives may stand in place of which, and
it goes into everything that selections spread (`Rewriting.Turns`, `Rewriting.TurnsAmong`).

It leaves the response alone if directives come to the same decisions and if arguments are read
alike where they are read. The first is needed wherever directives stand. The second depends on the
type that a field is found on, and so it is asked for along the visits of an execution and nowhere
else (`Environment.AlikeAlong`, `Execution.run?_of_turns`): the same field node may have arguments
of one type here and of another there.
-/

set_option autoImplicit false

namespace GraphQL

/-- Ways to rewrite arguments and directives. -/
structure Rewriting where
  /-- These arguments may stand in place of those of a field. -/
  arguments : FieldHead → List Argument → Prop
  /-- Of two lists of directives, the second may stand in place of the first. -/
  directives : List DirectiveUse → List DirectiveUse → Prop

/-! ## 1. Selections -/

namespace Rewriting

variable (rewriting : Rewriting)

/-- Selections are rewritten to others. -/
inductive Turns : List Selection → List Selection → Prop where
  | nil : Turns [] []
  | field {head : FieldHead} {arguments : List Argument} {directives : List DirectiveUse}
    {below below' rest rest' : List Selection} (ha : rewriting.arguments head arguments)
    (hd : rewriting.directives head.directives directives) (hb : Turns below below')
    (hr : Turns rest rest') :
    Turns (.field head below :: rest) (.field { head with arguments, directives } below' :: rest')
  | inline {condition : Option Name} {directives directives' : List DirectiveUse}
    {inner inner' rest rest' : List Selection} (hd : rewriting.directives directives directives')
    (hi : Turns inner inner') (hr : Turns rest rest') :
    Turns (.inline condition directives inner :: rest)
      (.inline condition directives' inner' :: rest')
  | spread {name : Name} {directives directives' : List DirectiveUse}
    {rest rest' : List Selection} (hd : rewriting.directives directives directives')
    (hr : Turns rest rest') :
    Turns (.spread name directives :: rest) (.spread name directives' :: rest')

/-- A field node is rewritten to another. -/
structure TurnsNode (node node' : FieldNode) : Prop where
  key : node'.key = node.key
  location : node'.location = node.location
  name : node'.name = node.name
  arguments : rewriting.arguments node.toFieldHead node'.arguments
  below : rewriting.Turns node.selections node'.selections

/-- A fragment is rewritten to another. -/
structure TurnsFragment (fragment fragment' : Fragment) : Prop where
  condition : fragment'.condition = fragment.condition
  directives : rewriting.directives fragment.directives fragment'.directives
  selections : rewriting.Turns fragment.selections fragment'.selections

/-- The fragments whose names selections spread are rewritten to those of another table. -/
def TurnsAmong (selections : List Selection) (fragments fragments' : List Fragment) : Prop :=
  ∀ name, Spreads fragments selections name →
    Option.Rel rewriting.TurnsFragment (Fragment.find? fragments name)
      (Fragment.find? fragments' name)

variable {rewriting} {fragments fragments' : List Fragment}
variable {selections selections' : List Selection}

theorem Turns.append (h : rewriting.Turns selections selections') {more more' : List Selection}
    (hm : rewriting.Turns more more') :
    rewriting.Turns (selections ++ more) (selections' ++ more') := by
  induction h with
  | nil => exact hm
  | field ha hd hb _ _ ih => exact .field ha hd hb ih
  | inline hd hi _ _ ih => exact .inline hd hi ih
  | spread hd _ ih => exact .spread hd ih

/-- What is below nodes is rewritten as the nodes are. -/
theorem turns_flatMap {nodes nodes' : List FieldNode}
    (h : List.Forall₂ rewriting.TurnsNode nodes nodes') :
    rewriting.Turns (nodes.flatMap (·.selections)) (nodes'.flatMap (·.selections)) := by
  induction h with
  | nil => exact .nil
  | cons hn _ ih =>
    rw [List.flatMap_cons, List.flatMap_cons]
    exact hn.below.append ih

theorem TurnsAmong.of_spreads (h : rewriting.TurnsAmong selections fragments fragments')
    {inner : List Selection}
    (hs : ∀ name, Spreads fragments inner name → Spreads fragments selections name) :
    rewriting.TurnsAmong inner fragments fragments' :=
  fun name hn => h name (hs name hn)

theorem TurnsAmong.tail {selection : Selection}
    (h : rewriting.TurnsAmong (selection :: selections) fragments fragments') :
    rewriting.TurnsAmong selections fragments fragments' :=
  h.of_spreads fun _ hn => hn.mono (List.subset_cons_self _ _)

end Rewriting

/-! ## 2. Collection -/

namespace Scope

variable {scope scope' : Scope} {rewriting : Rewriting} {objectType : Name}
variable {selections selections' : List Selection}

/-- Directives whose conditions are read alike come to the same decision. -/
theorem includes_of_forall₂ {directives directives' : List DirectiveUse}
    (h : List.Forall₂ (fun directive directive' => directive'.name = directive.name ∧
      (directive.name = "skip" ∨ directive.name = "include" →
        ∀ definition, scope.schema.directives.get? directive.name = some definition →
          scope.schema.coerceArguments scope.variableValues definition.arguments
              directive'.arguments =
            scope.schema.coerceArguments scope.variableValues definition.arguments
              directive.arguments)) directives directives') :
    scope.includes directives' = scope.includes directives := by
  induction h with
  | nil => rfl
  | @cons directive directive' _ _ hone _ ih =>
    obtain ⟨hname, harguments⟩ := hone
    have hcondition : directive.name = "skip" ∨ directive.name = "include" →
        scope.condition? directive' = scope.condition? directive := by
      intro hd
      unfold condition?
      rw [hname]
      cases hg : scope.schema.directives.get? directive.name with
      | none => rfl
      | some definition =>
        simp only [Option.bind_eq_bind, Option.bind_some, harguments hd definition hg]
    rw [includes, includes, hname]
    by_cases hs : directive.name = "skip"
    · rw [if_pos hs, if_pos hs, hcondition (Or.inl hs)]
    · by_cases hi : directive.name = "include"
      · rw [if_neg hs, if_pos hi, if_neg hs, if_pos hi, hcondition (Or.inr hi)]
      · rw [if_neg hs, if_neg hi, if_neg hs, if_neg hi, ih]

/-- What has been collected from selections, and from what they are rewritten to. -/
structure Collected.Turns (rewriting : Rewriting) (found found' : Collected) : Prop where
  nodes : List.Forall₂ rewriting.TurnsNode found.nodes found'.nodes
  visited : found'.visited = found.visited

theorem Collected.Turns.visit {found found' : Collected} (h : found.Turns rewriting found')
    (name : Name) :
    Collected.Turns rewriting { found with visited := name :: found.visited }
      { found' with visited := name :: found'.visited } :=
  ⟨h.nodes, congrArg (name :: ·) h.visited⟩

section Pass

variable (hs : scope'.schema = scope.schema)
variable (hd : ∀ directives directives', rewriting.directives directives directives' →
  scope'.includes directives' = scope.includes directives)

include hs hd

theorem counts_of_turns {directives directives' : List DirectiveUse}
    (h : rewriting.directives directives directives') (objectType : Name)
    (condition : Option Name) :
    scope'.counts objectType condition directives' =
      scope.counts objectType condition directives := by
  have ha : scope'.applies objectType = scope.applies objectType :=
    funext (applies_congr hs objectType)
  rw [counts, counts, hd _ _ h, ha]

theorem counted?_of_turns (objectType : Name) {name : Name}
    (h : Option.Rel rewriting.TurnsFragment (Fragment.find? scope.fragments name)
      (Fragment.find? scope'.fragments name)) :
    Option.Rel rewriting.TurnsFragment (scope.counted? objectType name)
      (scope'.counted? objectType name) := by
  unfold counted?
  generalize Fragment.find? scope.fragments name = found at h
  generalize Fragment.find? scope'.fragments name = found' at h
  cases h with
  | none => exact .none
  | @some fragment fragment' h =>
    have hcounts := counts_of_turns hs hd h.directives objectType (some fragment.condition)
    rw [Option.filter_some, Option.filter_some, h.condition, hcounts]
    split
    · exact .some h
    · exact .none

/-- A pass over selections goes along with a pass over what they are rewritten to. -/
theorem Collects.of_turns {found found' after : Collected} {expanded : List Name}
    (h : scope.Collects objectType selections found expanded after)
    (hr : rewriting.Turns selections selections')
    (hf : rewriting.TurnsAmong selections scope.fragments scope'.fragments)
    (ht : found.Turns rewriting found') :
    ∃ after', scope'.Collects objectType selections' found' expanded after' ∧
      after.Turns rewriting after' := by
  -- The induction is on the pass: each of its rules is matched by the same rule for what stands in
  -- the same place, and fragments are rewritten wherever the pass comes to them.
  induction h generalizing selections' found' with
  | nil =>
    cases hr
    exact ⟨found', .nil _, ht⟩
  | @field head below rest found after expanded hi _ ih =>
    cases hr with
    | @field _ arguments directives _ below' _ rest' ha hu hb hr =>
      have hnext : Collected.Turns rewriting
          { found with nodes := found.nodes ++ [{ toFieldHead := head, selections := below }] }
          { found' with nodes := found'.nodes ++
            [{ toFieldHead := { head with arguments, directives }, selections := below' }] } :=
        ⟨List.rel_append ht.nodes (.cons ⟨rfl, rfl, rfl, ha, hb⟩ .nil), ht.visited⟩
      obtain ⟨after', hc, hafter⟩ := ih hr hf.tail hnext
      exact ⟨after', .field ((hd _ _ hu).trans hi) hc, hafter⟩
  | fieldExcluded hi _ ih =>
    cases hr with
    | field _ hu _ hr =>
      obtain ⟨after', hc, hafter⟩ := ih hr hf.tail ht
      exact ⟨after', .fieldExcluded ((hd _ _ hu).trans hi) hc, hafter⟩
  | inline hc _ _ ihi ihr =>
    cases hr with
    | inline hu hi hr =>
      obtain ⟨middle', hcinner, hmiddle⟩ :=
        ihi hi (hf.of_spreads fun _ hn => .inline List.mem_cons_self hn) ht
      obtain ⟨after', hcrest, hafter⟩ := ihr hr hf.tail hmiddle
      exact ⟨after', .inline ((counts_of_turns hs hd hu _ _).trans hc) hcinner hcrest, hafter⟩
  | inlineExcluded hc _ ih =>
    cases hr with
    | inline hu _ hr =>
      obtain ⟨after', hcrest, hafter⟩ := ih hr hf.tail ht
      exact ⟨after', .inlineExcluded ((counts_of_turns hs hd hu _ _).trans hc) hcrest, hafter⟩
  | passed hp _ ih =>
    cases hr with
    | spread hu hr =>
      obtain ⟨after', hcrest, hafter⟩ := ih hr hf.tail ht
      refine ⟨after', .passed ?_ hcrest, hafter⟩
      rwa [ht.visited, hd _ _ hu]
  | @visited name _ _ _ _ _ hn hi hc _ ih =>
    cases hr with
    | spread hu hr =>
      obtain ⟨after', hcrest, hafter⟩ := ih hr hf.tail (ht.visit name)
      have hcounted := counted?_of_turns hs hd objectType (hf name (.spread List.mem_cons_self))
      rw [hc] at hcounted
      refine ⟨after', .visited ?_ ((hd _ _ hu).trans hi) ?_ hcrest, hafter⟩
      · rwa [ht.visited]
      · generalize scope'.counted? objectType name = counted at hcounted
        cases hcounted
        rfl
  | @expanded name _ fragment _ _ _ _ _ _ hn hi hc _ _ ihf ihr =>
    cases hr with
    | spread hu hr =>
      have hcounted := counted?_of_turns hs hd objectType (hf name (.spread List.mem_cons_self))
      rw [hc] at hcounted
      obtain ⟨fragment', hc', hfragment⟩ : ∃ fragment',
          scope'.counted? objectType name = some fragment' ∧
            rewriting.TurnsFragment fragment fragment' := by
        generalize scope'.counted? objectType name = counted at hcounted
        cases hcounted with
        | some h => exact ⟨_, rfl, h⟩
      -- What the fragment spreads, the selections spread through it.
      have hbody := hf.of_spreads fun _ hs =>
        .through (.spread List.mem_cons_self) (counted?_eq_some_iff.mp hc).1 hs
      obtain ⟨middle', hcbody, hmiddle⟩ := ihf hfragment.selections hbody (ht.visit name)
      obtain ⟨after', hcrest, hafter⟩ := ihr hr hf.tail hmiddle
      refine ⟨after', .expanded ?_ ((hd _ _ hu).trans hi) hc' hcbody hcrest, hafter⟩
      rwa [ht.visited]

/-- The groups of selections are rewritten one by one: they keep their keys, and their nodes are
rewritten. -/
theorem collectGroups_of_turns (objectType : Name)
    (hr : rewriting.Turns selections selections')
    (hf : rewriting.TurnsAmong selections scope.fragments scope'.fragments) :
    List.Forall₂ (fun group group' => group.key = group'.key ∧
        List.Forall₂ rewriting.TurnsNode group.nodes group'.nodes)
      (scope.collectGroups objectType selections)
      (scope'.collectGroups objectType selections') := by
  obtain ⟨_, after, h, heq⟩ := @exists_collects scope objectType selections
  have hnone : Collected.Turns rewriting {} {} := ⟨.nil, rfl⟩
  obtain ⟨after', h', hafter⟩ := h.of_turns hs hd hr hf hnone
  rw [collectGroups, collectGroups, heq, h'.collect_eq]
  exact FieldGroup.forall₂_ofNodes (fun _ _ hn => hn.key.symm) hafter.nodes

end Pass

end Scope

/-! ## 3. Rewriting what is executed -/

namespace Environment

variable {σ : Type} {env env' : Environment σ}

/-- Something holds of all fields that are found from a visit on, together with their nodes. -/
def AtFields (env : Environment σ) (start : Visit) (P : FoundField → FieldGroup → Prop) : Prop :=
  ∀ visit, Relation.ReflTransGen env.Visits start visit →
    ∀ group ∈ env.collectGroups visit.type.name visit.selections,
    ∀ found, env.schema.field? visit.type group.first.name = some found → P found group

theorem AtFields.imp {start : Visit} {P Q : FoundField → FieldGroup → Prop}
    (h : env.AtFields start P) (hpq : ∀ found group, P found group → Q found group) :
    env.AtFields start Q :=
  fun visit hv group hg found hf => hpq found group (h visit hv group hg found hf)

/-- Where all fields are of scalar and enum types, there are no other visits to look at. -/
theorem atFields_of_leaves {start : Visit} {P : FoundField → FieldGroup → Prop}
    (h : ∀ group ∈ env.collectGroups start.type.name start.selections,
      ∀ found, env.schema.field? start.type group.first.name = some found →
        P found group ∧ ∃ definition,
          env.schema.types.get? found.definition.type.innermost = some definition ∧
            definition.isInput = true) : env.AtFields start P := by
  intro visit hv group hg found hf
  rcases hv.cases_head with rfl | ⟨next, hnext, -⟩
  · exact (h group hg found hf).1
  · obtain ⟨group', hg', found', hf', _, _, -, hfinds, -⟩ := hnext
    obtain ⟨-, definition, hd, hi⟩ := h group' hg' found' hf'
    rw [hfinds.isInput_eq_false hd] at hi
    cases hi

/-- From a visit on, a rewriting changes neither what directives decide nor how arguments are read
at the fields that are found for them. -/
structure Keeps (env : Environment σ) (rewriting : Rewriting) (start : Visit) : Prop where
  directives : ∀ directives directives', rewriting.directives directives directives' →
    env.includes directives' = env.includes directives
  arguments : env.AtFields start fun found group =>
    ∀ arguments, rewriting.arguments group.first.toFieldHead arguments →
      env.schema.coerceArguments env.variableValues found.definition.arguments arguments =
        env.schema.coerceArguments env.variableValues found.definition.arguments
          group.first.arguments

/-- For an application that does not look at the text, rewritten selections are alike along the
visits. -/
theorem SameButText.alikeAlong (h : env.SameButText env')
    (ho : env.application.IgnoresOperation) (hn : env.application.IgnoresNodes)
    {rewriting : Rewriting} {start : Visit} (hk : env.Keeps rewriting start) :
    env.AlikeAlong env' (fun visit selections' =>
      Relation.ReflTransGen env.Visits start visit ∧
        rewriting.Turns visit.selections selections' ∧
        rewriting.TurnsAmong visit.selections env.fragments env'.fragments) where
  schema := h.schema
  application := h.application
  groups visit selections' hr := by
    obtain ⟨hvisit, hturns, hamong⟩ := hr
    have hd : ∀ directives directives', rewriting.directives directives directives' →
        env'.includes directives' = env.includes directives := fun directives directives' hd =>
      (Scope.includes_congr h.schema h.variableValues directives').trans
        (hk.directives _ _ hd)
    have hgroups :=
      Scope.collectGroups_of_turns h.schema hd visit.type.name hturns hamong
    have hmem : List.Forall₂ (fun group group' =>
        group ∈ env.collectGroups visit.type.name visit.selections ∧ group.key = group'.key ∧
          List.Forall₂ rewriting.TurnsNode group.nodes group'.nodes)
        (env.collectGroups visit.type.name visit.selections)
        (env'.collectGroups visit.type.name selections') := by
      rw [List.forall₂_iff_zip] at hgroups ⊢
      exact ⟨hgroups.1, fun hm => ⟨(List.of_mem_zip hm).1, hgroups.2 hm⟩⟩
    refine hmem.imp fun group group' hg => ?_
    obtain ⟨hg, hkey, hnodes⟩ := hg
    -- The first node of a group is all that resolving looks at.
    have hfirst : rewriting.TurnsNode group.first group'.first := by
      cases hnodes with
      | cons hfirst _ => exact hfirst
    refine ⟨hkey.symm, hfirst.location, hfirst.name, fun found hf => ?_, fun next hnext hs => ?_⟩
    · exact h.resolve_of_coerced ho hn
        (hk.arguments visit hvisit group hg found hf _ hfirst.arguments) visit.type visit.source
    · rw [hs]
      exact ⟨hvisit.tail hnext, Rewriting.turns_flatMap hnodes,
        hamong.of_spreads fun _ => Scope.spreads_of_mem_collectGroups hg⟩

end Environment

namespace Execution

variable {execution : Execution} {schema : Schema} {document document' : Document}
variable {operation operation' : Operation} {supplied : Json.Members}

theorem prepare_of_selects (hs : document.Selects execution.operationName operation)
    (hs' : document'.Selects execution.operationName operation')
    (hroot : schema.rootOf operation' = schema.rootOf operation)
    (hv : schema.coerceVariables operation'.variableDefinitions supplied =
      schema.coerceVariables operation.variableDefinitions execution.variableValues) :
    { execution with variableValues := supplied }.prepare schema document' =
      (execution.prepare schema document).map fun prepared =>
        { prepared with operation := operation' } := by
  have hprepare' := @prepare_eq_of_selects { execution with variableValues := supplied } _ _ hs'
  rw [prepare_eq_of_selects hs, hprepare', hroot]
  simp only [hv]
  cases schema.rootOf operation with
  | error error => rfl
  | ok rootType =>
    cases schema.coerceVariables operation.variableDefinitions execution.variableValues <;> rfl

variable {σ : Type} {application : Application σ}

/-- Operations are executed alike if the variables have the same values and, where the request is
not refused, their selections are alike along the visits. -/
theorem run?_of_alikeAlong (hs : document.Selects execution.operationName operation)
    (hs' : document'.Selects execution.operationName operation')
    (hroot : schema.rootOf operation' = schema.rootOf operation)
    (hv : schema.coerceVariables operation'.variableDefinitions supplied =
      schema.coerceVariables operation.variableDefinitions execution.variableValues)
    (hr : ∀ prepared, execution.prepare schema document = .ok prepared →
      prepared.operation = operation →
      ∃ related, (execution.environment schema application document prepared).AlikeAlong
          (execution.environment schema application document'
            { prepared with operation := operation' }) related ∧
        related (execution.rootVisit prepared) operation'.selections) (depth : Nat) (s : σ) :
    { execution with variableValues := supplied }.run? depth schema application document' s =
      execution.run? depth schema application document s := by
  have hprepare := prepare_of_selects hs hs' hroot hv
  cases hp : execution.prepare schema document with
  | error error =>
    rw [hp] at hprepare
    simp only [run?, hp, hprepare, Except.map]
  | ok prepared =>
    have hsame : prepared.operation = operation :=
      Except.ok.inj ((prepare_eq_ok hp).1.symm.trans (Document.operation?_eq_ok_iff.mpr hs))
    obtain ⟨related, halike, hrelated⟩ := hr prepared hp hsame
    rw [hp] at hprepare
    simp only [run?, hp, hprepare, Except.map]
    exact congrArg (fun run => Option.map _ (run s)) (halike.executeSelections depth hrelated)

/-- For an application that does not look at the text, a rewriting of the operation that is selected
leaves everything as it was, if the variables have the same values and, where the request is not
refused, arguments and directives are read as before. The selections may spread other fragments,
which are rewritten in turn. -/
theorem run?_of_turns (ho : application.IgnoresOperation) (hn : application.IgnoresNodes)
    (hs : document.Selects execution.operationName operation)
    (hs' : document'.Selects execution.operationName operation')
    (hroot : schema.rootOf operation' = schema.rootOf operation)
    (hv : schema.coerceVariables operation'.variableDefinitions supplied =
      schema.coerceVariables operation.variableDefinitions execution.variableValues)
    (hr : ∀ prepared, execution.prepare schema document = .ok prepared →
      ∃ rewriting : Rewriting, rewriting.Turns operation.selections operation'.selections ∧
        rewriting.TurnsAmong operation.selections document.fragments document'.fragments ∧
        (execution.environment schema application document prepared).Keeps rewriting
          (execution.rootVisit prepared)) (depth : Nat) (s : σ) :
    { execution with variableValues := supplied }.run? depth schema application document' s =
      execution.run? depth schema application document s := by
  refine run?_of_alikeAlong hs hs' hroot hv (fun prepared hp hsame => ?_) depth s
  obtain ⟨rewriting, hturns, hamong, hk⟩ := hr prepared hp
  subst hsame
  have hbut : (execution.environment schema application document prepared).SameButText
      (execution.environment schema application document'
        { prepared with operation := operation' }) :=
    ⟨rfl, rfl, rfl, rfl, rfl⟩
  exact ⟨_, hbut.alikeAlong ho hn hk, .refl, hturns, hamong⟩

end Execution

/-! ## 4. Documents -/

/-- From fragments that go along with each other by their names, such fragments are found under each
name. -/
theorem Fragment.find?_of_forall₂ {R : Fragment → Fragment → Prop}
    {fragments fragments' : List Fragment}
    (h : List.Forall₂ (fun fragment fragment' => fragment'.name = fragment.name ∧
      R fragment fragment') fragments fragments') (name : Name) :
    Option.Rel R (find? fragments name) (find? fragments' name) := by
  -- The fragment that counts is the last of its name, so the one found so far goes along.
  suffices hfold : ∀ found found', Option.Rel R found found' →
      Option.Rel R (fragments.foldl (fun found f => if f.name = name then some f else found) found)
        (fragments'.foldl (fun found f => if f.name = name then some f else found) found') from
    hfold none none .none
  induction h with
  | nil => exact fun _ _ hf => hf
  | cons hone _ ih =>
    intro found found' hf
    rw [List.foldl_cons, List.foldl_cons, hone.1]
    refine ih _ _ ?_
    split
    · exact .some hone.2
    · exact hf

namespace Rewriting

/-- An operation is rewritten to another, with other declarations of its variables. -/
structure TurnsOperation (rewriting : Rewriting)
    (declares : VariableDefinition → VariableDefinition → Prop)
    (operation operation' : Operation) : Prop where
  location : operation'.location = operation.location
  kind : operation'.kind = operation.kind
  name : operation'.name = operation.name
  variableDefinitions : List.Forall₂ declares operation.variableDefinitions
    operation'.variableDefinitions
  selections : rewriting.Turns operation.selections operation'.selections

theorem TurnsOperation.rootOf {rewriting : Rewriting}
    {declares : VariableDefinition → VariableDefinition → Prop} {operation operation' : Operation}
    (h : rewriting.TurnsOperation declares operation operation') (schema : Schema) :
    schema.rootOf operation' = schema.rootOf operation := by
  rw [Schema.rootOf, Schema.rootOf, h.kind, h.location]

/-- A document is rewritten to another, operation by operation and fragment by fragment. -/
structure TurnsDocument (rewriting : Rewriting)
    (declares : VariableDefinition → VariableDefinition → Prop)
    (document document' : Document) : Prop where
  operations : List.Forall₂ (rewriting.TurnsOperation declares) document.operations
    document'.operations
  fragments : List.Forall₂ (fun fragment fragment' => fragment'.name = fragment.name ∧
    rewriting.TurnsFragment fragment fragment') document.fragments document'.fragments

namespace TurnsDocument

variable {rewriting : Rewriting} {declares : VariableDefinition → VariableDefinition → Prop}
variable {document document' : Document}

theorem turnsAmong (h : rewriting.TurnsDocument declares document document')
    (selections : List Selection) :
    rewriting.TurnsAmong selections document.fragments document'.fragments :=
  fun name _ => Fragment.find?_of_forall₂ h.fragments name

/-- A request selects operations of which one is rewritten to the other, or none in either document,
with the same error. -/
theorem selects (h : rewriting.TurnsDocument declares document document') (name : Option String) :
    (∃ error, document.operation? name = .error error ∧
        document'.operation? name = .error error) ∨
      ∃ operation operation', document.Selects name operation ∧
        document'.Selects name operation' ∧
        rewriting.TurnsOperation declares operation operation' := by
  simp only [← Document.operation?_eq_ok_iff]
  exact Document.operation?_of_forall₂ (fun _ _ ht => ht.name) h.operations name

end TurnsDocument

end Rewriting

namespace Execution

variable {execution : Execution} {schema : Schema} {document document' : Document}
variable {rewriting : Rewriting} {declares : VariableDefinition → VariableDefinition → Prop}
variable {supplied : Json.Members}

/-- What is settled before execution begins is the same for a rewritten document, if the variables
of the operation have the same values. -/
theorem prepare_of_turnsDocument (hd : rewriting.TurnsDocument declares document document')
    (hv : ∀ operation operation', document.Selects execution.operationName operation →
      rewriting.TurnsOperation declares operation operation' →
      schema.coerceVariables operation'.variableDefinitions supplied =
        schema.coerceVariables operation.variableDefinitions execution.variableValues) :
    (∃ error, execution.prepare schema document = .error error ∧
        { execution with variableValues := supplied }.prepare schema document' = .error error) ∨
      ∃ prepared operation', execution.prepare schema document = .ok prepared ∧
        { execution with variableValues := supplied }.prepare schema document' =
          .ok { prepared with operation := operation' } := by
  rcases hd.selects execution.operationName with
    ⟨error, he, he'⟩ | ⟨operation, operation', hs, hs', ht⟩
  · exact Or.inl ⟨error, prepare_of_operation?_error he, prepare_of_operation?_error he'⟩
  · have hprepare :=
      prepare_of_selects hs hs' (ht.rootOf schema) (hv operation operation' hs ht)
    cases hp : execution.prepare schema document with
    | error error =>
      rw [hp] at hprepare
      exact Or.inl ⟨error, rfl, hprepare⟩
    | ok prepared =>
      rw [hp] at hprepare
      exact Or.inr ⟨prepared, operation', rfl, hprepare⟩

variable {σ : Type} {application : Application σ}

/-- For an application that does not look at the text, a rewritten document is executed as the
document is, if the variables have the same values and arguments and directives are read as
before. -/
theorem run?_of_turnsDocument (ho : application.IgnoresOperation) (hn : application.IgnoresNodes)
    (hd : rewriting.TurnsDocument declares document document')
    (hv : ∀ operation operation', document.Selects execution.operationName operation →
      rewriting.TurnsOperation declares operation operation' →
      schema.coerceVariables operation'.variableDefinitions supplied =
        schema.coerceVariables operation.variableDefinitions execution.variableValues)
    (hk : ∀ prepared, execution.prepare schema document = .ok prepared →
      (execution.environment schema application document prepared).Keeps rewriting
        (execution.rootVisit prepared)) (depth : Nat) (s : σ) :
    { execution with variableValues := supplied }.run? depth schema application document' s =
      execution.run? depth schema application document s := by
  rcases hd.selects execution.operationName with
    ⟨error, he, he'⟩ | ⟨operation, operation', hs, hs', ht⟩
  · have hp : execution.prepare schema document = .error error := prepare_of_operation?_error he
    have hp' : { execution with variableValues := supplied }.prepare schema document' =
        .error error :=
      prepare_of_operation?_error he'
    simp only [run?, hp, hp']
  · exact run?_of_turns ho hn hs hs' (ht.rootOf schema) (hv operation operation' hs ht)
      (fun prepared hp =>
        ⟨rewriting, ht.selections, hd.turnsAmong operation.selections, hk prepared hp⟩) depth s

end Execution

end GraphQL
