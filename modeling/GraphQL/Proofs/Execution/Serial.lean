import GraphQL.Proofs.Execution.Congruence
import GraphQL.Proofs.Execution.Expansion
import GraphQL.Proofs.Execution.Termination

/-!
# `GraphQL/Proofs/Execution/Serial.lean` — one root field after the other

The fields of a mutation are for their effects, so it matters in which order they run, and that one
has come to its end, with all that is selected below it, before the next begins. That order is the
order of the response keys. `Execution.returns_serially` says it without a look at the inside of an
execution: an operation comes to what the operations with one of its root fields each come to, run
one after the other on one state of the application (`Serially`). Each of these resolves its field
once, before anything below it (`Environment.RunsGroup`).

Nothing in here is particular to mutations, because queries are executed in the same way.
-/

set_option autoImplicit false

namespace GraphQL

/-! ## 1. What is collected is included -/

namespace Scope

variable {scope : Scope} {objectType : Name}

/-- No field node was collected that its directives exclude. -/
def Collected.Included (scope : Scope) (found : Collected) : Prop :=
  ∀ node ∈ found.nodes, scope.includes node.directives = true

section Expand

variable {expand : List Selection → Collected → Collected}

mutual

theorem collectOne_included (he : ∀ selections found, Collected.Included scope found →
      Collected.Included scope (expand selections found)) :
    ∀ (selection : Selection) (found : Collected), Collected.Included scope found →
      Collected.Included scope (scope.collectOne objectType expand selection found)
  | .field head selections, found, h => by
    rw [collectOne]
    split
    · next hinc =>
      intro node hm
      rcases List.mem_append.mp hm with hm | hm
      · exact h node hm
      · cases List.mem_singleton.mp hm
        exact hinc
    · exact h
  | .inline condition directives selections, found, h => by
    rw [collectOne]
    split
    · exact collectAll_included he selections found h
    · exact h
  | .spread name directives, found, h => by
    rw [collectOne]
    split
    · exact h
    · dsimp only
      split
      · exact h
      · split
        · exact he _ _ h
        · exact h

theorem collectAll_included (he : ∀ selections found, Collected.Included scope found →
      Collected.Included scope (expand selections found)) :
    ∀ (selections : List Selection) (found : Collected), Collected.Included scope found →
      Collected.Included scope (scope.collectAll objectType expand selections found)
  | [], _, h => h
  | selection :: rest, found, h =>
    collectAll_included he rest _ (collectOne_included he selection found h)

end

end Expand

theorem collectWithin_included (depth : Nat) (selections : List Selection) {found : Collected}
    (h : Collected.Included scope found) :
    Collected.Included scope (scope.collectWithin objectType depth selections found) := by
  induction depth generalizing selections found with
  | zero => exact collectAll_included (fun _ _ h => h) selections found h
  | succ depth ih =>
    exact collectAll_included (fun selections _ h => ih selections h) selections found h

theorem includes_of_mem_collect {selections : List Selection} {node : FieldNode}
    (hm : node ∈ scope.collect objectType selections) : scope.includes node.directives = true := by
  have hnone : Collected.Included scope {} := fun _ h => by cases h
  exact collectWithin_included scope.fragments.length selections hnone node hm

end Scope

/-! ## 2. A group as a text of its own -/

/-- A text that selects the nodes of a group and nothing else. -/
def FieldGroup.text (group : FieldGroup) : List Selection :=
  group.nodes.map fun node => .field node.toFieldHead node.selections

theorem FieldGroup.foldl_add {key : Name} (first : FieldNode) (more nodes : List FieldNode)
    (hk : ∀ node ∈ nodes, node.key = key) :
    nodes.foldl add [{ key, first, more }] = [{ key, first, more := more ++ nodes }] := by
  induction nodes generalizing more with
  | nil => rw [List.foldl_nil, List.append_nil]
  | cons node rest ih =>
    rw [List.forall_mem_cons] at hk
    rw [List.foldl_cons, add, if_pos hk.1.symm, ih _ hk.2, List.append_assoc]
    rfl

/-- The nodes of a group make up that group. -/
theorem FieldGroup.ofNodes_nodes {group : FieldGroup}
    (hk : ∀ node ∈ group.nodes, node.key = group.key) : ofNodes group.nodes = [group] := by
  obtain ⟨key, first, more⟩ := group
  have hkeys : first.key = key ∧ ∀ node ∈ more, node.key = key := List.forall_mem_cons.mp hk
  show (first :: more).foldl add [] = _
  rw [List.foldl_cons, add, hkeys.1, foldl_add first [] more hkeys.2, List.nil_append]

namespace Scope

variable {scope : Scope} {objectType : Name}

theorem collect_fields {nodes : List FieldNode}
    (hinc : ∀ node ∈ nodes, scope.includes node.directives = true) :
    scope.collect objectType (nodes.map fun node => .field node.toFieldHead node.selections) =
      nodes := by
  -- Without spreads any depth will do, and the induction needs all that has been found before.
  suffices h : ∀ depth found, (scope.collectWithin objectType depth
      (nodes.map fun node => .field node.toFieldHead node.selections) found).nodes =
        found.nodes ++ nodes from h scope.fragments.length {}
  intro depth found
  induction nodes generalizing found with
  | nil => rw [List.map_nil, collectWithin_nil, List.append_nil]
  | cons node rest ih =>
    rw [List.forall_mem_cons] at hinc
    rw [List.map_cons, collectWithin_cons, collectWithin_field, if_pos hinc.1, ih hinc.2,
      List.append_assoc]
    rfl

/-- Collecting from the text of a collected group gives the group again. -/
theorem collectGroups_text {selections : List Selection} {group : FieldGroup}
    (hg : group ∈ scope.collectGroups objectType selections) :
    scope.collectGroups objectType group.text = [group] := by
  have hnodes := FieldGroup.nodes_of_mem_ofNodes hg
  have hinc : ∀ node ∈ group.nodes, scope.includes node.directives = true := by
    intro node hm
    rw [hnodes] at hm
    exact includes_of_mem_collect (List.mem_of_mem_filter hm)
  have hkey : ∀ node ∈ group.nodes, node.key = group.key := by
    intro node hm
    rw [hnodes] at hm
    exact of_decide_eq_true (List.mem_filter.mp hm).2
  rw [collectGroups, FieldGroup.text, collect_fields hinc, FieldGroup.ofNodes_nodes hkey]

end Scope

/-! ## 3. Groups, one after the other -/

/-- An outcome after members and errors that have come before. -/
def Outcome.after (others : Outcome Json.Members) (members : Json.Members)
    (errors : List ErrorReport) : Outcome Json.Members where
  result := others.result.map (members ++ ·)
  errors := errors ++ others.errors

namespace Environment

variable {σ : Type} {env : Environment σ}
variable {execute : ObjectType → Value → List Selection → Run σ Json.Members}
variable {type : ObjectType} {source : Value}

theorem executeGroups_cons (group : FieldGroup) (rest : List FieldGroup) :
    env.executeGroups execute type source (group :: rest) = do
      let members ← env.executeGroups execute type source [group]
      let others ← env.executeGroups execute type source rest
      return members ++ others := by
  simp only [executeGroups, bind_assoc, pure_bind]
  congr 1
  funext data
  cases data with
  | none => rfl
  | some data => rfl

/-- Groups come to something if the first group fails, or if it comes to members and the others come
to something after it. -/
theorem executeGroups_eq_some {group : FieldGroup} {rest : List FieldGroup} {s s' : σ}
    {outcome : Outcome Json.Members}
    (h : env.executeGroups execute type source (group :: rest) s = some (outcome, s')) :
    (outcome.result = none ∧
        env.executeGroups execute type source [group] s = some (outcome, s')) ∨
      ∃ members errors t others,
        env.executeGroups execute type source [group] s =
          some ({ result := some members, errors }, t) ∧
        env.executeGroups execute type source rest t = some (others, s') ∧
        outcome = others.after members errors := by
  rw [executeGroups_cons] at h
  rcases Run.bind_eq_some h with ⟨errors, hg, rfl⟩ | ⟨members, errors, t, _, hg, hs, rfl⟩
  · exact Or.inl ⟨rfl, hg⟩
  · rcases Run.bind_eq_some hs with ⟨errors', hr, rfl⟩ | ⟨others, errors', _, _, hr, hp, rfl⟩
    · exact Or.inr ⟨members, errors, t, _, hg, hr, rfl⟩
    · cases hp
      rw [List.append_nil]
      exact Or.inr ⟨members, errors, t, _, hg, hr, rfl⟩

theorem executeGroups_of_members {group : FieldGroup} {rest : List FieldGroup} {s t s' : σ}
    {members : Json.Members} {errors : List ErrorReport} {others : Outcome Json.Members}
    (hg : env.executeGroups execute type source [group] s =
      some ({ result := some members, errors }, t))
    (hr : env.executeGroups execute type source rest t = some (others, s')) :
    env.executeGroups execute type source (group :: rest) s =
      some (others.after members errors, s') := by
  obtain ⟨result, errors'⟩ := others
  rw [executeGroups_cons, Run.bind_apply, Run.bind, hg]
  dsimp only
  rw [Run.bind_apply, Run.bind, hr]
  cases result with
  | none => rfl
  | some others => simp [Run.pure_apply, Outcome.after]

theorem executeGroups_of_failure {group : FieldGroup} {s s' : σ} {outcome : Outcome Json.Members}
    (hf : outcome.result = none)
    (hg : env.executeGroups execute type source [group] s = some (outcome, s'))
    (rest : List FieldGroup) :
    env.executeGroups execute type source (group :: rest) s = some (outcome, s') := by
  obtain ⟨result, errors⟩ := outcome
  cases hf
  rw [executeGroups_cons, Run.bind_apply, Run.bind, hg]

/-- What the answer of a resolver is completed to. -/
def completeAnswer (env : Environment σ)
    (execute : ObjectType → Value → List Selection → Run σ Json.Members) (group : FieldGroup)
    (definition : FieldDefinition) (answer : Except FieldError Value) : Run σ Json :=
  let run : Run σ Json :=
    match answer with
    | .ok value => complete env.schema env.application execute group definition.type value
    | .error error => Run.fail (group.report error.message error.extensions)
  (run.under (.field group.key)).absorb (!definition.type.required) .null

/-- A field is resolved, and after that nothing runs but the completion of the answer. -/
theorem executeFound_apply {group : FieldGroup} {found : FoundField}
    {answer : Except FieldError Value} {s t : σ}
    (hr : env.resolve found (env.resolveInfo type source group found.definition) s = (answer, t)) :
    env.executeFound execute type source group found s =
      env.completeAnswer execute group found.definition answer t := by
  -- Resolving cannot fail the run, a failed resolver being an answer like any other.
  have hstate : ∀ next : Except FieldError Value → Run σ Json,
      (Run.ofState
          (env.resolve found (env.resolveInfo type source group found.definition)) >>= next) s =
        next answer t := by
    intro next
    rw [Run.bind_apply]
    unfold Run.bind Run.ofState
    rw [hr]
    dsimp only
    cases next answer t with
    | none => rfl
    | some after => rfl
  unfold executeFound completeAnswer Run.absorb Run.under
  dsimp only
  cases answer with
  | error error => rw [hstate]
  | ok value => rw [hstate]

/-- How a group of field nodes is executed by itself. Nothing comes of a field that the type does
not have. Any other is resolved, once, in the state that is there at the beginning, and all that is
selected below it runs in the completion of the answer. -/
inductive RunsGroup (env : Environment σ)
    (execute : ObjectType → Value → List Selection → Run σ Json.Members) (type : ObjectType)
    (source : Value) (group : FieldGroup) (s : σ) : Outcome Json.Members → σ → Prop where
  | missing (hf : env.schema.field? type group.first.name = none) :
    RunsGroup env execute type source group s { result := some [] } s
  | resolved {found : FoundField} {answer : Except FieldError Value} {t s' : σ}
    {outcome : Outcome Json} (hf : env.schema.field? type group.first.name = some found)
    (hr : env.resolve found (env.resolveInfo type source group found.definition) s = (answer, t))
    (hc : env.completeAnswer execute group found.definition answer t = some (outcome, s')) :
    RunsGroup env execute type source group s (outcome.map fun data => [(group.key, data)]) s'

theorem runsGroup {group : FieldGroup} {s s' : σ} {outcome : Outcome Json.Members}
    (h : env.executeGroups execute type source [group] s = some (outcome, s')) :
    env.RunsGroup execute type source group s outcome s' := by
  unfold executeGroups executeGroups executeGroup at h
  cases hf : env.schema.field? type group.first.name with
  | none =>
    rw [hf] at h
    cases h
    exact .missing hf
  | some found =>
    rw [hf] at h
    simp only [bind_assoc, pure_bind] at h
    obtain ⟨answer, t, hr⟩ : ∃ answer t, env.resolve found
        (env.resolveInfo type source group found.definition) s = (answer, t) := ⟨_, _, rfl⟩
    rcases Run.bind_eq_some h with ⟨errors, hc, rfl⟩ | ⟨data, errors, _, _, hc, hp, rfl⟩
    · rw [executeFound_apply hr] at hc
      exact .resolved hf hr hc
    · rw [executeFound_apply hr] at hc
      cases hp
      rw [List.append_nil]
      exact .resolved hf hr hc

end Environment

/-! ## 4. Responses, one after the other -/

/-- The data of two responses together: all members of both, or null if one of them is null. -/
def ResponseData.followedBy : ResponseData → ResponseData → ResponseData
  | .object members, .object others => .object (members ++ others)
  | _, _ => .null

/-- Two responses together. -/
def Response.followedBy (first second : Response) : Response where
  errors := first.errors ++ second.errors
  data := first.data.followedBy second.data

/-- Runs of several groups, one after the other on one state. A run that leaves null for data is
the last one. -/
inductive Serially {σ : Type} (run : FieldGroup → σ → Response → σ → Prop) :
    List FieldGroup → σ → Response → σ → Prop where
  | done {s : σ} : Serially run [] s { data := .object [] } s
  | failed {group : FieldGroup} {rest : List FieldGroup} {s s' : σ} {response : Response}
    (hr : run group s response s') (hn : response.data = .null) :
    Serially run (group :: rest) s response s'
  | next {group : FieldGroup} {rest : List FieldGroup} {s t s' : σ} {first others : Response}
    {members : Json.Members} (hr : run group s first t) (hd : first.data = .object members)
    (ho : Serially run rest t others s') :
    Serially run (group :: rest) s (first.followedBy others) s'

theorem Serially.mono {σ : Type} {run run' : FieldGroup → σ → Response → σ → Prop}
    {groups : List FieldGroup} {s s' : σ} {response : Response}
    (h : Serially run groups s response s')
    (hr : ∀ group ∈ groups, ∀ s response s', run group s response s' → run' group s response s') :
    Serially run' groups s response s' := by
  induction h with
  | done => exact .done
  | failed hrun hn => exact .failed (hr _ List.mem_cons_self _ _ _ hrun) hn
  | next hrun hd _ ih =>
    rw [List.forall_mem_cons] at hr
    exact .next (hr.1 _ _ _ hrun) hd (ih hr.2)

/-- Groups are executed one after the other. -/
theorem Environment.serially_executeGroups {σ : Type} {env : Environment σ}
    {execute : ObjectType → Value → List Selection → Run σ Json.Members} {type : ObjectType}
    {source : Value} {groups : List FieldGroup} {s s' : σ} {outcome : Outcome Json.Members}
    (h : env.executeGroups execute type source groups s = some (outcome, s')) :
    Serially (fun group s response s' => ∃ outcome, Execution.respond outcome = response ∧
        env.executeGroups execute type source [group] s = some (outcome, s'))
      groups s (Execution.respond outcome) s' := by
  induction groups generalizing s outcome with
  | nil =>
    cases h
    exact .done
  | cons group rest ih =>
    rcases Environment.executeGroups_eq_some h with
      ⟨hn, hg⟩ | ⟨members, errors, t, others, hg, hr, rfl⟩
    · exact .failed ⟨_, rfl, hg⟩ (by rw [Execution.respond, hn])
    · have hnext := Serially.next ⟨_, rfl, hg⟩ rfl (ih hr)
      obtain ⟨result, errors'⟩ := others
      cases result with
      | none => exact hnext
      | some others => exact hnext

/-! ## 5. An operation with one root field -/

/-- The document in which an operation is left alone, and of its selections one group of nodes. -/
def Document.selecting (document : Document) (operation : Operation) (group : FieldGroup) :
    Document :=
  { document with operations := [{ operation with selections := group.text }] }

theorem Document.operation?_selecting {document : Document} {name : Option String}
    {operation : Operation} (h : document.operation? name = .ok operation) (group : FieldGroup) :
    (document.selecting operation group).operation? name =
      .ok { operation with selections := group.text } := by
  cases name with
  | none => rfl
  | some name =>
    have hname : operation.name = some name := by
      unfold operation? at h
      dsimp only at h
      split at h
      · next hf =>
        cases h
        simpa using List.find?_some hf
      · cases h
    unfold operation? selecting
    simp only [List.find?_cons, hname, decide_true]

/-- Another operation makes no difference to an application that does not look at it. -/
theorem Environment.alike_operation {σ : Type} {env : Environment σ}
    (ho : env.application.IgnoresOperation) (operation : Operation) :
    env.Alike { env with operation } Eq where
  schema := rfl
  application := rfl
  groups type selections selections' he := by
    subst he
    rw [List.forall₂_same]
    intro group _
    refine ⟨rfl, rfl, rfl, fun found source => ?_, rfl⟩
    let info := env.resolveInfo type source group found.definition
    show env.resolve found { info with operation, nodes := info.nodes } = env.resolve found info
    apply resolve_text
    intro resolver hr
    exact ho _ _ resolver hr info operation

namespace Execution

variable {execution : Execution} {schema : Schema} {document : Document} {prepared : Prepared}
variable {σ : Type} {application : Application σ}

theorem prepare_selecting (hp : execution.prepare schema document = .ok prepared)
    (group : FieldGroup) :
    execution.prepare schema (document.selecting prepared.operation group) =
      .ok { prepared with operation := { prepared.operation with selections := group.text } } := by
  obtain ⟨ho, hr, hv⟩ := prepare_eq_ok hp
  have hroot : schema.rootOf { prepared.operation with selections := group.text } =
      .ok prepared.rootType := hr
  rw [prepare, Document.operation?_selecting ho]
  simp only [bind, Except.bind, hroot, hv]
  rfl

/-- The operation with one of the root fields executes the group of that field. -/
theorem run?_selecting (hp : execution.prepare schema document = .ok prepared)
    (ho : application.IgnoresOperation) {group : FieldGroup}
    (hg : group ∈ (prepared.scope schema document).collectGroups prepared.rootType.name
      prepared.operation.selections) (depth : Nat) (s : σ) :
    let env := execution.environment schema application document prepared
    execution.run? (depth + 1) schema application
        (document.selecting prepared.operation group) s =
      (env.executeGroups (env.executeSelections depth) prepared.rootType execution.root [group]
        s).map fun (outcome, s') => (respond outcome, s') := by
  intro env
  have halike := env.alike_operation ho { prepared.operation with selections := group.text }
  have hrun := halike.executeSelections (depth + 1) (Eq.refl group.text) prepared.rootType
    execution.root
  have hgroups : env.collectGroups prepared.rootType.name group.text = [group] :=
    Scope.collectGroups_text hg
  rw [run?, prepare_selecting hp]
  show Option.map _ (Environment.executeSelections _ (depth + 1) _ _ group.text s) = _
  refine congrArg (Option.map _) ((congrFun hrun s).trans ?_)
  rw [Environment.executeSelections, hgroups]

/-- An operation is executed as the operations with one of its root fields are. -/
theorem exists_serially (hp : execution.prepare schema document = .ok prepared)
    (hacyclic : Acyclic document.fragments) (ho : application.IgnoresOperation) (s : σ) :
    ∃ response s', execution.Returns schema application document s response s' ∧
      Serially (fun group =>
          execution.Returns schema application (document.selecting prepared.operation group))
        ((prepared.scope schema document).collectGroups prepared.rootType.name
          prepared.operation.selections) s response s' := by
  obtain ⟨response, s', depth, hr⟩ := exists_returns
    (fun operation _ => hacyclic.wellNested operation.selections) schema application s
  refine ⟨response, s', ⟨depth, hr⟩, ?_⟩
  rw [run?, hp] at hr
  obtain ⟨⟨outcome, _⟩, he, hout⟩ := Option.map_eq_some_iff.mp hr
  cases hout
  cases depth with
  | zero => cases he
  | succ depth =>
    -- Each group runs below the root, and the operation that selects it is one level deeper.
    refine (Environment.serially_executeGroups he).mono ?_
    rintro group hg t _ t' ⟨outcome, rfl, hgroup⟩
    exact ⟨depth + 1, by rw [run?_selecting hp ho hg, hgroup, Option.map_some]⟩

/-- An operation with one root field resolves it once, and then completes the answer. -/
theorem exists_runsGroup (hp : execution.prepare schema document = .ok prepared)
    (hacyclic : Acyclic document.fragments) (ho : application.IgnoresOperation)
    {group : FieldGroup} (hg : group ∈ (prepared.scope schema document).collectGroups
      prepared.rootType.name prepared.operation.selections) (s : σ) :
    let env := execution.environment schema application document prepared
    ∃ depth outcome s',
      execution.Returns schema application (document.selecting prepared.operation group) s
        (respond outcome) s' ∧
      env.RunsGroup (env.executeSelections depth) prepared.rootType execution.root group s outcome
        s' := by
  intro env
  have hn : ∀ operation, (document.selecting prepared.operation group).operation?
      execution.operationName = .ok operation →
      WellNested document.fragments operation.selections :=
    fun operation _ => hacyclic.wellNested operation.selections
  obtain ⟨response, s', depth, hr⟩ := exists_returns hn schema application s
  cases depth with
  | zero =>
    rw [run?, prepare_selecting hp] at hr
    cases hr
  | succ depth =>
    have hgroup := hr
    rw [run?_selecting hp ho hg, Option.map_eq_some_iff] at hgroup
    obtain ⟨⟨outcome, _⟩, he, hout⟩ := hgroup
    cases hout
    exact ⟨depth, outcome, s', ⟨depth + 1, hr⟩, Environment.runsGroup he⟩

/-- An operation is executed as the operations with one of its root fields are, one after the other:
the members of their data and their errors come in order, and the first whose data is null is the
last to run and makes all data null. Each of them resolves its field once, and then completes the
answer, before the next one begins. -/
theorem returns_serially (hp : execution.prepare schema document = .ok prepared)
    (hacyclic : Acyclic document.fragments) (ho : application.IgnoresOperation) (s : σ) :
    let env := execution.environment schema application document prepared
    let groups := env.collectGroups prepared.rootType.name prepared.operation.selections
    let run := fun group : FieldGroup =>
      execution.Returns schema application (document.selecting prepared.operation group)
    (∃ response s', execution.Returns schema application document s response s' ∧
        Serially run groups s response s') ∧
      ∀ group ∈ groups, ∀ t, ∃ depth outcome t', run group t (respond outcome) t' ∧
        env.RunsGroup (env.executeSelections depth) prepared.rootType execution.root group t outcome
          t' := by
  intro env groups run
  constructor
  · exact exists_serially hp hacyclic ho s
  · intro group hg t
    exact exists_runsGroup hp hacyclic ho hg t

end Execution

/-! ## 6. A mutation to look at -/

namespace Sample

def countingDescription : SchemaDescription where
  query := some "Query"
  mutation := some "Mutation"
  types := [
    .object { name := "Query", fields := .ofList [{ name := "count", type := .named "Int" true }] },
    .object {
      name := "Mutation", fields := .ofList [{ name := "next", type := .named "Int" true }] }]

theorem isSome_build_counting : countingDescription.build.toOption.isSome = true := by
  decide

def countingSchema : Schema :=
  countingDescription.build.toOption.get isSome_build_counting

theorem isSome_mutation : countingSchema.mutation.isSome = true := by decide

/-- The state counts how often a resolver has run, and each resolver answers with the count. -/
def counting : Application Int64 where
  resolver _ _ := some fun _ count => (.ok (.int (count + 1)), count + 1)

def nextFragment : Fragment where
  name := "Next"
  condition := "Mutation"
  directives := []
  selections := [field none "next" []]

/-- A mutation in which three nodes make up two root fields. -/
def countingOperation : Operation :=
  { operation with
    kind := .mutation
    selections := [field (some "first") "next" [], .spread "Next" [], field none "next" []] }

def countingDocument : Document where
  operations := [countingOperation]
  fragments := [nextFragment]

def countingPrepared : Prepared where
  operation := countingOperation
  rootType := countingSchema.mutation.get isSome_mutation
  variableValues := []

theorem rootOf_counting :
    countingSchema.rootOf countingOperation = .ok countingPrepared.rootType := by
  have hm : countingSchema.mutation = some countingPrepared.rootType :=
    (Option.some_get isSome_mutation).symm
  have hk : countingOperation.kind = .mutation := rfl
  simp only [Schema.rootOf, hk, hm]

theorem prepare_counting :
    Execution.prepare {} countingSchema countingDocument = .ok countingPrepared := by
  have ho : countingDocument.operation? none = .ok countingOperation := rfl
  unfold Execution.prepare
  simp only [ho, rootOf_counting, bind, Except.bind]
  rfl

theorem acyclic_countingDocument : Acyclic countingDocument.fragments := by
  apply Acyclic.of_leaf
  intro fragment hm
  cases List.mem_singleton.mp hm
  exact ⟨_, rfl⟩

theorem ignoresOperation_counting : counting.IgnoresOperation := by
  intro _ _ _ h _ _
  cases h
  rfl

end Sample

theorem Execution.returns_serially_sample :
    Execution.prepare {} Sample.countingSchema Sample.countingDocument =
        .ok Sample.countingPrepared ∧
      Acyclic Sample.countingDocument.fragments ∧ Sample.counting.IgnoresOperation ∧
      ∃ response count, Execution.Returns {} Sample.countingSchema Sample.counting
          Sample.countingDocument 0 response count ∧
        Serially (fun group => Execution.Returns {} Sample.countingSchema Sample.counting
            (Sample.countingDocument.selecting Sample.countingOperation group))
          ((Sample.countingPrepared.scope Sample.countingSchema
            Sample.countingDocument).collectGroups Sample.countingPrepared.rootType.name
              Sample.countingOperation.selections)
          0 response count :=
  ⟨Sample.prepare_counting, Sample.acyclic_countingDocument, Sample.ignoresOperation_counting,
    (returns_serially Sample.prepare_counting Sample.acyclic_countingDocument
      Sample.ignoresOperation_counting 0).1⟩

/-- Three nodes, and two resolvers that ran. -/
example : (Execution.run? {} 1 Sample.countingSchema Sample.counting Sample.countingDocument 0).map
    (fun ran => (ran.1.data.members?.map (·.map (·.1)), ran.2)) =
      some (some ["first", "next"], 2) := by
  decide

end GraphQL
