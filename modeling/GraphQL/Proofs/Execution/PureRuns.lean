import GraphQL.Execution
import GraphQL.Introspection.MetaTypes
import GraphQL.Proofs.Execution.Expansion
import GraphQL.Proofs.Execution.Grouping
import GraphQL.Schema.Scalar

/-!
# `GraphQL/Proofs/Execution/PureRuns.lean` — executions without effects

Where nothing fails and no behaviour of the application is asked for, each part of an execution is a
run that is `pure`, and what an execution comes to is proved by equations between runs. Here is what
completes and what a selection set comes to under that assumption: nulls, leaves of the built-in
types, lists, objects, and selections that are all fields with keys of their own.
-/

set_option autoImplicit false

namespace GraphQL

@[simp] theorem Run.ofState_pure {σ α : Type} (a : α) :
    Run.ofState (pure a : StateM σ α) = pure a := rfl

theorem Run.ofState_bind_apply {σ α β : Type} (action : StateM σ α) (next : α → Run σ β) (s : σ) :
    (ofState action >>= next) s = next (action s).1 (action s).2 := by
  show Run.bind (ofState action) next s = _
  rcases haction : action s with ⟨a, after⟩
  simp only [Run.bind, ofState, haction]
  cases next a after with
  | none => rfl
  | some ended => rfl

/-- What follows on behaviour of the application depends on what that can come to. -/
theorem Run.ofState_bind_congr {σ α β : Type} {action : StateM σ α} {next next' : α → Run σ β}
    (h : ∀ s, next (action s).1 = next' (action s).1) :
    (ofState action >>= next) = ofState action >>= next' := by
  funext s
  rw [ofState_bind_apply, ofState_bind_apply, h]

/-- What completion at an abstract type does with the object type that is found. -/
def completeFound {σ : Type} (execute : ObjectType → Value → List Selection → Run σ Json.Members)
    (group : FieldGroup) (value : Value) : Except CompletionFault (Option ObjectType) → Run σ Json
  | .ok (some type) => completeObject execute group type value
  | .ok none => return .null
  | .error fault => Run.failWith group fault

section Completion

variable {σ : Type} {schema : Schema} {application : Application σ}
variable {execute : ObjectType → Value → List Selection → Run σ Json.Members} {group : FieldGroup}

theorem completeNamed_abstract {name : Name} {type : TypeDefinition}
    (ht : schema.types.get? name = some type) (ha : type.isAbstract = true) (value : Value) :
    completeNamed schema application execute group name value =
      Run.ofState (objectTypeOf schema application name value) >>=
        completeFound execute group value := by
  unfold completeNamed
  rw [ht]
  cases type with
  | interface type => rfl
  | union type => rfl
  | _ => cases ha

theorem complete_null {type : TypeRef} (hn : type.required = false) :
    complete schema application execute group type .null = pure .null := by
  cases type with
  | named name required => simp [complete, excludeNull, hn]
  | list item required => simp [complete, excludeNull, hn]

theorem complete_object_bind {name : Name} {required : Bool} {type : ObjectType} {value : Value}
    (ht : schema.types.get? name = some (.object type)) (hv : value.isNull = false) :
    complete schema application execute group (.named name required) value =
      (do return .object (← execute type value group.selections)) := by
  rw [complete, hv, completeNamed, ht]
  simp [excludeNull, completeObject, Json.isNull]

theorem complete_object {name : Name} {required : Bool} {type : ObjectType} {value : Value}
    {members : Json.Members} (ht : schema.types.get? name = some (.object type))
    (hv : value.isNull = false) (he : execute type value group.selections = pure members) :
    complete schema application execute group (.named name required) value =
      pure (.object members) := by
  rw [complete_object_bind ht hv, he, pure_bind]

theorem complete_list_bind {item : TypeRef} {required : Bool} (items : List Value) :
    complete schema application execute group (.list item required) (.list items) =
      (do return .array (← completeItems
        (complete schema application execute group item) item 0 items)) := by
  rw [complete]
  simp [excludeNull, Json.isNull]

theorem complete_string (hs : schema.types.get? "String" = some (.scalar Scalar.string))
    (required : Bool) (text : String) :
    complete schema application execute group (.named "String" required) (.string text) =
      pure (.string text) := by
  rw [complete, completeNamed, hs]
  simp [excludeNull, leafData, Scalar.string, Value.isNull, Value.toJson, Json.isNull]

theorem complete_boolean (hb : schema.types.get? "Boolean" = some (.scalar Scalar.boolean))
    (required b : Bool) :
    complete schema application execute group (.named "Boolean" required) (.boolean b) =
      pure (.boolean b) := by
  rw [complete, completeNamed, hb]
  simp [excludeNull, leafData, Scalar.boolean, Value.isNull, Value.toJson, Json.isNull]

theorem complete_kind
    (hk : schema.types.get? "__TypeKind" = some (.enum Introspection.typeKindType))
    (required : Bool) (kind : Introspection.TypeKind) :
    complete schema application execute group (.named "__TypeKind" required) kind.value =
      pure (.string kind.name) := by
  have hv : kind.value.isNull = false := by cases kind <;> rfl
  have hc : Introspection.typeKindType.coerce kind.value = some (.string kind.name) := by
    cases kind <;> rfl
  rw [complete, completeNamed, hk]
  simp [excludeNull, leafData, hv, hc, Value.toJson, Json.isNull]

theorem completeItems_eq_pure {run : Value → Run σ Json} {item : TypeRef} {α : Type}
    {value : α → Value} {data : α → Json} {all : List α}
    (h : ∀ a ∈ all, run (value a) = pure (data a)) (position : Nat) :
    completeItems run item position (all.map value) = pure (all.map data) := by
  induction all generalizing position with
  | nil => rfl
  | cons a rest ih =>
    rw [List.forall_mem_cons] at h
    rw [List.map_cons, completeItems, h.1, ih h.2]
    simp

theorem complete_items {item : TypeRef} {required : Bool} {α : Type} {value : α → Value}
    {data : α → Json} {all : List α}
    (h : ∀ a ∈ all, complete schema application execute group item (value a) = pure (data a)) :
    complete schema application execute group (.list item required) (.list (all.map value)) =
      pure (.array (all.map data)) := by
  rw [complete_list_bind, completeItems_eq_pure h, pure_bind]

end Completion

/-! ## Selections that answer -/

namespace Environment

variable {σ : Type} {env : Environment σ} {depth : Nat} {type : ObjectType} {source : Value}

/-- A field without directives comes to a member of the response. -/
inductive Answers (env : Environment σ) (depth : Nat) (type : ObjectType) (source : Value) :
    Selection → String × Json → Prop where
  | field {head : FieldHead} {below : List Selection} {data : Json} (hd : head.directives = [])
    (h : env.executeGroup (env.executeSelections depth) type source (.alone ⟨head, below⟩) =
      pure (some data)) :
    Answers env depth type source (.field head below) (head.key, data)

theorem answers_of_resolve {value : Value} {head : FieldHead} {below : List Selection}
    {found : FoundField} {data : Json} (hd : head.directives = [])
    (hf : env.schema.field? type head.name = some found)
    (hr : env.resolve found (env.resolveInfo type source (.alone ⟨head, below⟩) found.definition) =
      pure (.ok value))
    (hc : complete env.schema env.application (env.executeSelections depth)
      (.alone ⟨head, below⟩) found.definition.type value = pure data) :
    env.Answers depth type source (.field head below) (head.key, data) := by
  refine .field hd ?_
  have hname : env.schema.field? type (FieldGroup.alone ⟨head, below⟩).first.name = some found := hf
  rw [executeGroup, hname]
  simp [executeFound, hr, hc]

/-- Fields that answer are collected, each in a group of its own. -/
theorem exists_collect_of_answers {selections : List Selection} {members : Json.Members}
    (h : List.Forall₂ (env.Answers depth type source) selections members) :
    ∃ nodes : List FieldNode, env.collect type.name selections = nodes ∧
      nodes.map (·.key) = members.keys ∧
      List.Forall₂ (fun node member => env.executeGroup (env.executeSelections depth) type source
        (.alone node) = pure (some member.2)) nodes members := by
  suffices hwithin : ∃ nodes : List FieldNode, (∀ bound found,
      (env.collectWithin type.name bound selections found).nodes = found.nodes ++ nodes) ∧
      nodes.map (·.key) = members.keys ∧
      List.Forall₂ (fun node member => env.executeGroup (env.executeSelections depth) type source
        (.alone node) = pure (some member.2)) nodes members by
    obtain ⟨nodes, hnodes, hrest⟩ := hwithin
    exact ⟨nodes, hnodes env.fragments.length {}, hrest⟩
  induction h with
  | nil => exact ⟨[], fun _ found => by simp, rfl, .nil⟩
  | cons hanswer _ ih =>
    obtain ⟨nodes, hnodes, hkeys, hanswers⟩ := ih
    cases hanswer with
    | @field head below data hd hg =>
      refine ⟨⟨head, below⟩ :: nodes, fun bound found => ?_, ?_, .cons hg hanswers⟩
      · have hinc : env.includes head.directives = true := by rw [hd, Scope.includes]
        rw [Scope.collectWithin_cons, Scope.collectWithin_field, if_pos hinc, hnodes]
        simp
      · rw [List.map_cons, hkeys]
        rfl

/-- Fields with different keys that all answer make an object of their answers. -/
theorem executeSelections_of_answers {selections : List Selection} {members : Json.Members}
    (h : List.Forall₂ (env.Answers depth type source) selections members)
    (hn : members.keys.Nodup) :
    env.executeSelections (depth + 1) type source selections = pure members := by
  obtain ⟨nodes, hcollect, hkeys, hanswers⟩ := exists_collect_of_answers h
  rw [executeSelections, Scope.collectGroups, hcollect,
    FieldGroup.ofNodes_of_nodup (hkeys ▸ hn)]
  clear hcollect h hn
  induction hanswers with
  | nil => rfl
  | @cons node member nodes members hanswer _ ih =>
    rw [Entries.keys, List.map_cons, List.map_cons, List.cons.injEq] at hkeys
    rw [List.map_cons, executeGroups, hanswer, ih hkeys.2, pure_bind, pure_bind]
    exact congrArg (fun key => pure ((key, member.2) :: members)) hkeys.1

/-- A selection set with one field comes to an object with one member. -/
theorem executeSelections_single {value : Value} {head : FieldHead} {below : List Selection}
    {found : FoundField} {json : Json} (hd : head.directives = [])
    (hf : env.schema.field? type head.name = some found)
    (hr : env.resolve found (env.resolveInfo type source (.alone ⟨head, below⟩) found.definition) =
      pure (.ok value))
    (hc : complete env.schema env.application (env.executeSelections depth)
      (.alone ⟨head, below⟩) found.definition.type value = pure json) :
    env.executeSelections (depth + 1) type source [.field head below] =
      pure [(head.key, json)] :=
  executeSelections_of_answers (.cons (answers_of_resolve hd hf hr hc) .nil)
    (List.nodup_singleton _)

end Environment

/-! ## Quiet runs -/

/-- A run that comes to nothing, or to a result, and neither reports nor changes anything. -/
def Run.Quiet {σ α : Type} (run : Run σ α) : Prop :=
  run = exhausted ∨ ∃ a, run = Pure.pure a

namespace Run.Quiet

variable {σ α β : Type} {run : Run σ α}

theorem exhausted : Quiet (exhausted : Run σ α) :=
  Or.inl rfl

theorem pure (a : α) : Quiet (Pure.pure a : Run σ α) :=
  Or.inr ⟨a, rfl⟩

theorem bind (h : Quiet run) {next : α → Run σ β} (hn : ∀ a, Quiet (next a)) :
    Quiet (run >>= next) := by
  rcases h with rfl | ⟨a, rfl⟩
  · exact exhausted
  · rw [pure_bind]
    exact hn a

theorem under (h : Quiet run) (step : PathElement) : Quiet (run.under step) := by
  rcases h with rfl | ⟨a, rfl⟩
  · exact exhausted
  · exact pure a

theorem absorb (h : Quiet run) (allowed : Bool) (null : α) : Quiet (run.absorb allowed null) := by
  rcases h with rfl | ⟨a, rfl⟩
  · exact exhausted
  · exact pure a

/-- A quiet run that comes to something has a result. -/
theorem exists_eq_pure (h : Quiet run) {s : σ} (hs : run s ≠ none) : ∃ a, run = Pure.pure a := by
  rcases h with rfl | ⟨a, rfl⟩
  · exact absurd rfl hs
  · exact ⟨a, rfl⟩

end Run.Quiet

end GraphQL
