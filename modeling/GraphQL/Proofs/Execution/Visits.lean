import Mathlib.Logic.Relation
import GraphQL.Proofs.Execution.Fitting
import GraphQL.Proofs.Execution.PureRuns

/-!
# `GraphQL/Proofs/Execution/Visits.lean` — which objects an execution comes to

Executing a selection set on an object is a visit: it asks for fields of an object type on a source,
and where a field completes to objects, their selection sets are visited next. `Environment.Visits`
is one step of this, for a field that is selected and found, a value that it resolves to in some
state, and an object that is in the value at the type of the field, of the type that is found for it
in some state.

A step may be one that a run does not take, since the states are left open. It is enough that no run
takes another: `Environment.executeGroups_eq_of_visits` says that the execution of a selection set
depends on what the visits after it come to and on nothing else. So what holds along all steps holds
of every resolver call.

Where it does not matter what type resolvers say, an abstract type may be taken to stand for any
object type (`Environment.Enters`), which makes for more steps still.
-/

set_option autoImplicit false

namespace GraphQL

/-- The execution of a selection set on an object. -/
structure Visit where
  type : ObjectType
  source : Value
  selections : List Selection

/-- The visit that an execution begins with. -/
def Execution.rootVisit (execution : Execution) (prepared : Prepared) : Visit where
  type := prepared.rootType
  source := execution.root
  selections := prepared.operation.selections

/-- The objects in a value of a declared type, with the object types that an execution finds for
them. -/
inductive Application.Finds {σ : Type} (application : Application σ) (schema : Schema) :
    TypeRef → Value → ObjectType → Value → Prop where
  | object {name : Name} {required : Bool} {value : Value} {type : ObjectType}
    (hv : value.isNull = false) (ht : schema.types.get? name = some (.object type)) :
    Finds application schema (.named name required) value type value
  | abstract {name : Name} {required : Bool} {value : Value} {abstract : TypeDefinition}
    {type : ObjectType} (hv : value.isNull = false) (ht : schema.types.get? name = some abstract)
    (ha : abstract.isAbstract = true) (s : σ)
    (hf : (objectTypeOf schema application name value s).1 = .ok (some type)) :
    Finds application schema (.named name required) value type value
  | item {item : TypeRef} {required : Bool} {items : List Value} {value inner : Value}
    {type : ObjectType} (hm : value ∈ items) (h : Finds application schema item value type inner) :
    Finds application schema (.list item required) (.list items) type inner

/-- From one visit an execution can come to another. -/
def Environment.Visits {σ : Type} (env : Environment σ) (visit next : Visit) : Prop :=
  ∃ group ∈ env.collectGroups visit.type.name visit.selections,
    ∃ found, env.schema.field? visit.type group.first.name = some found ∧
    ∃ (s : σ) (value : Value), (env.resolve found
        (env.resolveInfo visit.type visit.source group found.definition) s).1 = .ok value ∧
      env.application.Finds env.schema found.definition.type value next.type next.source ∧
      next.selections = group.selections

/-- The objects in a value of a declared type, with the object types that they can be of, whatever
type resolvers say. -/
inductive Schema.Opens (schema : Schema) : TypeRef → Value → ObjectType → Value → Prop where
  | object {name : Name} {required : Bool} {value : Value} {type : ObjectType}
    (hv : value.isNull = false) (hr : schema.RuntimeType name type) :
    Opens schema (.named name required) value type value
  | item {item : TypeRef} {required : Bool} {items : List Value} {value inner : Value}
    {type : ObjectType} (hm : value ∈ items) (h : Opens schema item value type inner) :
    Opens schema (.list item required) (.list items) type inner

/-- From one visit an execution could come to another, whatever type resolvers say. -/
def Environment.Enters {σ : Type} (env : Environment σ) (visit next : Visit) : Prop :=
  ∃ group ∈ env.collectGroups visit.type.name visit.selections,
    ∃ found, env.schema.field? visit.type group.first.name = some found ∧
    ∃ (s : σ) (value : Value), (env.resolve found
        (env.resolveInfo visit.type visit.source group found.definition) s).1 = .ok value ∧
      env.schema.Opens found.definition.type value next.type next.source ∧
      next.selections = group.selections

theorem Application.Finds.opens {σ : Type} {application : Application σ} {schema : Schema}
    {type : TypeRef} {value source : Value} {objectType : ObjectType}
    (h : application.Finds schema type value objectType source) :
    schema.Opens type value objectType source := by
  induction h with
  | object hv ht => exact .object hv (.itself ht)
  | abstract hv ht ha s hf => exact .object hv (.possible ht ha (mem_entries_of_objectTypeOf hf))
  | item hm _ ih => exact .item hm ih

/-- There are no objects in a value of a scalar or enum type. -/
theorem Application.Finds.isInput_eq_false {σ : Type} {application : Application σ}
    {schema : Schema} {type : TypeRef} {value source : Value} {objectType : ObjectType}
    (h : application.Finds schema type value objectType source) {definition : TypeDefinition}
    (hd : schema.types.get? type.innermost = some definition) : definition.isInput = false := by
  induction h with
  | object _ ht =>
    cases ht.symm.trans hd
    rfl
  | abstract _ ht ha =>
    cases ht.symm.trans hd
    cases definition <;> first | rfl | cases ha
  | item _ _ ih => exact ih hd

theorem Environment.Visits.enters {σ : Type} {env : Environment σ} {visit next : Visit}
    (h : env.Visits visit next) : env.Enters visit next := by
  obtain ⟨group, hg, found, hf, s, value, hvalue, hfinds, hs⟩ := h
  exact ⟨group, hg, found, hf, s, value, hvalue, hfinds.opens, hs⟩

/-! ## What an execution depends on -/

section Completion

variable {σ : Type} {schema : Schema} {application : Application σ} {group : FieldGroup}
variable {execute execute' : ObjectType → Value → List Selection → Run σ Json.Members}

theorem completeItems_congr {run run' : Value → Run σ Json} {item : TypeRef} {items : List Value}
    (h : ∀ value ∈ items, run' value = run value) (position : Nat) :
    completeItems run' item position items = completeItems run item position items := by
  induction items generalizing position with
  | nil => rfl
  | cons value rest ih =>
    rw [List.forall_mem_cons] at h
    rw [completeItems, completeItems, h.1, ih h.2]

theorem completeNamed_eq_of_finds {name : Name} {required : Bool} {value : Value}
    (hv : value.isNull = false)
    (he : ∀ type source, application.Finds schema (.named name required) value type source →
      execute' type source group.selections = execute type source group.selections) :
    completeNamed schema application execute' group name value =
      completeNamed schema application execute group name value := by
  have hobject : ∀ type, application.Finds schema (.named name required) value type value →
      completeObject execute' group type value = completeObject execute group type value := by
    intro type hf
    rw [completeObject, completeObject, he type value hf]
  cases ht : schema.types.get? name with
  | none =>
    unfold completeNamed
    rw [ht]
  | some definition =>
    cases ha : definition.isAbstract with
    | true =>
      rw [completeNamed_abstract ht ha, completeNamed_abstract ht ha]
      refine Run.ofState_bind_congr fun s => ?_
      cases hfound : (objectTypeOf schema application name value s).1 with
      | error fault => rfl
      | ok found =>
        cases found with
        | none => rfl
        | some type => exact hobject type (.abstract hv ht ha s hfound)
    | false =>
      unfold completeNamed
      rw [ht]
      cases definition with
      | object type => exact hobject type (.object hv ht)
      | interface type => cases ha
      | union type => cases ha
      | _ => rfl

/-- What a value completes to depends on the objects in it. -/
theorem complete_eq_of_finds {type : TypeRef} {value : Value}
    (he : ∀ objectType source, application.Finds schema type value objectType source →
      execute' objectType source group.selections = execute objectType source group.selections) :
    complete schema application execute' group type value =
      complete schema application execute group type value := by
  induction type generalizing value with
  | named name required =>
    rw [complete, complete]
    cases hv : value.isNull with
    | true => rfl
    | false => rw [completeNamed_eq_of_finds hv he]
  | list item required ih =>
    cases value with
    | list items =>
      have hitem : ∀ value ∈ items, complete schema application execute' group item value =
          complete schema application execute group item value :=
        fun value hm => ih fun objectType source h => he objectType source (.item hm h)
      rw [complete, complete, completeItems_congr hitem]
    | _ => rfl

end Completion

namespace Environment

variable {σ : Type} {env : Environment σ}
variable {execute execute' : ObjectType → Value → List Selection → Run σ Json.Members}

/-- A selection set comes to the same if the visits after it do. -/
theorem executeGroups_eq_of_visits {visit : Visit}
    (he : ∀ next, env.Visits visit next → execute' next.type next.source next.selections =
      execute next.type next.source next.selections) :
    env.executeGroups execute' visit.type visit.source
        (env.collectGroups visit.type.name visit.selections) =
      env.executeGroups execute visit.type visit.source
        (env.collectGroups visit.type.name visit.selections) := by
  have hgroup : ∀ group ∈ env.collectGroups visit.type.name visit.selections,
      env.executeGroup execute' visit.type visit.source group =
        env.executeGroup execute visit.type visit.source group := by
    intro group hg
    unfold executeGroup
    cases hf : env.schema.field? visit.type group.first.name with
    | none => rfl
    | some found =>
      have hfound : env.executeFound execute' visit.type visit.source group found =
          env.executeFound execute visit.type visit.source group found := by
        unfold executeFound
        dsimp only
        refine congrArg (fun run => Run.absorb _ _ (Run.under _ run)) ?_
        refine Run.ofState_bind_congr fun s => ?_
        cases hvalue : (env.resolve found (env.resolveInfo visit.type visit.source group
            found.definition) s).1 with
        | error error => rfl
        | ok value =>
          refine complete_eq_of_finds fun type source ho => ?_
          exact he ⟨type, source, group.selections⟩
            ⟨group, hg, found, hf, s, value, hvalue, ho, rfl⟩
      simp only [hfound]
  generalize env.collectGroups visit.type.name visit.selections = groups at hgroup
  induction groups with
  | nil => rfl
  | cons group rest ih =>
    rw [List.forall_mem_cons] at hgroup
    rw [executeGroups, executeGroups, hgroup.1, ih hgroup.2]

theorem executeGroups_eq_of_enters {visit : Visit}
    (he : ∀ next, env.Enters visit next → execute' next.type next.source next.selections =
      execute next.type next.source next.selections) :
    env.executeGroups execute' visit.type visit.source
        (env.collectGroups visit.type.name visit.selections) =
      env.executeGroups execute visit.type visit.source
        (env.collectGroups visit.type.name visit.selections) :=
  executeGroups_eq_of_visits fun next h => he next h.enters

end Environment

end GraphQL
