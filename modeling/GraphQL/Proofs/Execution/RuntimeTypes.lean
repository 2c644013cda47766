import GraphQL.Proofs.Execution.Serial
import GraphQL.Proofs.Introspection.Reporting

/-!
# `GraphQL/Proofs/Execution/RuntimeTypes.lean` — what a value of an abstract type turns out to be

A value of an abstract type is executed as an object of some object type. There are two ways to find
out which: the type resolver of the abstract type is asked, or, without one, each of the possible
types is, in order. The second way comes to a possible type or to none. The first believes what it
is told as long as it is the name of an object type, and building cannot check what a function will
say. So all that completes at an abstract type is of a possible type exactly if the type resolver
names no other object type, for any value in any state (`Application.NamesPossible`).

What introspection lists as possible types does not depend on any of this, so where a type resolver
names another type, `__typename` says what introspection denies.
-/

set_option autoImplicit false

namespace GraphQL

open Introspection

/-! ## 1. The type of a value -/

/-- The type resolver of an abstract type, if it has one, names no object type but possible ones. -/
def Application.NamesPossible {σ : Type} (application : Application σ) (schema : Schema)
    (abstractType : Name) : Prop :=
  ∀ resolve, application.resolveType abstractType = some resolve →
    ∀ (value : Value) (s : σ) (name : Name), value.isNull = false →
      (resolve value s).1 = some name → (schema.object? name).isSome = true →
        name ∈ schema.possibleTypes abstractType

section Abstract

variable {σ : Type} {schema : Schema} {application : Application σ} {abstractType : Name}
variable {value : Value} {s : σ}

/-- Where a type resolver names an object type, the value is of that type. -/
theorem objectTypeOf_eq_ok {resolve : Value → StateM σ (Option Name)} {name : Name}
    {objectType : ObjectType} (hr : application.resolveType abstractType = some resolve)
    (hn : (resolve value s).1 = some name) (ho : schema.object? name = some objectType) :
    (objectTypeOf schema application abstractType value s).1 = .ok (some objectType) := by
  unfold objectTypeOf
  rw [hr]
  simp only [bind, StateT.bind]
  cases hanswer : resolve value s with
  | mk answer after =>
    rw [hanswer] at hn
    cases hn
    dsimp only
    rw [ho]
    rfl

/-- The type of a value is registered under its name, and possible if the type resolver names
possible types only. -/
theorem possible_of_objectTypeOf (hn : application.NamesPossible schema abstractType)
    (hv : value.isNull = false) {objectType : ObjectType}
    (h : (objectTypeOf schema application abstractType value s).1 = .ok (some objectType)) :
    schema.types.get? objectType.name = some (.object objectType) ∧
      objectType.name ∈ schema.possibleTypes abstractType := by
  obtain ⟨name, ho, hname⟩ := object?_of_objectTypeOf h
  obtain ⟨rfl, ht⟩ := Schema.get?_of_object? ho
  refine ⟨ht, ?_⟩
  rcases hname with ⟨resolve, hr, hanswer⟩ | hpossible
  · exact hn resolve hr value s objectType.name hv hanswer (by rw [ho, Option.isSome_some])
  · exact hpossible

end Abstract

/-! ## 2. Completion at an abstract type -/

/-- A sequence of runs has a result if the first has one, and the second with it. -/
theorem Run.bind_eq_result_iff {σ α β : Type} {run : Run σ α} {next : α → Run σ β} {s s' : σ}
    {b : β} {errors : List ErrorReport} :
    (run >>= next) s = some ({ result := some b, errors }, s') ↔
      ∃ a before t after, run s = some ({ result := some a, errors := before }, t) ∧
        next a t = some ({ result := some b, errors := after }, s') ∧
        errors = before ++ after := by
  constructor
  · intro h
    rcases Run.bind_eq_some h with ⟨_, -, ho⟩ | ⟨a, before, t, ⟨result, after⟩, hr, hn, ho⟩
    · cases ho
    · cases ho
      exact ⟨a, before, t, after, hr, hn, rfl⟩
  · rintro ⟨a, before, t, after, hr, hn, rfl⟩
    simp only [Run.bind_apply, Run.bind, hr, hn]

section Completion

variable {σ : Type} {schema : Schema} {application : Application σ} {abstractType : Name}
variable {execute : ObjectType → Value → List Selection → Run σ Json.Members} {group : FieldGroup}
variable {s s' : σ} {members : Json.Members} {errors : List ErrorReport}

theorem excludeNull_eq_object_iff {type : TypeRef} {run : Run σ Json} :
    excludeNull group type run s = some ({ result := some (.object members), errors }, s') ↔
      run s = some ({ result := some (.object members), errors }, s') := by
  rw [excludeNull, Run.bind_eq_result_iff]
  constructor
  · rintro ⟨data, before, t, after, hrun, hpassed, rfl⟩
    split at hpassed
    · cases hpassed
    · cases hpassed
      rw [List.append_nil]
      exact hrun
  · intro hrun
    exact ⟨.object members, errors, s', [], hrun, rfl, (List.append_nil errors).symm⟩

theorem completeObject_eq_object_iff {type : ObjectType} {value : Value} :
    completeObject execute group type value s =
        some ({ result := some (.object members), errors }, s') ↔
      execute type value group.selections s = some ({ result := some members, errors }, s') := by
  rw [completeObject, Run.bind_eq_result_iff]
  constructor
  · rintro ⟨data, before, t, after, hexecute, hmade, rfl⟩
    cases hmade
    rw [List.append_nil]
    exact hexecute
  · intro hexecute
    exact ⟨members, errors, s', [], hexecute, rfl, (List.append_nil errors).symm⟩

/-- An object at an abstract type is what executing the selections comes to, at the type of the
value and in the state in which finding that type has left the application. -/
theorem complete_eq_object_iff {type : TypeDefinition}
    (ht : schema.types.get? abstractType = some type) (ha : type.isAbstract = true)
    {required : Bool} {value : Value} (hv : value.isNull = false) :
    complete schema application execute group (.named abstractType required) value s =
        some ({ result := some (.object members), errors }, s') ↔
      ∃ objectType t,
        objectTypeOf schema application abstractType value s = (.ok (some objectType), t) ∧
        execute objectType value group.selections t =
          some ({ result := some members, errors }, s') := by
  rw [complete, excludeNull_eq_object_iff, hv, if_neg Bool.false_ne_true,
    completeNamed_abstract ht ha, Run.ofState_bind_apply]
  obtain ⟨found, t⟩ := objectTypeOf schema application abstractType value s
  rcases found with fault | _ | objectType
  · constructor
    · rintro ⟨⟩
    · rintro ⟨_, _, ⟨⟩, -⟩
  · constructor
    · rintro ⟨⟩
    · rintro ⟨_, _, ⟨⟩, -⟩
  · rw [completeFound, completeObject_eq_object_iff]
    constructor
    · intro hexecute
      exact ⟨objectType, t, rfl, hexecute⟩
    · rintro ⟨_, _, h, hexecute⟩
      cases h
      exact hexecute

/-- What is executed has been found, and what is found is possible, if the type resolver names
possible types only. -/
theorem possible_of_complete {type : TypeDefinition}
    (ht : schema.types.get? abstractType = some type) (ha : type.isAbstract = true)
    (hn : application.NamesPossible schema abstractType) {required : Bool} {value : Value}
    (hv : value.isNull = false)
    (h : complete schema application execute group (.named abstractType required) value s =
      some ({ result := some (.object members), errors }, s')) :
    ∃ objectType t,
      objectTypeOf schema application abstractType value s = (.ok (some objectType), t) ∧
      execute objectType value group.selections t =
        some ({ result := some members, errors }, s') ∧
      schema.types.get? objectType.name = some (.object objectType) ∧
      objectType.name ∈ schema.possibleTypes abstractType := by
  obtain ⟨objectType, t, hfound, hexecute⟩ := (complete_eq_object_iff ht ha hv).mp h
  have hregistered := possible_of_objectTypeOf hn hv (congrArg Prod.fst hfound)
  exact ⟨objectType, t, hfound, hexecute, hregistered⟩

end Completion

/-! ## 3. What is told of the type -/

namespace Environment

variable {σ : Type} {env : Environment σ}
variable {execute : ObjectType → Value → List Selection → Run σ Json.Members}

/-- The field `__typename` comes to the name of the object type that is executed. -/
theorem executeGroup_typename (hs : env.schema.types.get? "String" = some (.scalar Scalar.string))
    {type : ObjectType} {source : Value} {group : FieldGroup}
    (hn : group.first.name = "__typename") :
    env.executeGroup execute type source group = pure (some (.string type.name)) := by
  have hf : env.schema.field? type group.first.name = some .typename := by
    simp [Schema.field?, hn]
  have hr : env.resolve .typename (env.resolveInfo type source group typenameField) =
      pure (.ok (.string type.name)) := rfl
  have hc : complete env.schema env.application execute group typenameField.type
      (.string type.name) = pure (.string type.name) := complete_string hs true type.name
  rw [executeGroup, hf]
  simp [executeFound, FoundField.definition, hr, hc]

/-- A group that answers without fail is in the members under its key. -/
theorem mem_of_executeGroups {type : ObjectType} {source : Value} {groups : List FieldGroup}
    {s s' : σ} {members : Json.Members} {errors : List ErrorReport}
    (h : env.executeGroups execute type source groups s =
      some ({ result := some members, errors }, s')) {group : FieldGroup} (hm : group ∈ groups)
    {data : Json} (hd : env.executeGroup execute type source group = pure (some data)) :
    (group.key, data) ∈ members := by
  induction groups generalizing s members errors with
  | nil => cases hm
  | cons first rest ih =>
    rw [executeGroups_cons] at h
    obtain ⟨own, _, t, _, hfirst, hnext, -⟩ := Run.bind_eq_result_iff.mp h
    obtain ⟨others, _, t', _, hrest, hmade, -⟩ := Run.bind_eq_result_iff.mp hnext
    cases hmade
    rcases List.mem_cons.mp hm with rfl | hm
    · rw [executeGroups, hd] at hfirst
      cases hfirst
      exact List.mem_append_left _ List.mem_cons_self
    · exact List.mem_append_right _ (ih hrest hm)

end Environment

/-- The query `{ __type(name: …) { possibleTypes { name } } }`. -/
def Introspection.possibilities (name : Name) : Document where
  operations := [query (select "__type" [{ name := "name", value := .string name }]
    [select "possibleTypes" [] nameSelections])]
  fragments := []

theorem TypeDefinition.possibleTypes_report {type : TypeDefinition} (ha : type.isAbstract = true)
    (schema : Schema) :
    (type.report schema).possibleTypes = some (schema.possibleTypes type.name) := by
  cases type <;> first | rfl | cases ha

/-- What introspection lists as the possible types of an abstract type that it lists. -/
theorem Execution.returns_possibilities {description : SchemaDescription} {schema : Schema}
    {execution : Execution} (hb : description.Builds schema)
    (hs : schema.types.get? "String" = some (.scalar Scalar.string))
    (ho : execution.operationName = none) (hi : execution.introspection = true)
    {abstractType : Name} {type : TypeDefinition}
    (ht : schema.types.get? abstractType = some type) (ha : type.isAbstract = true)
    (hl : schema.Lists abstractType) {σ : Type} (application : Application σ) (s : σ) :
    execution.Returns schema application (possibilities abstractType) s
      { data := .object [("__type", .object [("possibleTypes",
        listJson nameMembers (some (schema.possibleTypes abstractType)))])] } s := by
  obtain rfl : type.name = abstractType := (Table.get?_eq_some_iff.mp ht).2
  refine returns_query ho 3 (fun env he hintrospection => ?_) s
  subst he
  have hf : env.schema.field? env.schema.query "__type" = some .type := by
    simp [Schema.field?]
  apply env.executeSelections_single rfl hf
    (env.resolve_lookup hs (hintrospection.trans hi) rfl)
  rw [if_pos hl]
  apply complete_object hb.get?_typeType rfl
  have hanswer : env.Answers 1 typeType (typeNamed type.name)
      (select "possibleTypes" [] nameSelections)
      ("possibleTypes", listJson nameMembers (type.report env.schema).possibleTypes) :=
    env.answers_possibleTypes hb hs ht
  rw [type.possibleTypes_report ha] at hanswer
  exact env.executeSelections_of_answers (.cons hanswer .nil) (List.nodup_singleton _)

/-! ## 4. Possible types only -/

/-- Whatever completes to an object at an abstract type is executed as a possible type, exactly if
the type resolver of the abstract type names possible types only. Then what `__typename` says there
is one of the names that introspection lists as possible types of the abstract type. -/
theorem Application.namesPossible_iff {description : SchemaDescription} {schema : Schema}
    (hb : description.build = .ok schema) {abstractType : Name} {type : TypeDefinition}
    (ht : schema.types.get? abstractType = some type) (ha : type.isAbstract = true) {σ : Type}
    (application : Application σ) :
    (application.NamesPossible schema abstractType ↔
      ∀ (execute : ObjectType → Value → List Selection → Run σ Json.Members) (group : FieldGroup)
        (required : Bool) (value : Value) (s s' : σ) (members : Json.Members)
        (errors : List ErrorReport), value.isNull = false →
        complete schema application execute group (.named abstractType required) value s =
          some ({ result := some (.object members), errors }, s') →
        ∃ objectType t,
          objectTypeOf schema application abstractType value s = (.ok (some objectType), t) ∧
          execute objectType value group.selections t =
            some ({ result := some members, errors }, s') ∧
          schema.types.get? objectType.name = some (.object objectType) ∧
          objectType.name ∈ schema.possibleTypes abstractType) ∧
    (schema.types.get? "String" = some (.scalar Scalar.string) →
      (∀ execution : Execution, execution.operationName = none → execution.introspection = true →
        schema.Lists abstractType → ∀ s : σ,
          execution.Returns schema application (possibilities abstractType) s
            { data := .object [("__type", .object [("possibleTypes",
              listJson nameMembers (some (schema.possibleTypes abstractType)))])] } s) ∧
      (application.NamesPossible schema abstractType →
        ∀ env : Environment σ, env.schema = schema → env.application = application →
        ∀ (depth : Nat) (group : FieldGroup) (required : Bool) (value : Value) (s s' : σ)
          (members : Json.Members) (errors : List ErrorReport), value.isNull = false →
          complete schema application (env.executeSelections depth) group
              (.named abstractType required) value s =
            some ({ result := some (.object members), errors }, s') →
          ∃ name ∈ schema.possibleTypes abstractType,
            ∀ inner ∈ env.collectGroups name group.selections,
              inner.first.name = "__typename" → (inner.key, Json.string name) ∈ members)) := by
  have hbuilds := SchemaDescription.builds hb
  refine ⟨⟨?_, fun h => ?_⟩, fun hs => ⟨?_, ?_⟩⟩
  · intro hn execute group required value s s' members errors hv h
    exact possible_of_complete ht ha hn hv h
  · intro resolve hr value s name hv hanswer ho
    obtain ⟨objectType, ho⟩ := Option.isSome_iff_exists.mp ho
    have hfound := objectTypeOf_eq_ok hr hanswer ho
    -- Executing nothing at all completes, whatever the type, and so says which type it is.
    have hcomplete : complete schema application (fun _ _ _ => pure []) default
        (.named abstractType false) value s =
          some ({ result := some (.object []) }, (objectTypeOf schema application abstractType
            value s).2) :=
      (complete_eq_object_iff ht ha hv).mpr ⟨objectType, _, Prod.ext hfound rfl, rfl⟩
    obtain ⟨other, t, hother, -, -, hp⟩ := h _ _ _ _ _ _ _ _ hv hcomplete
    rw [hother] at hfound
    cases hfound
    exact (Schema.get?_of_object? ho).1 ▸ hp
  · intro execution hname hi hl s
    exact Execution.returns_possibilities hbuilds hs hname hi ht ha hl application s
  · intro hn env hschema happlication depth group required value s s' members errors hv h
    subst hschema
    obtain ⟨objectType, t, -, hexecute, -, hp⟩ := possible_of_complete ht ha hn hv h
    refine ⟨objectType.name, hp, fun inner hm hname => ?_⟩
    cases depth with
    | zero => cases hexecute
    | succ depth =>
      exact Environment.mem_of_executeGroups hexecute hm (Environment.executeGroup_typename hs hname)

namespace Sample

/-- Pets are dogs; there are cats too, but no pet is one. -/
def petsDescription : SchemaDescription where
  query := some "Query"
  types := [
    .object { name := "Query", fields := .ofList [{ name := "pet", type := .named "Pet" false }] },
    .union { name := "Pet", members := ["Dog"] },
    .object { name := "Dog" },
    .object { name := "Cat" }]

theorem isSome_build_pets : petsDescription.build.toOption.isSome = true := by decide

def pets : Schema :=
  petsDescription.build.toOption.get isSome_build_pets

theorem build_pets : petsDescription.build = .ok pets :=
  Except.eq_ok_get isSome_build_pets

/-- There is a pet, and every pet is of the type of a name. -/
def kennel (name : Name) : Application Unit where
  resolver _ field := if field = "pet" then some fun _ => pure (.ok (.string "Rex")) else none
  resolveType _ := some fun _ => pure (some name)

theorem namesPossible_kennel {name abstractType : Name}
    (h : name ∈ pets.possibleTypes abstractType) :
    (kennel name).NamesPossible pets abstractType := by
  intro resolve hr value s other _ hanswer _
  cases hr
  cases hanswer
  exact h

end Sample

theorem Application.namesPossible_iff_sample :
    (Sample.kennel "Dog").NamesPossible Sample.pets "Pet" ∧
      Execution.Returns {} Sample.pets (Sample.kennel "Dog") (possibilities "Pet") ()
        { data := .object [("__type", .object [("possibleTypes",
          .array [.object [("name", .string "Dog")]])])] } () ∧
      ∀ (execute : ObjectType → Value → List Selection → Run Unit Json.Members)
        (group : FieldGroup) (value : Value) (members : Json.Members) (errors : List ErrorReport),
        value.isNull = false →
        complete Sample.pets (Sample.kennel "Dog") execute group (.named "Pet" false) value () =
          some ({ result := some (.object members), errors }, ()) →
        ∃ objectType, objectType.name = "Dog" ∧
          execute objectType value group.selections () =
            some ({ result := some members, errors }, ()) := by
  have hpossible : Sample.pets.possibleTypes "Pet" = ["Dog"] := by decide
  have hnames : (Sample.kennel "Dog").NamesPossible Sample.pets "Pet" :=
    Sample.namesPossible_kennel (by decide)
  have ht : Sample.pets.types.get? "Pet" =
      some (.union { name := "Pet", members := ["Dog"] }) := rfl
  obtain ⟨hiff, hintrospection⟩ := namesPossible_iff Sample.build_pets ht rfl (Sample.kennel "Dog")
  refine ⟨hnames, ?_, fun execute group value members errors hv h => ?_⟩
  · have hlisted := (hintrospection rfl).1 {} rfl rfl (by decide) ()
    rw [hpossible] at hlisted
    exact hlisted
  · obtain ⟨objectType, t, -, hexecute, -, hp⟩ := hiff.mp hnames _ _ _ _ _ _ _ _ hv h
    rw [hpossible, List.mem_singleton] at hp
    exact ⟨objectType, hp, hexecute⟩

/-- A pet of which the type resolver says that it is a cat is executed as one. -/
theorem Application.not_namesPossible :
    Sample.petsDescription.build = .ok Sample.pets ∧
      Sample.pets.possibleTypes "Pet" = ["Dog"] ∧
      Execution.Returns {} Sample.pets (Sample.kennel "Cat")
        { operations := [query (select "pet" [] [select "__typename" [] []])], fragments := [] } ()
        { data := .object [("pet", .object [("__typename", .string "Cat")])] } () :=
  ⟨Sample.build_pets, by decide, 3, rfl⟩

end GraphQL
