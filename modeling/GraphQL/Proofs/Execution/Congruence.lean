import Mathlib.Data.List.Forall2
import GraphQL.Proofs.Execution.Visits

/-!
# `GraphQL/Proofs/Execution/Congruence.lean` — what an execution depends on

Two texts are executed alike if their selections select the same fields at every level, and *the
same* means little: the response key, the name and the place of the first node, and what the field
resolves to. The other nodes of a group matter only for the selections that they bring in below.

`Environment.AlikeAlong` is this condition for two environments, asked for where an execution comes
to and nowhere else, and `Environment.AlikeAlong.executeSelections` says that what is so related is
executed alike: with the same outcome and the same state after it, at every depth. Often the objects
that an execution comes to do not matter. Then it is enough to relate selections to selections, level
by level (`Environment.Alike`). Which relation it is differs from use to use.

What a field resolves to may depend on the text, since a resolver is handed the nodes and the
operation. `Application.IgnoresOperation` and `Application.IgnoresNodes` are for applications whose
resolvers do not look.
-/

set_option autoImplicit false

namespace GraphQL

/-! ## 1. Completion -/

section Completion

variable {σ : Type} {schema : Schema} {application : Application σ}
variable {execute execute' : ObjectType → Value → List Selection → Run σ Json.Members}
variable {group group' : FieldGroup}

/-- Errors at a group carry the place of its first node and nothing else of it. -/
theorem FieldGroup.report_congr (hl : group'.first.location = group.first.location)
    (message : String) (extensions : Json.Members) :
    group'.report message extensions = group.report message extensions := by
  rw [report, report, hl]

theorem Run.failWith_congr {α : Type} (hl : group'.first.location = group.first.location)
    (fault : CompletionFault) : (failWith group' fault : Run σ α) = failWith group fault := by
  rw [failWith, failWith, FieldGroup.report_congr hl]

theorem completeNamed_congr (hl : group'.first.location = group.first.location)
    (he : ∀ type value, execute' type value group'.selections =
      execute type value group.selections) (name : Name) (value : Value) :
    completeNamed schema application execute' group' name value =
      completeNamed schema application execute group name value := by
  have hobject : ∀ type, completeObject execute' group' type value =
      completeObject execute group type value := by
    intro type
    rw [completeObject, completeObject, he]
  unfold completeNamed
  simp only [Run.failWith_congr hl, hobject]

/-- What a value completes to depends on its field nodes through the place of the first and through
what the selections below come to. -/
theorem complete_congr (hl : group'.first.location = group.first.location)
    (he : ∀ type value, execute' type value group'.selections =
      execute type value group.selections) (type : TypeRef) (value : Value) :
    complete schema application execute' group' type value =
      complete schema application execute group type value := by
  have hnull : ∀ (type : TypeRef) (run : Run σ Json),
      excludeNull group' type run = excludeNull group type run := by
    intro type run
    simp only [excludeNull, Run.failWith_congr hl]
  -- A list changes the type and keeps the group, so the induction is on the type.
  induction type generalizing value with
  | named name required =>
    rw [complete, complete, hnull, completeNamed_congr hl he]
  | list item required ih =>
    have hitems : complete schema application execute' group' item =
        complete schema application execute group item := funext ih
    unfold complete
    rw [hnull, hitems, Run.failWith_congr hl]

/-- What a value completes to depends on the place of the first node and on what the selections
below come to on the objects in the value. -/
theorem complete_congr_of_finds (hl : group'.first.location = group.first.location)
    {type : TypeRef} {value : Value}
    (he : ∀ objectType source, application.Finds schema type value objectType source →
      execute' objectType source group'.selections = execute objectType source group.selections) :
    complete schema application execute' group' type value =
      complete schema application execute group type value :=
  calc complete schema application execute' group' type value
    _ = complete schema application
          (fun type source _ => execute' type source group'.selections) group type value :=
        complete_congr hl (fun _ _ => rfl) type value
    _ = complete schema application execute group type value :=
        complete_eq_of_finds he

end Completion

/-! ## 2. Alike along the visits of an execution -/

namespace Environment

section Along

variable {σ : Type} {env env' : Environment σ} {related : Visit → List Selection → Prop}

/-- Two groups of field nodes that mean the same where an execution has come to. -/
structure GroupsAlikeAt (env env' : Environment σ) (related : Visit → List Selection → Prop)
    (visit : Visit) (group group' : FieldGroup) : Prop where
  key : group'.key = group.key
  location : group'.first.location = group.first.location
  name : group'.first.name = group.first.name
  resolve : ∀ found, env.schema.field? visit.type group.first.name = some found →
    env'.resolve found (env'.resolveInfo visit.type visit.source group' found.definition) =
      env.resolve found (env.resolveInfo visit.type visit.source group found.definition)
  below : ∀ next, env.Visits visit next → next.selections = group.selections →
    related next group'.selections

/-- Two environments in which other selections mean the same as those of a visit, as long as the
visits go. -/
structure AlikeAlong (env env' : Environment σ) (related : Visit → List Selection → Prop) :
    Prop where
  schema : env'.schema = env.schema
  application : env'.application = env.application
  groups : ∀ visit selections', related visit selections' →
    List.Forall₂ (env.GroupsAlikeAt env' related visit)
      (env.collectGroups visit.type.name visit.selections)
      (env'.collectGroups visit.type.name selections')

variable {execute execute' : ObjectType → Value → List Selection → Run σ Json.Members}

theorem executeFound_of_alikeAt (hs : env'.schema = env.schema)
    (ha : env'.application = env.application) {visit : Visit} {group group' : FieldGroup}
    (h : env.GroupsAlikeAt env' related visit group group')
    (hg : group ∈ env.collectGroups visit.type.name visit.selections)
    (he : ∀ next selections', related next selections' →
      execute' next.type next.source selections' = execute next.type next.source next.selections)
    {found : FoundField} (hf : env.schema.field? visit.type group.first.name = some found) :
    env'.executeFound execute' visit.type visit.source group' found =
      env.executeFound execute visit.type visit.source group found := by
  unfold executeFound
  dsimp only
  rw [h.key, h.resolve found hf, hs, ha]
  -- Both sides resolve to the same value in the same state, and complete it.
  refine congrArg (fun run => Run.absorb _ _ (Run.under _ run)) ?_
  refine Run.ofState_bind_congr fun s => ?_
  cases hvalue : (env.resolve found (env.resolveInfo visit.type visit.source group
      found.definition) s).1 with
  | error error => exact congrArg Run.fail (FieldGroup.report_congr h.location _ _)
  | ok value =>
    refine complete_congr_of_finds h.location fun type source ho => ?_
    have hvisits : env.Visits visit ⟨type, source, group.selections⟩ :=
      ⟨group, hg, found, hf, s, value, hvalue, ho, rfl⟩
    exact he _ _ (h.below _ hvisits rfl)

/-- One selection set: the groups are executed one by one, and what they bring in below is executed
alike on every object that the execution comes to. -/
theorem AlikeAlong.executeGroups (h : env.AlikeAlong env' related) {visit : Visit}
    {selections' : List Selection} (hr : related visit selections')
    (he : ∀ next selections', related next selections' →
      execute' next.type next.source selections' = execute next.type next.source next.selections) :
    env'.executeGroups execute' visit.type visit.source
        (env'.collectGroups visit.type.name selections') =
      env.executeGroups execute visit.type visit.source
        (env.collectGroups visit.type.name visit.selections) := by
  suffices hall : ∀ groups groups', groups ⊆ env.collectGroups visit.type.name visit.selections →
      List.Forall₂ (env.GroupsAlikeAt env' related visit) groups groups' →
      env'.executeGroups execute' visit.type visit.source groups' =
        env.executeGroups execute visit.type visit.source groups from
    hall _ _ (List.Subset.refl _) (h.groups visit selections' hr)
  intro groups groups' hsub halike
  -- That the groups are among those of the visit is what makes their fields steps of it.
  induction halike with
  | nil => rfl
  | @cons group group' rest rest' hg _ ih =>
    obtain ⟨hm, hsub⟩ := List.cons_subset.mp hsub
    have hgroup : env'.executeGroup execute' visit.type visit.source group' =
        env.executeGroup execute visit.type visit.source group := by
      unfold executeGroup
      rw [h.schema, hg.name]
      cases hf : env.schema.field? visit.type group.first.name with
      | none => rfl
      | some found =>
        dsimp only
        rw [executeFound_of_alikeAt h.schema h.application hg hm he hf]
    rw [Environment.executeGroups, Environment.executeGroups, hgroup, ih hsub, hg.key]

/-- What is related is executed alike, at every depth. -/
theorem AlikeAlong.executeSelections (h : env.AlikeAlong env' related) (depth : Nat) {visit : Visit}
    {selections' : List Selection} (hr : related visit selections') :
    env'.executeSelections depth visit.type visit.source selections' =
      env.executeSelections depth visit.type visit.source visit.selections := by
  induction depth generalizing visit selections' with
  | zero => rfl
  | succ depth ih =>
    rw [Environment.executeSelections, Environment.executeSelections]
    exact h.executeGroups hr fun _ _ hr => ih hr

end Along

/-! ## 3. Alike on every object -/

variable {σ : Type}

/-- Two groups of field nodes that mean the same on objects of a type. -/
structure GroupsAlike (env env' : Environment σ) (related : List Selection → List Selection → Prop)
    (type : ObjectType) (group group' : FieldGroup) : Prop where
  key : group'.key = group.key
  location : group'.first.location = group.first.location
  name : group'.first.name = group.first.name
  /-- The field resolves to the same, whatever it is resolved on. -/
  resolve : ∀ (found : FoundField) (source : Value),
    env'.resolve found (env'.resolveInfo type source group' found.definition) =
      env.resolve found (env.resolveInfo type source group found.definition)
  below : related group.selections group'.selections

/-- Two environments in which related selections mean the same. -/
structure Alike (env env' : Environment σ) (related : List Selection → List Selection → Prop) :
    Prop where
  schema : env'.schema = env.schema
  application : env'.application = env.application
  groups : ∀ (type : ObjectType) {selections selections' : List Selection},
    related selections selections' →
    List.Forall₂ (GroupsAlike env env' related type) (env.collectGroups type.name selections)
      (env'.collectGroups type.name selections')

variable {env env' : Environment σ} {related : List Selection → List Selection → Prop}

/-- What is alike on every object is alike along the visits of any execution. -/
theorem Alike.along (h : env.Alike env' related) :
    env.AlikeAlong env' fun visit selections' => related visit.selections selections' where
  schema := h.schema
  application := h.application
  groups visit _ hr := by
    refine (h.groups visit.type hr).imp fun group group' hg => ?_
    refine ⟨hg.key, hg.location, hg.name, fun found _ => hg.resolve found visit.source, ?_⟩
    intro next _ hs
    rw [hs]
    exact hg.below

/-- Related selections are executed alike. -/
theorem Alike.executeSelections (h : env.Alike env' related) (depth : Nat)
    {selections selections' : List Selection} (hr : related selections selections')
    (type : ObjectType) (source : Value) :
    env'.executeSelections depth type source selections' =
      env.executeSelections depth type source selections :=
  @AlikeAlong.executeSelections σ env env' _ h.along depth ⟨type, source, selections⟩ _ hr

end Environment

/-! ## 4. Behaviour that does not look at the text -/

/-- No resolver looks at the operation. -/
def Application.IgnoresOperation {σ : Type} (application : Application σ) : Prop :=
  ∀ typeName fieldName resolver, application.resolver typeName fieldName = some resolver →
    ∀ (info : ResolveInfo) (operation : Operation),
      resolver { info with operation } = resolver info

/-- No resolver looks at the field nodes. -/
def Application.IgnoresNodes {σ : Type} (application : Application σ) : Prop :=
  ∀ typeName fieldName resolver, application.resolver typeName fieldName = some resolver →
    ∀ (info : ResolveInfo) (nodes : FieldGroup), resolver { info with nodes } = resolver info

/-- The fields of introspection are answered from the schema, the source and the arguments. -/
theorem Introspection.resolver?_text {typeName : Name}
    {resolve : ResolveInfo → Except FieldError Value}
    (h : Introspection.resolver? typeName = some resolve) (info : ResolveInfo)
    (operation : Operation) (nodes : FieldGroup) :
    resolve { info with operation, nodes } = resolve info := by
  unfold Introspection.resolver? at h
  split at h <;> cases h <;> rfl

/-- What a field resolves to depends on the text only through a resolver of the application. -/
theorem Environment.resolve_text {σ : Type} {env : Environment σ} {found : FoundField}
    {info : ResolveInfo} {operation : Operation} {nodes : FieldGroup}
    (h : ∀ resolver, env.application.resolver info.parent.name found.definition.name =
      some resolver → resolver { info with operation, nodes } = resolver info) :
    env.resolve found { info with operation, nodes } = env.resolve found info := by
  cases found with
  | declared definition =>
    unfold resolve
    dsimp only
    cases hr : env.application.resolver? info.parent.name definition.name with
    | none => rfl
    | some resolver =>
      unfold Application.resolver? at hr
      split at hr
      · next resolve hi =>
        cases hr
        exact congrArg pure (Introspection.resolver?_text hi info operation nodes)
      · exact h resolver hr
  | schema => rfl
  | type => rfl
  | typename => rfl

end GraphQL
