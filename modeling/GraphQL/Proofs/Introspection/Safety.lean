import GraphQL.Proofs.Execution.Termination
import GraphQL.Proofs.Execution.Visits
import GraphQL.Proofs.Introspection.Subjects

/-!
# `GraphQL/Proofs/Introspection/Safety.lean` — introspection never fails

An execution stays within introspection from a visit at which nothing is selected but the three
fields that no type declares, and from a visit to a subject (`Environment.Introspects`). There every
field resolves to what its type expects, so no completion fails, and the objects that are opened are
subjects again. It follows that such an execution is quiet, whatever is selected
(`Environment.Introspects.quiet`), and that every visit it comes to is to a subject on its own type
(`Environment.introspects_of_enters`). `Introspection.never_fails` is both, from the root on.
-/

set_option autoImplicit false

namespace GraphQL

open Introspection

/-! ## 1. Completion -/

section Completion

variable {description : SchemaDescription} {schema : Schema} {σ : Type}
variable {application : Application σ} {group : FieldGroup}
variable {execute : ObjectType → Value → List Selection → Run σ Json.Members}

theorem Schema.RuntimeType.eq_object {name : Name} {type : ObjectType} {definition : TypeDefinition}
    (h : schema.RuntimeType name type) (hd : schema.types.get? name = some definition)
    (ha : definition.isAbstract = false) : definition = .object type := by
  cases h with
  | itself ht => exact Option.some.inj (hd.symm.trans ht)
  | possible ht habstract _ =>
    cases hd.symm.trans ht
    rw [ha] at habstract
    cases habstract

theorem quiet_completeItems {run : Value → Run σ Json} {item : TypeRef} {items : List Value}
    (h : ∀ value ∈ items, (run value).Quiet) (position : Nat) :
    (completeItems run item position items).Quiet := by
  induction items generalizing position with
  | nil => exact .pure []
  | cons value rest ih =>
    rw [List.forall_mem_cons] at h
    rw [completeItems]
    refine ((h.1.under _).absorb _ _).bind fun data => ?_
    exact (ih h.2 _).bind fun others => .pure _

variable (hb : description.Builds schema)
variable (hs : schema.types.get? "String" = some (.scalar Scalar.string))
variable (hbool : schema.types.get? "Boolean" = some (.scalar Scalar.boolean))

include hb hs hbool

/-- What is supplied completes without error, if subjects can be looked into without error. -/
theorem Schema.Supplies.quiet_complete (he : ∀ subject : Subject, subject.Registered schema →
      (execute subject.objectType subject.value group.selections).Quiet)
    {type : TypeRef} {value : Value} (h : schema.Supplies type value) :
    (complete schema application execute group type value).Quiet := by
  induction h with
  | null hn =>
    rw [complete_null hn]
    exact .pure _
  | string s =>
    rw [complete_string hs]
    exact .pure _
  | boolean b =>
    rw [complete_boolean hbool]
    exact .pure _
  | kind kind =>
    rw [complete_kind hb.get?_typeKindType]
    exact .pure _
  | @subject name required subject hr hn =>
    subst hn
    rw [complete_object_bind (hb.get?_objectType subject) rfl]
    exact (he subject hr).bind fun members => .pure _
  | list _ ih =>
    rw [complete_list_bind]
    exact (quiet_completeItems ih 0).bind fun data => .pure _

/-- The objects that are opened in what is supplied are subjects. -/
theorem Schema.Supplies.exists_subject {type : TypeRef} {value source : Value}
    {objectType : ObjectType} (h : schema.Supplies type value)
    (ho : schema.Opens type value objectType source) :
    ∃ subject : Subject, subject.Registered schema ∧ objectType = subject.objectType ∧
      source = subject.value := by
  induction ho with
  | object hv hr =>
    cases h with
    | null _ => cases hv
    | string s => cases hr.eq_object hs rfl
    | boolean b => cases hr.eq_object hbool rfl
    | kind kind => cases hr.eq_object hb.get?_typeKindType rfl
    | subject hregistered hn =>
      subst hn
      cases hr.eq_object (hb.get?_objectType _) rfl
      exact ⟨_, hregistered, rfl, rfl⟩
  | item hm _ ih =>
    cases h with
    | list hitems => exact ih (hitems _ hm)

end Completion

/-! ## 2. Visits that introspect -/

/-- A visit to a subject, on the object type that goes with it. -/
def Visit.ToSubject (schema : Schema) (visit : Visit) : Prop :=
  ∃ subject : Subject, subject.Registered schema ∧ visit.type = subject.objectType ∧
    visit.source = subject.value

namespace Environment

variable {σ : Type} {env : Environment σ} {description : SchemaDescription}

/-- Nothing is selected but the three fields that no type declares. -/
def OnlyIntrospects (env : Environment σ) (visit : Visit) : Prop :=
  ∀ group ∈ env.collectGroups visit.type.name visit.selections,
    group.first.name ∈ ["__schema", "__type", "__typename"]

/-- A visit that stays within introspection: to a subject, or where nothing is selected but the
three fields that no type declares. -/
def Introspects (env : Environment σ) (visit : Visit) : Prop :=
  env.OnlyIntrospects visit ∨ visit.ToSubject env.schema

theorem quiet_executeGroups {execute : ObjectType → Value → List Selection → Run σ Json.Members}
    {type : ObjectType} {source : Value} {groups : List FieldGroup}
    (h : ∀ group ∈ groups, ∀ found, env.schema.field? type group.first.name = some found →
      (env.executeFound execute type source group found).Quiet) :
    (env.executeGroups execute type source groups).Quiet := by
  induction groups with
  | nil => exact .pure []
  | cons group rest ih =>
    rw [List.forall_mem_cons] at h
    have hgroup : (env.executeGroup execute type source group).Quiet := by
      unfold executeGroup
      split
      · exact .pure none
      · next found hf => exact (h.1 found hf).bind fun data => .pure _
    rw [executeGroups]
    exact hgroup.bind fun data => (ih h.2).bind fun others => .pure _

/-! ## 3. What is answered within introspection -/

variable (hb : description.Builds env.schema)
variable (hs : env.schema.types.get? "String" = some (.scalar Scalar.string))
variable (hbool : env.schema.types.get? "Boolean" = some (.scalar Scalar.boolean))
variable (hi : env.introspection = true)

include hi in
/-- The three fields that no type declares are answered on every object. -/
theorem exists_resolve_undeclared (type : ObjectType) (source : Value) (group : FieldGroup)
    {found : FoundField} (hf : ∀ definition, found ≠ .declared definition) :
    ∃ value, env.resolve found (env.resolveInfo type source group found.definition) =
        pure (.ok value) ∧
      env.schema.Supplies found.definition.type value := by
  cases found with
  | declared definition => exact absurd rfl (hf definition)
  | schema =>
    refine ⟨Subject.schema.value, ?_, .subject trivial rfl⟩
    simp [resolve, hi]
  | type =>
    refine ⟨resolveTypeField (env.resolveInfo type source group typeField), ?_, ?_⟩
    · simp [resolve, hi, FoundField.definition]
    · unfold resolveTypeField
      dsimp only
      split
      · next found ht =>
        have hm := List.mem_of_find?_eq_some ht
        exact .typeNamed (List.mem_map_of_mem (Schema.registered_of_mem_reachable hm))
      · exact .null rfl
  | typename => exact ⟨.string type.name, rfl, .string _⟩

include hb hi

/-- Every field that is found on a subject is answered. -/
theorem exists_resolve_subject {subject : Subject} (hr : subject.Registered env.schema)
    (group : FieldGroup) {name : Name} {found : FoundField}
    (hf : env.schema.field? subject.objectType name = some found) :
    ∃ value, env.resolve found (env.resolveInfo subject.objectType subject.value group
        found.definition) = pure (.ok value) ∧
      env.schema.Supplies found.definition.type value := by
  cases found with
  | declared definition =>
    have hm := (Table.get?_eq_some_iff.mp (Schema.field?_eq_declared hf).2).1
    let info := env.resolveInfo subject.objectType subject.value group definition
    have hv : info.schema.Supplies info.field.type (subject.resolve info) := hr.supplies hb hm
    exact ⟨subject.resolve info, resolve_subject subject group definition, hv⟩
  | _ => exact exists_resolve_undeclared hi _ _ _ (by simp)

theorem Introspects.exists_resolve {visit : Visit} (hv : env.Introspects visit)
    {group : FieldGroup} (hg : group ∈ env.collectGroups visit.type.name visit.selections)
    {found : FoundField} (hf : env.schema.field? visit.type group.first.name = some found) :
    ∃ value, env.resolve found (env.resolveInfo visit.type visit.source group
        found.definition) = pure (.ok value) ∧
      env.schema.Supplies found.definition.type value := by
  rcases hv with ho | ⟨subject, hr, ht, hsource⟩
  · refine exists_resolve_undeclared hi _ _ _ ?_
    rintro definition rfl
    exact (Schema.field?_eq_declared hf).1 (ho group hg)
  · rw [ht] at hf
    rw [ht, hsource]
    exact exists_resolve_subject hb hi hr group hf

include hs hbool

/-- From a visit within introspection an execution comes to subjects. -/
theorem Enters.toSubject {visit next : Visit} (h : env.Enters visit next)
    (hv : env.Introspects visit) : next.ToSubject env.schema := by
  obtain ⟨group, hg, found, hf, s, value, hvalue, hopens, -⟩ := h
  obtain ⟨supplied, hresolve, hsupplies⟩ := hv.exists_resolve hb hi hg hf
  rw [hresolve] at hvalue
  cases hvalue
  exact hsupplies.exists_subject hb hs hbool hopens

theorem introspects_of_enters {visit last : Visit} (hv : env.Introspects visit)
    (h : Relation.ReflTransGen env.Enters visit last) : env.Introspects last := by
  induction h with
  | refl => exact hv
  | tail _ hstep ih => exact Or.inr (hstep.toSubject hb hs hbool hi ih)

omit hi in
theorem quiet_executeFound
    {execute : ObjectType → Value → List Selection → Run σ Json.Members}
    (he : ∀ (subject : Subject) (selections : List Selection), subject.Registered env.schema →
      (execute subject.objectType subject.value selections).Quiet)
    {type : ObjectType} {source value : Value} {group : FieldGroup} {found : FoundField}
    (hr : env.resolve found (env.resolveInfo type source group found.definition) =
      pure (.ok value))
    (hv : env.schema.Supplies found.definition.type value) :
    (env.executeFound execute type source group found).Quiet := by
  unfold executeFound
  dsimp only
  rw [hr, Run.ofState_pure, pure_bind]
  have hcomplete : (complete env.schema env.application execute group _ value).Quiet :=
    hv.quiet_complete hb hs hbool fun subject hr => he subject group.selections hr
  exact (hcomplete.under _).absorb _ _

/-- Whatever is selected within introspection, no error is reported. -/
theorem Introspects.quiet {visit : Visit} (hv : env.Introspects visit) (depth : Nat) :
    (env.executeSelections depth visit.type visit.source visit.selections).Quiet := by
  induction depth generalizing visit with
  | zero => exact .exhausted
  | succ depth ih =>
    rw [executeSelections]
    refine quiet_executeGroups fun group hg found hf => ?_
    obtain ⟨value, hresolve, hsupplies⟩ := hv.exists_resolve hb hi hg hf
    refine quiet_executeFound hb hs hbool (fun subject selections hr => ?_) hresolve hsupplies
    have hsubject : env.Introspects ⟨subject.objectType, subject.value, selections⟩ :=
      Or.inr ⟨subject, hr, rfl, rfl⟩
    exact ih hsubject

end Environment

namespace Introspection

/-- Introspection never fails. An operation that selects nothing at its root but the three fields
that no type declares is answered with data and without errors, whatever it selects below, and
fields of introspection types are only ever asked for on the subjects that the types are for. -/
theorem never_fails {description : SchemaDescription} {schema : Schema}
    (hb : description.build = .ok schema)
    (hs : schema.types.get? "String" = some (.scalar Scalar.string))
    (hbool : schema.types.get? "Boolean" = some (.scalar Scalar.boolean))
    {execution : Execution} (hi : execution.introspection = true) {document : Document}
    {prepared : Prepared} (hp : execution.prepare schema document = .ok prepared)
    (hn : WellNested document.fragments prepared.operation.selections)
    (ho : ∀ group ∈ (prepared.scope schema document).collectGroups prepared.rootType.name
      prepared.operation.selections, group.first.name ∈ ["__schema", "__type", "__typename"])
    {σ : Type} (application : Application σ) (s : σ) :
    (∃ members, execution.Returns schema application document s { data := .object members } s) ∧
      ∀ visit, Relation.ReflTransGen
          (execution.environment schema application document prepared).Enters
          (execution.rootVisit prepared) visit →
        ∀ group ∈ (prepared.scope schema document).collectGroups visit.type.name visit.selections,
          ∀ definition, schema.field? visit.type group.first.name = some (.declared definition) →
            ∃ subject : Subject, visit.type = subject.objectType ∧
              visit.source = subject.value := by
  have hbuilds := SchemaDescription.builds hb
  let env := execution.environment schema application document prepared
  have hroot : env.Introspects (execution.rootVisit prepared) := Or.inl ho
  constructor
  · have hnested : ∀ operation, document.operation? execution.operationName = .ok operation →
        WellNested document.fragments operation.selections := by
      intro operation hoperation
      cases (Execution.prepare_eq_ok hp).1.symm.trans hoperation
      exact hn
    obtain ⟨response, s', depth, hrun⟩ :=
      Execution.exists_returns hnested schema application s
    have hquiet : (env.executeSelections depth prepared.rootType execution.root
        prepared.operation.selections).Quiet := hroot.quiet hbuilds hs hbool hi depth
    have hsome : env.executeSelections depth prepared.rootType execution.root
        prepared.operation.selections s ≠ none := by
      intro hnone
      rw [Execution.run?, hp] at hrun
      dsimp only at hrun
      rw [hnone] at hrun
      cases hrun
    obtain ⟨members, hmembers⟩ := hquiet.exists_eq_pure hsome
    exact ⟨members, Execution.returns_of_pure hp hmembers s⟩
  · intro visit hway group hg definition hf
    rcases Environment.introspects_of_enters hbuilds hs hbool hi hroot hway with
      hv | ⟨subject, -, ht, hsource⟩
    · exact absurd (hv group hg) (Schema.field?_eq_declared hf).1
    · exact ⟨subject, ht, hsource⟩

end Introspection

namespace Sample

/-- The fragment `fragment Named on __Type { name }`. -/
def namedFragment : Fragment where
  name := "Named"
  condition := "__Type"
  directives := []
  selections := [field none "name" []]

/-- The query `{ all: __schema { types { kind ...Named } } __typename }`. -/
def browsing : Document where
  operations := [{ operation with
    selections := [
      field (some "all") "__schema" [field none "types" [field none "kind" [], .spread "Named" []]],
      field none "__typename" []] }]
  fragments := [namedFragment]

def browsingPrepared : Prepared where
  operation := { operation with
    selections := [
      field (some "all") "__schema" [field none "types" [field none "kind" [], .spread "Named" []]],
      field none "__typename" []] }
  rootType := schema.query
  variableValues := []

theorem boolean_builtIn : schema.types.get? "Boolean" = some (.scalar Scalar.boolean) := rfl

theorem prepare_browsing : Execution.prepare {} schema browsing = .ok browsingPrepared := rfl

theorem wellNested_browsing :
    WellNested browsing.fragments browsingPrepared.operation.selections := by
  refine .of_leaves fun fragment hm below hb => ?_
  cases List.mem_singleton.mp hm
  exact List.mem_singleton.mp hb

end Sample

theorem Introspection.never_fails_sample : WellNested Sample.browsing.fragments
      Sample.browsingPrepared.operation.selections ∧
    ∃ members, Execution.Returns {} Sample.schema Sample.application Sample.browsing ()
      { data := .object members } () := by
  have hroot : ∀ group ∈ (Sample.browsingPrepared.scope Sample.schema
      Sample.browsing).collectGroups Sample.browsingPrepared.rootType.name
        Sample.browsingPrepared.operation.selections,
      group.first.name ∈ ["__schema", "__type", "__typename"] := by
    decide
  exact ⟨Sample.wellNested_browsing, (never_fails Sample.build_eq_ok Sample.string_builtIn
    Sample.boolean_builtIn rfl Sample.prepare_browsing Sample.wellNested_browsing hroot
    Sample.application ()).1⟩

end GraphQL
