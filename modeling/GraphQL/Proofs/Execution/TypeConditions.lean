import GraphQL.Proofs.Execution.Configuration
import GraphQL.Proofs.Execution.RuntimeTypes
import GraphQL.Proofs.Schema.DepthFirst

/-!
# `GraphQL/Proofs/Execution/TypeConditions.lean` — which fragments count for an object

The type condition of a fragment is looked up among the reachable types, while objects are of
registered types and possible types are counted over all of them. For an object type that the roots
lead to the difference is seen at union types alone (`Schema.Matches`): from an object type edges
lead to the interfaces that it implements, but not to the unions that it belongs to.

The roots lead to every object type that an execution comes to, as long as type resolvers name
possible types (`Environment.reaches_of_visits`), by an invariant of visits: what a field's type leads
to is reached because the field's object type is.
-/

set_option autoImplicit false

namespace GraphQL

open Introspection

/-! ## 1. Object types and type conditions -/

/-- The type conditions that an object type meets: its own name, the interfaces that it implements,
and the listed unions that it is a member of. -/
inductive Schema.Matches (schema : Schema) (objectType : Name) : Name → Prop where
  | itself : Matches schema objectType objectType
  | interface {condition : Name} {type : InterfaceType}
    (ht : schema.types.get? condition = some (.interface type))
    (hp : objectType ∈ schema.possibleTypes condition) : Matches schema objectType condition
  | union {condition : Name} {type : UnionType}
    (ht : schema.types.get? condition = some (.union type)) (hl : schema.Lists condition)
    (hp : objectType ∈ schema.possibleTypes condition) : Matches schema objectType condition

namespace Schema

variable {schema : Schema}

theorem Reaches.of_edge {name next : Name} (h : schema.Reaches name)
    (he : schema.Edge name next) : schema.Reaches next := by
  obtain ⟨start, hs, hf⟩ := h
  exact ⟨start, hs, hf.tail (follows_iff.mpr he)⟩

/-- The roots lead to the interfaces of an object type that they lead to. -/
theorem reaches_of_interface {objectType : ObjectType}
    (ht : schema.types.get? objectType.name = some (.object objectType))
    (hr : schema.Reaches objectType.name) {name : Name} {type : InterfaceType}
    (hi : schema.types.get? name = some (.interface type))
    (hp : objectType.name ∈ schema.possibleTypes name) : schema.Reaches name := by
  rcases Table.mem_possibleTypes.mp hp with ⟨other, hm, hn, he⟩ | ⟨other, hm, hn, -⟩
  · have hother : schema.types.get? objectType.name = some (.object other) :=
      Table.get?_eq_some_iff.mpr ⟨hm, he⟩
    cases ht.symm.trans hother
    exact hr.of_edge (.interface ht hn)
  · have hother : schema.types.get? name = some (.union other) :=
      Table.get?_eq_some_iff.mpr ⟨hm, hn⟩
    cases hi.symm.trans hother

end Schema

/-- A type condition is met by an object type that the roots lead to, if the object type matches
it. -/
theorem Scope.applies_iff {scope : Scope} {objectType : ObjectType}
    (ht : scope.schema.types.get? objectType.name = some (.object objectType))
    (hr : scope.schema.Reaches objectType.name) {condition : Name} :
    scope.applies objectType.name condition = true ↔
      scope.schema.Matches objectType.name condition := by
  have hlisted : scope.schema.Matches objectType.name condition →
      scope.schema.Lists condition := by
    rintro (_ | ⟨hi, hp⟩ | ⟨-, hl, -⟩)
    · exact Schema.mem_reachable_of_reaches hr (Table.mem_names_iff.mpr ⟨_, ht⟩)
    · have hreached := Schema.reaches_of_interface ht hr hi hp
      exact Schema.mem_reachable_of_reaches hreached (Table.mem_names_iff.mpr ⟨_, hi⟩)
    · exact hl
  by_cases hl : scope.schema.Lists condition
  · unfold applies
    rw [Schema.get?_eq_of_lists hl]
    constructor
    · intro h
      split at h
      · next found hc =>
        rw [of_decide_eq_true h]
        exact .itself
      · next found hc => exact .interface hc (List.contains_iff_mem.mp h)
      · next found hc => exact .union hc hl (List.contains_iff_mem.mp h)
      · cases h
    · rintro (_ | ⟨hi, hp⟩ | ⟨hu, -, hp⟩)
      · simp [ht]
      · rw [hi]
        exact List.contains_iff_mem.mpr hp
      · rw [hu]
        exact List.contains_iff_mem.mpr hp
  · unfold applies
    rw [Schema.get?_eq_none hl]
    exact iff_of_false Bool.false_ne_true fun h => hl (hlisted h)

/-! ## 2. Object types that an execution comes to -/

/-- The roots lead to the type of every field that can be found on an object type to which they
lead. -/
theorem SchemaDescription.Builds.reaches_of_field? {description : SchemaDescription}
    {schema : Schema} (hb : description.Builds schema) {type : ObjectType}
    (ht : schema.types.get? type.name = some (.object type)) (hr : schema.Reaches type.name)
    {name : Name} {found : FoundField} (hf : schema.field? type name = some found) :
    schema.Reaches found.definition.type.innermost := by
  have htype : schema.Reaches "__Type" := by
    have hfield : ∃ field ∈ schemaType.fields.entries, field.type.innermost = "__Type" := by
      decide
    obtain ⟨field, hm, hn⟩ := hfield
    exact hn ▸ Schema.reaches_schemaType.of_edge (.field hb.get?_schemaType rfl hm)
  cases found with
  | declared definition =>
    have hm := (Table.get?_eq_some_iff.mp (Schema.field?_eq_declared hf).2).1
    exact hr.of_edge (.field ht rfl hm)
  | schema => exact Schema.reaches_schemaType
  | type => exact htype
  | typename =>
    obtain ⟨field, hm, hn⟩ := exists_field_string
    have hstring := htype.of_edge (.field hb.get?_typeType rfl hm)
    rw [hn] at hstring
    exact hstring

section Visits

variable {σ : Type} {application : Application σ} {schema : Schema}

/-- What is found in a value is of object types to which the type of the value leads. -/
theorem Application.Finds.reaches
    (hn : ∀ abstractType, application.NamesPossible schema abstractType) {type : TypeRef}
    {value source : Value} {objectType : ObjectType}
    (h : application.Finds schema type value objectType source)
    (hr : schema.Reaches type.innermost) :
    schema.types.get? objectType.name = some (.object objectType) ∧
      schema.Reaches objectType.name := by
  induction h with
  | object _ ht =>
    obtain rfl := (Table.get?_eq_some_iff.mp ht).2
    exact ⟨ht, hr⟩
  | abstract hv ht ha s hf =>
    obtain ⟨hregistered, hp⟩ := possible_of_objectTypeOf (hn _) hv hf
    exact ⟨hregistered, hr.of_edge (.possibleType ht ha hp)⟩
  | item _ _ ih => exact ih hr

/-- One visit after another, the roots lead to the object types that an execution comes to. -/
theorem Environment.reaches_of_visits {env : Environment σ} {description : SchemaDescription}
    (hb : description.Builds env.schema)
    (hn : ∀ abstractType, env.application.NamesPossible env.schema abstractType)
    {visit last : Visit} (h : Relation.ReflTransGen env.Visits visit last)
    (ht : env.schema.types.get? visit.type.name = some (.object visit.type))
    (hr : env.schema.Reaches visit.type.name) :
    env.schema.types.get? last.type.name = some (.object last.type) ∧
      env.schema.Reaches last.type.name := by
  induction h with
  | refl => exact ⟨ht, hr⟩
  | tail _ hstep ih =>
    obtain ⟨group, -, found, hf, s, value, -, hfinds, -⟩ := hstep
    obtain ⟨hregistered, hreached⟩ := ih
    exact hfinds.reaches hn (hb.reaches_of_field? hregistered hreached hf)

/-- The roots lead to the root types. -/
theorem Schema.reaches_of_rootOf {operation : Operation} {type : ObjectType}
    (hr : schema.rootOf operation = .ok type) : schema.Reaches type.name := by
  unfold rootOf at hr
  split at hr
  · cases hr
    exact reaches_query
  · split at hr
    · next hm =>
      cases hr
      exact reaches_mutation hm
    · cases hr
  · cases hr

end Visits

/-! ## 3. Fragments by their type conditions -/

/-- On an object type fragments are collected by their type conditions: the selections of a fragment
that is not excluded by directives are collected if the object type meets its condition, and passed
over if it does not. -/
structure Scope.CollectsBy (scope : Scope) (objectType : Name) (meets : Name → Prop) : Prop where
  inline : ∀ {expand : List Selection → Collected → Collected} {condition : Name}
    {directives : List DirectiveUse} {inner : List Selection} {found : Collected},
    scope.includes directives = true → meets condition →
      scope.collectOne objectType expand (.inline (some condition) directives inner) found =
        scope.collectAll objectType expand inner found
  inlinePassed : ∀ {expand : List Selection → Collected → Collected} {condition : Name}
    {directives : List DirectiveUse} {inner : List Selection} {found : Collected},
    scope.includes directives = false ∨ ¬ meets condition →
      scope.collectOne objectType expand (.inline (some condition) directives inner) found = found
  spread : ∀ {expand : List Selection → Collected → Collected} {name : Name}
    {directives : List DirectiveUse} {fragment : Fragment} {found : Collected},
    Fragment.find? scope.fragments name = some fragment → name ∉ found.visited →
    scope.includes directives = true → scope.includes fragment.directives = true →
    meets fragment.condition →
      scope.collectOne objectType expand (.spread name directives) found =
        expand fragment.selections { found with visited := name :: found.visited }
  spreadPassed : ∀ {expand : List Selection → Collected → Collected} {name : Name}
    {directives : List DirectiveUse} {fragment : Fragment} {found : Collected},
    Fragment.find? scope.fragments name = some fragment →
    name ∈ found.visited ∨ scope.includes directives = false ∨
        scope.includes fragment.directives = false ∨ ¬ meets fragment.condition →
      (scope.collectOne objectType expand (.spread name directives) found).nodes = found.nodes

theorem Scope.collectsBy_of_applies_iff {scope : Scope} {objectType : Name} {meets : Name → Prop}
    (h : ∀ condition, scope.applies objectType condition = true ↔ meets condition) :
    scope.CollectsBy objectType meets where
  inline hi hm := by
    rw [collectOne]
    simp [hi, (h _).mpr hm]
  inlinePassed hp := by
    rw [← h] at hp
    rw [collectOne]
    simp only [Option.all_some]
    rcases hp with hp | hp <;> simp [hp]
  spread hf hn hi hinner hm := by
    simp [collectOne, hf, hn, hi, hinner, (h _).mpr hm]
  spreadPassed := by
    intro expand name directives fragment found hf hp
    rw [← h] at hp
    rw [collectOne]
    split
    · rfl
    · next hincluded =>
      have hexcluded : (scope.includes fragment.directives &&
          scope.applies objectType fragment.condition) = false := by
        rcases hp with hp | hp | hp | hp
        · simp [hp] at hincluded
        · simp [hp] at hincluded
        · simp [hp]
        · simp [hp]
      simp [hf, hexcluded]

/-- Type conditions are as object types match them. This holds for every object that an execution
comes to whose object type the roots lead to, which is all of them if type resolvers name possible
types. An object type matches its own name, the interfaces that it is a possible type of, and of the
unions those that are listed. -/
theorem Execution.collectsBy_matches {description : SchemaDescription} {schema : Schema}
    (hb : description.build = .ok schema) {execution : Execution} {document : Document}
    {prepared : Prepared} (hp : execution.prepare schema document = .ok prepared) {σ : Type}
    {application : Application σ} {visit : Visit}
    (hv : Relation.ReflTransGen
      (execution.environment schema application document prepared).Visits
      (execution.rootVisit prepared) visit)
    (hr : schema.Reaches visit.type.name ∨
      ∀ abstractType, application.NamesPossible schema abstractType) :
    (prepared.scope schema document).CollectsBy visit.type.name
      (schema.Matches visit.type.name) := by
  have hbuilds := SchemaDescription.builds hb
  obtain ⟨-, hroot, -⟩ := prepare_eq_ok hp
  have hruntime := hbuilds.runtimeType_rootOf hroot
  have hvisit : schema.types.get? visit.type.name = some (.object visit.type) ∧
      schema.Reaches visit.type.name := by
    rcases hr with hr | hn
    · have henters := Relation.ReflTransGen.mono
        (fun _ _ h => Environment.Visits.enters h) _ _ hv
      have hm : .object visit.type ∈ schema.types.entries :=
        Environment.mem_entries_of_enters hruntime.mem_entries henters
      exact ⟨Table.get?_eq_some_iff.mpr ⟨hm, rfl⟩, hr⟩
    · have hregistered := Table.get?_eq_some_iff.mpr ⟨hruntime.mem_entries, rfl⟩
      exact Environment.reaches_of_visits hbuilds hn hv hregistered
        (Schema.reaches_of_rootOf hroot)
  exact Scope.collectsBy_of_applies_iff fun _ => Scope.applies_iff hvisit.1 hvisit.2

namespace Sample

def zooDog : ObjectType where
  name := "Dog"
  interfaces := ["Animal"]
  fields := .ofList [{ name := "name", type := .named "String" false }]

/-- Dogs are animals and pets. They are strays as well, but to strays nothing leads. -/
def zooDescription : SchemaDescription where
  query := some "Query"
  types := [
    .object {
      name := "Query"
      fields := .ofList [
        { name := "animal", type := .named "Animal" false },
        { name := "pet", type := .named "Pet" false },
        { name := "name", type := .named "String" false }] },
    .interface {
      name := "Animal"
      fields := .ofList [{ name := "name", type := .named "String" false }] },
    .object zooDog,
    .union { name := "Pet", members := ["Dog"] },
    .union { name := "Stray", members := ["Dog", "Query"] }]

theorem isSome_build_zoo : zooDescription.build.toOption.isSome = true := by decide

def zoo : Schema :=
  zooDescription.build.toOption.get isSome_build_zoo

theorem build_zoo : zooDescription.build = .ok zoo :=
  Except.eq_ok_get isSome_build_zoo

/-- Every animal is a dog. -/
def keeper : Application Unit where
  resolver _ field := if field = "animal" then some fun info => pure (.ok info.source) else none
  resolveType abstractType :=
    if abstractType = "Animal" then some fun _ => pure (some "Dog") else none

theorem namesPossible_keeper (abstractType : Name) : keeper.NamesPossible zoo abstractType := by
  intro resolve hr value s name _ hanswer _
  unfold keeper at hr
  dsimp only at hr
  split at hr
  · next hanimal =>
    cases hr
    cases hanswer
    rw [hanimal]
    decide
  · cases hr

/-- What is selected on an animal, by its being a pet and by its being a stray. -/
def conditioned : List Selection :=
  [.inline (some "Pet") [] [select "name" [] []], .inline (some "Stray") [] [select "name" [] []]]

def zooDocument : Document where
  operations := [query (select "animal" [] conditioned)]
  fragments := []

def zooExecution : Execution where
  root := .map [("name", .string "Rex")]

def zooPrepared : Prepared where
  operation := query (select "animal" [] conditioned)
  rootType := zoo.query
  variableValues := []

theorem prepare_zoo : zooExecution.prepare zoo zooDocument = .ok zooPrepared := rfl

def dogVisit : Visit where
  type := zooDog
  source := zooExecution.root
  selections := conditioned

/-- The animal is visited as a dog. -/
theorem visits_dog : (zooExecution.environment zoo keeper zooDocument zooPrepared).Visits
    (zooExecution.rootVisit zooPrepared) dogVisit := by
  have ht : zoo.types.get? "Animal" = some (.interface {
      name := "Animal"
      fields := .ofList [{ name := "name", type := .named "String" false }] }) := rfl
  have hfinds : keeper.Finds zoo (.named "Animal" false) zooExecution.root zooDog
      zooExecution.root := .abstract rfl ht rfl () rfl
  exact ⟨selectedAlone "animal" [] conditioned, List.mem_singleton_self _,
    .declared { name := "animal", type := .named "Animal" false }, rfl, (), zooExecution.root, rfl,
    hfinds, rfl⟩

theorem not_matches_stray : ¬ zoo.Matches "Dog" "Stray" := by
  intro h
  generalize hc : "Stray" = condition at h
  cases h with
  | itself => exact absurd hc (by decide)
  | interface ht _ =>
    rw [← hc] at ht
    cases ht
  | union _ hl _ =>
    rw [← hc] at hl
    exact absurd hl (by decide)

end Sample

theorem Execution.collectsBy_matches_sample :
    Relation.ReflTransGen
        (Sample.zooExecution.environment Sample.zoo Sample.keeper Sample.zooDocument
          Sample.zooPrepared).Visits
        (Sample.zooExecution.rootVisit Sample.zooPrepared) Sample.dogVisit ∧
      (Sample.zooPrepared.scope Sample.zoo Sample.zooDocument).CollectsBy "Dog"
        (Sample.zoo.Matches "Dog") ∧
      Sample.zoo.Matches "Dog" "Animal" ∧ Sample.zoo.Matches "Dog" "Pet" ∧
      ¬ Sample.zoo.Matches "Dog" "Stray" := by
  have hvisits := Relation.ReflTransGen.single Sample.visits_dog
  refine ⟨hvisits, ?_, .interface rfl (by decide),
    .union rfl (by decide) (by decide +kernel), Sample.not_matches_stray⟩
  exact collectsBy_matches Sample.build_zoo Sample.prepare_zoo hvisits
    (Or.inr Sample.namesPossible_keeper)

/-- A union that no root leads to is no condition that its members meet. -/
theorem Execution.not_collected_of_possible :
    Sample.zooDescription.build = .ok Sample.zoo ∧
      (∃ type, Sample.zoo.types.get? "Stray" = some (.union type)) ∧
      "Query" ∈ Sample.zoo.possibleTypes "Stray" ∧
      Sample.zooExecution.Returns Sample.zoo Sample.keeper
        { operations := [query (select "name" [] [])], fragments := [] } ()
        { data := .object [("name", .string "Rex")] } () ∧
      Sample.zooExecution.Returns Sample.zoo Sample.keeper
        { operations := [query (.inline (some "Stray") [] [select "name" [] []])], fragments := [] }
        () { data := .object [] } () :=
  ⟨Sample.build_zoo, ⟨_, rfl⟩, by decide, ⟨2, rfl⟩, ⟨2, rfl⟩⟩

end GraphQL
