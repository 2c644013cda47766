import GraphQL.Proofs.Execution.Response
import GraphQL.Proofs.Execution.Visits
import GraphQL.Proofs.Input.LookUps
import GraphQL.Proofs.Introspection.Subjects

/-!
# `GraphQL/Proofs/Execution/Configuration.lean` — a built schema is in order wherever it is used

Execution has an answer for schemas that are not in order: a field of an undefined type and a field
of an input object type are reported, and a name that is not registered is read as null or passed
over. Building rules these schemas out, and here it is shown that it rules out enough, although it
looks at each definition once and execution gets at types in many ways.

That the two reports are never made is said by putting anything else in their place: an engine in
which arbitrary runs stand there (`Execution.runOr?`) is the engine itself, as far as built schemas
are concerned. That names are found is said of all names that an execution can come to look up
(`Execution.LooksUp`).
-/

set_option autoImplicit false

namespace GraphQL

open Introspection

/-! ## 1. An engine without the two reports -/

section Completion

variable {σ : Type} (stray : FieldGroup → CompletionFault → Run σ Json)
variable (schema : Schema) (application : Application σ)
variable (execute : ObjectType → Value → List Selection → Run σ Json.Members) (group : FieldGroup)

/-- Completes a value that is not null at a named type. What happens where there is no such type, or
an input object type, is open. -/
def completeNamedOr (name : Name) (value : Value) : Run σ Json :=
  match schema.types.get? name with
  | none => stray group (.undefinedType name)
  | some (.input _) => stray group (.inputObjectType name)
  | some _ => completeNamed schema application execute group name value

/-- Completes a value at a type. -/
def completeOr : TypeRef → Value → Run σ Json
  | .named name required, value =>
    excludeNull group (.named name required) <|
      if value.isNull then pure .null
      else completeNamedOr stray schema application execute group name value
  | .list item required, value =>
    excludeNull group (.list item required) <|
      match value with
      | .null => pure .null
      | .list items => do return .array (← completeItems (completeOr item) item 0 items)
      | _ => Run.failWith group .notAList

end Completion

namespace Environment

variable {σ : Type} (env : Environment σ) (stray : FieldGroup → CompletionFault → Run σ Json)
variable (execute : ObjectType → Value → List Selection → Run σ Json.Members)

/-- Resolves a field and completes its value. -/
def executeFoundOr (type : ObjectType) (source : Value) (group : FieldGroup)
    (found : FoundField) : Run σ Json :=
  let definition := found.definition
  let run : Run σ Json := do
    let info := env.resolveInfo type source group definition
    match ← Run.ofState (env.resolve found info) with
    | .ok value => completeOr stray env.schema env.application execute group definition.type value
    | .error error => Run.fail (group.report error.message error.extensions)
  (run.under (.field group.key)).absorb (!definition.type.required) .null

/-- Executes a group of field nodes. -/
def executeGroupOr (type : ObjectType) (source : Value) (group : FieldGroup) :
    Run σ (Option Json) :=
  match env.schema.field? type group.first.name with
  | none => pure none
  | some found => do return some (← env.executeFoundOr stray execute type source group found)

/-- Executes groups of field nodes, one after the other. -/
def executeGroupsOr (type : ObjectType) (source : Value) : List FieldGroup → Run σ Json.Members
  | [] => pure []
  | group :: rest => do
    let data ← env.executeGroupOr stray execute type source group
    let others ← executeGroupsOr type source rest
    return match data with
      | some data => (group.key, data) :: others
      | none => others

/-- Executes a selection set on an object, with at most `depth` selection sets inside each other. -/
def executeSelectionsOr : Nat → ObjectType → Value → List Selection → Run σ Json.Members
  | 0, _, _, _ => Run.exhausted
  | depth + 1, type, source, selections =>
    env.executeGroupsOr stray (executeSelectionsOr depth) type source
      (env.collectGroups type.name selections)

end Environment

/-- Executes an operation of a document. -/
def Execution.runOr? {σ : Type} (execution : Execution)
    (stray : FieldGroup → CompletionFault → Run σ Json) (depth : Nat) (schema : Schema)
    (application : Application σ) (document : Document) (state : σ) : Option (Response × σ) :=
  match execution.prepare schema document with
  | .error error => some (error.response, state)
  | .ok prepared =>
    let env := execution.environment schema application document prepared
    let run := env.executeSelectionsOr stray depth prepared.rootType execution.root
      prepared.operation.selections
    (run state).map fun (outcome, state) => (respond outcome, state)

theorem Schema.Opens.runtimeType {schema : Schema} {type : TypeRef} {value source : Value}
    {objectType : ObjectType} (h : schema.Opens type value objectType source) :
    ∃ name, schema.RuntimeType name objectType := by
  induction h with
  | object _ hr => exact ⟨_, hr⟩
  | item _ _ ih => exact ih

section Agreement

variable {σ : Type} {stray : FieldGroup → CompletionFault → Run σ Json}

/-- The two engines do the same at a name. -/
def Schema.Sound (schema : Schema) (stray : FieldGroup → CompletionFault → Run σ Json)
    (name : Name) : Prop :=
  ∀ (application : Application σ) (execute : ObjectType → Value → List Selection →
      Run σ Json.Members) (group : FieldGroup) (value : Value),
    completeNamedOr stray schema application execute group name value =
      completeNamed schema application execute group name value

theorem Schema.sound_of_output {schema : Schema} {name : Name} {type : TypeDefinition}
    (ht : schema.types.get? name = some type) (ho : type.isOutput = true) :
    schema.Sound stray name := by
  intro application execute group value
  unfold completeNamedOr
  rw [ht]
  cases type <;> first | rfl | cases ho

theorem Schema.sound_failWith (schema : Schema) (name : Name) :
    schema.Sound (σ := σ) Run.failWith name := by
  intro application execute group value
  unfold completeNamedOr completeNamed
  cases schema.types.get? name with
  | none => rfl
  | some type => cases type <;> rfl

theorem completeOr_eq {schema : Schema} {type : TypeRef} (h : schema.Sound stray type.innermost)
    (application : Application σ)
    (execute : ObjectType → Value → List Selection → Run σ Json.Members) (group : FieldGroup) :
    completeOr stray schema application execute group type =
      complete schema application execute group type := by
  funext value
  induction type generalizing value with
  | named name required =>
    rw [TypeRef.innermost] at h
    rw [completeOr, complete, h]
  | list item required ih =>
    have hitem : completeOr stray schema application execute group item =
        complete schema application execute group item := funext fun value => ih h value
    cases value <;> simp only [completeOr, complete, hitem]

namespace Environment

variable {env : Environment σ}
variable {execute : ObjectType → Value → List Selection → Run σ Json.Members}

theorem executeFoundOr_eq {type : ObjectType} {source : Value} {group : FieldGroup}
    {found : FoundField} (h : env.schema.Sound stray found.definition.type.innermost) :
    env.executeFoundOr stray execute type source group found =
      env.executeFound execute type source group found := by
  unfold executeFoundOr
  simp only [completeOr_eq h]
  rfl

theorem executeGroupsOr_eq {type : ObjectType}
    (h : ∀ name found, env.schema.field? type name = some found →
      env.schema.Sound stray found.definition.type.innermost)
    (source : Value) (groups : List FieldGroup) :
    env.executeGroupsOr stray execute type source groups =
      env.executeGroups execute type source groups := by
  have hgroup : env.executeGroupOr stray execute type source =
      env.executeGroup execute type source := by
    funext group
    unfold executeGroupOr executeGroup
    cases hf : env.schema.field? type group.first.name with
    | none => rfl
    | some found => simp only [executeFoundOr_eq (h _ found hf)]
  induction groups with
  | nil => rfl
  | cons group rest ih =>
    rw [executeGroupsOr, hgroup, ih]
    rfl

/-- The two engines do the same from a visit on, if they do the same at the types of the fields of
every object type that an execution can come to. -/
theorem executeSelectionsOr_eq {P : ObjectType → Prop}
    (hr : ∀ name type, env.schema.RuntimeType name type → P type)
    (hf : ∀ type, P type → ∀ name found, env.schema.field? type name = some found →
      env.schema.Sound stray found.definition.type.innermost)
    (depth : Nat) {type : ObjectType} (hp : P type) (source : Value)
    (selections : List Selection) :
    env.executeSelectionsOr stray depth type source selections =
      env.executeSelections depth type source selections := by
  induction depth generalizing type source selections with
  | zero => rfl
  | succ depth ih =>
    rw [executeSelectionsOr, executeSelections, executeGroupsOr_eq (hf type hp)]
    have hnext : ∀ next, env.Enters ⟨type, source, selections⟩ next →
        env.executeSelectionsOr stray depth next.type next.source next.selections =
          env.executeSelections depth next.type next.source next.selections := by
      rintro next ⟨group, -, found, -, s, value, -, hopens, -⟩
      obtain ⟨name, hruntime⟩ := hopens.runtimeType
      exact ih (hr name _ hruntime) _ _
    exact executeGroups_eq_of_enters hnext

end Environment

/-- With the two reports in their places, the engine is the one that runs, whatever the schema. -/
theorem Execution.runOr?_failWith (execution : Execution) (depth : Nat) (schema : Schema)
    (application : Application σ) (document : Document) (s : σ) :
    execution.runOr? Run.failWith depth schema application document s =
      execution.run? depth schema application document s := by
  unfold runOr? run?
  cases execution.prepare schema document with
  | error error => rfl
  | ok prepared =>
    dsimp only
    rw [Environment.executeSelectionsOr_eq (P := fun _ => True) (fun _ _ _ => trivial)
      (fun _ _ _ _ _ => Schema.sound_failWith schema _) depth trivial]

end Agreement

/-! ## 2. What building has checked -/

theorem Introspection.exists_field_string :
    ∃ field ∈ typeType.fields.entries, field.type.innermost = "String" := by
  decide

namespace SchemaDescription.Builds

variable {description : SchemaDescription} {schema : Schema}

theorem checkField_of_mem (hb : description.Builds schema) {type : ObjectType}
    (hm : .object type ∈ schema.types.entries) {field : FieldDefinition}
    (hf : field ∈ type.fields.entries) : checkField schema.types type.name field = .ok () := by
  obtain ⟨_, -, hfields⟩ := Except.bind_eq_ok (checkAll_eq_ok hb.typesChecked _ hm)
  exact checkAll_eq_ok hfields field hf

theorem output_of_declared (hb : description.Builds schema) {type : ObjectType}
    (hm : .object type ∈ schema.types.entries) {field : FieldDefinition}
    (hf : field ∈ type.fields.entries) :
    ∃ output, schema.types.get? field.type.innermost = some output ∧ output.isOutput = true := by
  obtain ⟨_, ht, -⟩ := Except.bind_eq_ok (hb.checkField_of_mem hm hf)
  exact get?_of_checkReference ht

theorem mem_typeType (hb : description.Builds schema) :
    .object typeType ∈ schema.types.entries :=
  (Table.get?_eq_some_iff.mp hb.get?_typeType).1

/-- The name `String` is that of an output type, whoever has taken it: the fields of `__Type` are
checked like all others, and some have that type. -/
theorem output_string (hb : description.Builds schema) :
    ∃ output, schema.types.get? "String" = some output ∧ output.isOutput = true := by
  obtain ⟨field, hm, hn⟩ := exists_field_string
  exact hn ▸ hb.output_of_declared hb.mem_typeType hm

/-- Every field that an execution can find has an output type, the three that no type declares
included. -/
theorem output_of_field? (hb : description.Builds schema) {type : ObjectType}
    (hm : .object type ∈ schema.types.entries) {name : Name} {found : FoundField}
    (hf : schema.field? type name = some found) :
    ∃ output, schema.types.get? found.definition.type.innermost = some output ∧
      output.isOutput = true := by
  cases found with
  | declared definition =>
    have hd := (Table.get?_eq_some_iff.mp (Schema.field?_eq_declared hf).2).1
    exact hb.output_of_declared hm hd
  | schema => exact ⟨_, hb.get?_schemaType, rfl⟩
  | type => exact ⟨_, hb.get?_typeType, rfl⟩
  | typename => exact hb.output_string

theorem registered_argument (hb : description.Builds schema) {type : ObjectType}
    (hm : .object type ∈ schema.types.entries) {name : Name} {found : FoundField}
    (hf : schema.field? type name = some found) {input : InputValueDefinition}
    (hi : input ∈ found.definition.arguments) :
    input.type.innermost ∈ schema.types.names := by
  cases found with
  | declared definition =>
    have hd := (Table.get?_eq_some_iff.mp (Schema.field?_eq_declared hf).2).1
    exact (registered_of_checkField (hb.checkField_of_mem hm hd)).2 input hi
  | type =>
    obtain ⟨output, ho, -⟩ := hb.output_string
    rw [List.mem_singleton.mp hi]
    exact Table.mem_names_iff.mpr ⟨output, ho⟩
  | _ => cases hi

/-- Possible types are object types. -/
theorem object?_of_possibleType (hb : description.Builds schema) {abstractType name : Name}
    (hm : name ∈ schema.possibleTypes abstractType) :
    ∃ type, schema.object? name = some type := by
  rcases Table.mem_possibleTypes.mp hm with ⟨type, hobject, -, rfl⟩ | ⟨type, hunion, -, hn⟩
  · have ht : schema.types.get? type.name = some (.object type) :=
      Table.get?_eq_some_iff.mpr ⟨hobject, rfl⟩
    exact ⟨type, by rw [Schema.object?, ht]⟩
  · obtain ⟨member, ht, ho⟩ :=
      get?_of_checkReference (checkAll_eq_ok (checkAll_eq_ok hb.typesChecked _ hunion) name hn)
    cases member with
    | object member => exact ⟨member, by rw [Schema.object?, ht]⟩
    | _ => cases ho

end SchemaDescription.Builds

theorem Schema.RuntimeType.mem_entries {schema : Schema} {name : Name} {type : ObjectType}
    (h : schema.RuntimeType name type) : .object type ∈ schema.types.entries := by
  cases h with
  | itself h => exact (Table.get?_eq_some_iff.mp h).1
  | possible _ _ hr => exact hr

/-- An execution comes to objects of registered types only. -/
theorem Environment.mem_entries_of_enters {σ : Type} {env : Environment σ} {visit last : Visit}
    (hv : .object visit.type ∈ env.schema.types.entries)
    (h : Relation.ReflTransGen env.Enters visit last) :
    .object last.type ∈ env.schema.types.entries := by
  induction h with
  | refl => exact hv
  | tail _ hstep _ =>
    obtain ⟨_, -, _, -, _, _, -, hopens, -⟩ := hstep
    obtain ⟨_, hruntime⟩ := hopens.runtimeType
    exact hruntime.mem_entries

/-- The subjects in what is supplied name registered types only. -/
theorem Schema.Supplies.registered_of_shows {schema : Schema} {type : TypeRef} {value : Value}
    {subject : Subject} (h : schema.Supplies type value) (hs : Shows value subject) :
    subject.Registered schema := by
  induction h with
  | null _ => cases shows_null hs
  | string s => cases shows_string s hs
  | boolean b => cases shows_boolean b hs
  | kind kind => cases shows_kind kind hs
  | subject hr _ =>
    cases shows_value.mp hs
    exact hr
  | list _ ih =>
    rcases hs with h | ⟨items, h, hm⟩
    · cases h
    · cases h
      exact ih _ hm (Or.inl rfl)

/-- A subject leads to subjects that name registered types only, if it does so itself. -/
theorem Introspection.Leads.registered {description : SchemaDescription} {schema : Schema}
    (hb : description.Builds schema) {subject next : Subject} (h : Leads schema subject next)
    (hr : subject.Registered schema) : next.Registered schema := by
  obtain ⟨info, rfl, -, -, hf, hshows⟩ := leads_iff.mp h
  exact (hr.supplies hb hf).registered_of_shows hshows

theorem Introspection.registered_of_leads {description : SchemaDescription} {schema : Schema}
    (hb : description.Builds schema) {subject : Subject}
    (h : Relation.ReflTransGen (Leads schema) .schema subject) : subject.Registered schema := by
  induction h with
  | refl => trivial
  | tail _ hstep ih => exact hstep.registered hb ih

/-! ## 3. What an execution looks up -/

/-- Executing an operation of a document can come to look up the type of a name. -/
inductive Execution.LooksUp {σ : Type} (execution : Execution) (schema : Schema)
    (application : Application σ) (document : Document) : Name → Prop where
  /-- To check and to read what is supplied for a variable of a listed type, or its default. -/
  | supplied {operation : Operation} {definition : VariableDefinition} {name : Name}
    (ho : document.operation? execution.operationName = .ok operation)
    (hm : definition ∈ operation.variableDefinitions)
    (hl : (schema.get? definition.type.innermost).isSome = true)
    (hc : schema.Consults definition.type name) : LooksUp execution schema application document name
  /-- To complete the value of a field, or the items of a list that it is. -/
  | completion {prepared : Prepared} {visit : Visit} {group : FieldGroup} {found : FoundField}
    (hp : execution.prepare schema document = .ok prepared)
    (hv : Relation.ReflTransGen
      (execution.environment schema application document prepared).Enters
      (execution.rootVisit prepared) visit)
    (hg : group ∈ (prepared.scope schema document).collectGroups visit.type.name visit.selections)
    (hf : schema.field? visit.type group.first.name = some found) :
    LooksUp execution schema application document found.definition.type.innermost
  /-- To read an argument of a field. -/
  | argument {prepared : Prepared} {visit : Visit} {group : FieldGroup} {found : FoundField}
    {input : InputValueDefinition} {name : Name}
    (hp : execution.prepare schema document = .ok prepared)
    (hv : Relation.ReflTransGen
      (execution.environment schema application document prepared).Enters
      (execution.rootVisit prepared) visit)
    (hg : group ∈ (prepared.scope schema document).collectGroups visit.type.name visit.selections)
    (hf : schema.field? visit.type group.first.name = some found)
    (hi : input ∈ found.definition.arguments) (hc : schema.Consults input.type name) :
    LooksUp execution schema application document name
  /-- To read an argument of a directive. -/
  | directive {directive : DirectiveDefinition} {input : InputValueDefinition} {name : Name}
    (hd : directive ∈ schema.directives.entries) (hi : input ∈ directive.arguments)
    (hc : schema.Consults input.type name) : LooksUp execution schema application document name
  /-- To find out which of several object types a value belongs to. -/
  | possibleType {abstractType name : Name} (hm : name ∈ schema.possibleTypes abstractType) :
    LooksUp execution schema application document name
  /-- To tell a client of a type that the schema leads to. -/
  | introspection {name : Name}
    (h : Relation.ReflTransGen (Leads schema) .schema (.type (.named name false))) :
    LooksUp execution schema application document name

/-- Built schemas rule out configuration errors. The two branches that report one are never taken:
any runs can stand in their place. Every name that an execution can come to look up is registered,
and a possible type is registered as an object type. And no reading at a registered type misses a
name: it comes to the same in every schema that has the same types under all names that are
registered here, whatever else it has. -/
theorem Execution.no_configuration_error {description : SchemaDescription} {schema : Schema}
    (hb : description.build = .ok schema) {σ : Type} (application : Application σ)
    (document : Document) (execution : Execution) :
    (∀ stray depth s, execution.runOr? stray depth schema application document s =
      execution.run? depth schema application document s) ∧
    (∀ name, execution.LooksUp schema application document name →
      ∃ type, schema.types.get? name = some type) ∧
    (∀ abstractType, ∀ name ∈ schema.possibleTypes abstractType,
      ∃ type, schema.object? name = some type) ∧
    ∀ wider : Schema, (∀ name type, schema.types.get? name = some type →
        wider.types.get? name = some type) →
      ∀ type : TypeRef, type.innermost ∈ schema.types.names →
        (∀ values literal, wider.coerceLiteral values literal type =
          schema.coerceLiteral values literal type) ∧
        ∀ json, wider.isValid (.ofJson json) type = schema.isValid (.ofJson json) type ∧
          wider.coerceSupplied (.ofJson json) type = schema.coerceSupplied (.ofJson json) type := by
  have hbuilds := SchemaDescription.builds hb
  refine ⟨fun stray depth s => ?_, fun name h => ?_,
    fun _ _ hm => hbuilds.object?_of_possibleType hm, fun wider hw type hr => ?_⟩
  · unfold runOr? run?
    cases hp : execution.prepare schema document with
    | error error => rfl
    | ok prepared =>
      have hroot := (hbuilds.runtimeType_rootOf (prepare_eq_ok hp).2.1).mem_entries
      dsimp only
      rw [Environment.executeSelectionsOr_eq
        (P := fun type => .object type ∈ schema.types.entries) (fun _ _ h => h.mem_entries)]
      · intro type hm name found hf
        obtain ⟨output, ht, ho⟩ := hbuilds.output_of_field? hm hf
        exact Schema.sound_of_output ht ho
      · exact hroot
  · rw [← Table.mem_names_iff]
    cases h with
    | supplied _ _ hl hc => exact hbuilds.registered_of_consults (Schema.registered_of_get? hl) hc
    | completion hp hv _ hf =>
      have hroot := (hbuilds.runtimeType_rootOf (prepare_eq_ok hp).2.1).mem_entries
      obtain ⟨output, ht, -⟩ :=
        hbuilds.output_of_field? (Environment.mem_entries_of_enters hroot hv) hf
      exact Table.mem_names_iff.mpr ⟨output, ht⟩
    | argument hp hv _ hf hi hc =>
      have hroot := (hbuilds.runtimeType_rootOf (prepare_eq_ok hp).2.1).mem_entries
      have hm := Environment.mem_entries_of_enters hroot hv
      exact hbuilds.registered_of_consults (hbuilds.registered_argument hm hf hi) hc
    | directive hd hi hc =>
      have hregistered := hbuilds.registered_directive hd _ (List.mem_map_of_mem hi)
      exact hbuilds.registered_of_consults hregistered hc
    | possibleType hm => exact hbuilds.registered_of_possibleType hm
    | introspection h => exact registered_of_leads hbuilds h
  · have hagree : schema.AgreeAt wider type := by
      intro name hc
      obtain ⟨definition, ht⟩ := Table.mem_names_iff.mp (hbuilds.registered_of_consults hr hc)
      rw [ht, hw name definition ht]
    exact ⟨fun values literal => Schema.coerceLiteral_congr values hagree, fun json =>
      ⟨Schema.isValid_congr hagree, Schema.coerceSupplied_congr hagree⟩⟩

theorem Execution.no_configuration_error_sample :
    (∀ stray depth, runOr? {} stray depth Sample.schema Sample.application Sample.document () =
      run? {} depth Sample.schema Sample.application Sample.document ()) ∧
    LooksUp {} Sample.schema Sample.application Sample.document "Boolean" ∧
    ∃ type, Sample.schema.types.get? "Boolean" = some type := by
  have hd : includeDirective ∈ Sample.schema.directives.entries := by
    rw [(SchemaDescription.builds Sample.build_eq_ok).entries_directives]
    exact List.mem_cons_self
  have hl : LooksUp {} Sample.schema Sample.application Sample.document "Boolean" :=
    .directive hd (List.mem_singleton_self _) .refl
  obtain ⟨hrun, hfound, -, -⟩ := no_configuration_error Sample.build_eq_ok Sample.application
    Sample.document {}
  exact ⟨fun stray depth => hrun stray depth (), hl, hfound _ hl⟩

end GraphQL
