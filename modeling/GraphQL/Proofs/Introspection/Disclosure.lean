import GraphQL.Proofs.Execution.PureRuns
import GraphQL.Proofs.Execution.Response
import GraphQL.Proofs.Introspection.Listing
import GraphQL.Proofs.Schema.Undescribed

/-!
# `GraphQL/Proofs/Introspection/Disclosure.lean` — what is told with introspection disabled

Where introspection is disabled, `__schema` and `__type` are answered with an error, and that is the
only guard. It is enough if no other field leads into the types of introspection: no root type, no
type of a field, no member of a union and no answer of a type resolver is one of them
(`Schema.KeepsApart`, `Application.KeepsApart`). Then an execution on a schema is the execution on
the schema without its descriptions (`Execution.run?_undescribed`), so two schemas that differ in
nothing else give the same response to every request (`Execution.run?_eq_of_undescribed`).

The induction is on the nesting of selection sets, for object types whose names are not reserved:
from the objects of such a type an execution only comes to objects of such types, and on them it
never meets a resolver of introspection.
-/

set_option autoImplicit false

namespace GraphQL

/-! ## 1. Collection -/

def Scope.undescribed (scope : Scope) : Scope :=
  { scope with schema := scope.schema.undescribed }

namespace Scope

variable {scope : Scope}

theorem condition?_undescribed (directive : DirectiveUse) :
    scope.undescribed.condition? directive = scope.condition? directive := by
  unfold condition?
  simp only [undescribed, Schema.get?_directives_undescribed]
  cases scope.schema.directives.get? directive.name with
  | none => rfl
  | some definition =>
    have harguments : scope.schema.undescribed.coerceArguments _ _ _ = _ :=
      Schema.coerceArguments_undescribed scope.variableValues definition.arguments
        directive.arguments
    exact congrArg (fun values => (Entries.get? values "if").bind Value.boolean?) harguments

theorem includes_undescribed (directives : List DirectiveUse) :
    scope.undescribed.includes directives = scope.includes directives := by
  induction directives with
  | nil => rfl
  | cons directive rest ih => simp only [includes, condition?_undescribed, ih]

theorem applies_undescribed (objectType : Name) :
    scope.undescribed.applies objectType = scope.applies objectType := by
  funext condition
  simp only [applies, undescribed, Schema.get?_undescribed]
  cases scope.schema.get? condition with
  | none => rfl
  | some type =>
    cases type <;>
      simp [TypeDefinition.undescribed, Schema.isPossibleType, Schema.possibleTypes_undescribed]

section Expand

variable {objectType : Name} {expand : List Selection → Collected → Collected}

mutual

theorem collectOne_undescribed (selection : Selection) (found : Collected) :
    scope.undescribed.collectOne objectType expand selection found =
      scope.collectOne objectType expand selection found := by
  match selection with
  | .field head selections => simp only [collectOne, includes_undescribed]
  | .inline condition directives selections =>
    simp only [collectOne, includes_undescribed, applies_undescribed,
      collectAll_undescribed selections]
  | .spread name directives =>
    simp only [collectOne, includes_undescribed, applies_undescribed]
    rfl

theorem collectAll_undescribed (selections : List Selection) (found : Collected) :
    scope.undescribed.collectAll objectType expand selections found =
      scope.collectAll objectType expand selections found := by
  match selections with
  | [] => rfl
  | selection :: rest =>
    rw [collectAll, collectAll, collectOne_undescribed selection, collectAll_undescribed rest]

end

end Expand

theorem collectGroups_undescribed (objectType : Name) (selections : List Selection) :
    scope.undescribed.collectGroups objectType selections =
      scope.collectGroups objectType selections := by
  have hwithin : ∀ depth, scope.undescribed.collectWithin objectType depth =
      scope.collectWithin objectType depth := by
    intro depth
    funext selections found
    induction depth generalizing selections found with
    | zero => exact collectAll_undescribed selections found
    | succ depth ih =>
      rw [collectWithin, collectWithin, collectAll_undescribed, funext fun s => funext (ih s)]
  rw [collectGroups, collectGroups, collect, collect, hwithin]
  rfl

end Scope

/-! ## 2. Schemas that keep introspection apart -/

/-- The names that the fields and the members of a type lead to. -/
def TypeDefinition.outputs : TypeDefinition → List Name
  | .object type => type.fields.entries.map (·.type.innermost)
  | .interface type => type.fields.entries.map (·.type.innermost)
  | .union type => type.members
  | .scalar _ | .enum _ | .input _ => []

/-- No root of the schema is a type of introspection, and no other type leads to one. -/
structure Schema.KeepsApart (schema : Schema) : Prop where
  roots : ∀ name ∈ rootNames schema.query schema.mutation, isReserved name = false
  outputs : ∀ type ∈ schema.types.entries, isReserved type.name = false →
    ∀ name ∈ type.outputs, isReserved name = false

/-- No type resolver names a type of introspection. -/
def Application.KeepsApart {σ : Type} (application : Application σ) : Prop :=
  ∀ abstractType resolve, application.resolveType abstractType = some resolve →
    ∀ value s name, (resolve value s).1 = some name → isReserved name = false

theorem TypeDefinition.outputs_undescribed (type : TypeDefinition) :
    type.undescribed.outputs = type.outputs := by
  cases type with
  | object type =>
    rw [undescribed, outputs, outputs, ObjectType.undescribed, Table.entries_map, List.map_map]
    rfl
  | interface type =>
    rw [undescribed, outputs, outputs, InterfaceType.undescribed, Table.entries_map, List.map_map]
    rfl
  | _ => rfl

/-- Whether introspection is kept apart is no matter of descriptions. -/
theorem Schema.KeepsApart.of_undescribed {schema schema' : Schema} (hk : schema.KeepsApart)
    (h : schema'.undescribed = schema.undescribed) : schema'.KeepsApart where
  roots := by
    rw [← rootNames_undescribed, h, rootNames_undescribed]
    exact hk.roots
  outputs := by
    intro type' hm hn
    have hm' : type'.undescribed ∈ schema.undescribed.types.entries := by
      rw [← h]
      exact List.mem_map_of_mem hm
    obtain ⟨type, hmem, he⟩ := List.mem_map.mp hm'
    have hname : type.name = type'.name := by
      rw [← type.name_undescribed, he, type'.name_undescribed]
    have houtputs : type.outputs = type'.outputs := by
      rw [← type.outputs_undescribed, he, type'.outputs_undescribed]
    rw [← houtputs]
    exact hk.outputs type hmem (by rwa [hname])

/-- An object type that is not one of introspection. -/
def Schema.Apart (schema : Schema) (type : ObjectType) : Prop :=
  .object type ∈ schema.types.entries ∧ isReserved type.name = false

section Apart

variable {description : SchemaDescription} {schema : Schema}

theorem Schema.apart_of_get? {name : Name} (hn : isReserved name = false) {type : ObjectType}
    (h : schema.types.get? name = some (.object type)) : schema.Apart type := by
  obtain ⟨hm, rfl⟩ := Table.get?_eq_some_iff.mp h
  exact ⟨hm, hn⟩

theorem Schema.apart_of_object? {name : Name} (hn : isReserved name = false) {type : ObjectType}
    (h : schema.object? name = some type) : schema.Apart type := by
  unfold object? at h
  split at h
  · next found hf =>
    cases h
    exact apart_of_get? hn hf
  · cases h

/-- Only types of the author implement interfaces. -/
theorem SchemaDescription.Builds.unreserved_of_implements (hb : description.Builds schema)
    {type : ObjectType} (hm : .object type ∈ schema.types.entries) {interface : Name}
    (hi : interface ∈ type.interfaces) : isReserved type.name = false := by
  have hmeta : ∀ other, .object other ∈ Introspection.metaTypes → other.interfaces = [] := by
    simp only [Introspection.metaTypes, List.mem_cons, TypeDefinition.object.injEq, reduceCtorEq,
      List.not_mem_nil, or_false]
    rintro other (rfl | rfl | rfl | rfl | rfl | rfl) <;> rfl
  rw [hb.entries_types, allTypes, List.append_assoc] at hm
  rcases List.mem_append.mp hm with hm | hm
  · exact hb.unreserved _ hm
  · rcases List.mem_append.mp hm with hm | hm
    · rw [hmeta type hm] at hi
      cases hi
    · obtain ⟨_, -, h⟩ := List.mem_map.mp hm
      cases h

/-- The object types that an abstract type stands for are not those of introspection. -/
theorem Schema.KeepsApart.possibleTypes (hk : schema.KeepsApart) (hb : description.Builds schema)
    {abstractType name : Name} (hn : isReserved abstractType = false)
    (h : name ∈ schema.possibleTypes abstractType) : isReserved name = false := by
  rcases Table.mem_possibleTypes.mp h with ⟨type, hm, hi, rfl⟩ | ⟨type, hm, rfl, hmember⟩
  · exact hb.unreserved_of_implements hm hi
  · exact hk.outputs (.union type) hm hn name hmember

/-- The root types are not those of introspection. -/
theorem Schema.KeepsApart.apart_of_rootOf (hk : schema.KeepsApart)
    (hb : description.Builds schema) {operation : Operation} {type : ObjectType}
    (h : schema.rootOf operation = .ok type) : schema.Apart type := by
  unfold rootOf at h
  split at h
  · cases h
    exact apart_of_get? (hk.roots _ List.mem_cons_self) hb.get?_query
  · split at h
    · next hm =>
      cases h
      refine apart_of_get? (hk.roots _ (List.mem_cons_of_mem _ ?_)) (hb.get?_mutation hm)
      rw [hm]
      exact List.mem_cons_self
    · cases h
  · cases h

/-- A field of an object type that is kept apart leads to nothing else. -/
theorem Schema.KeepsApart.innermost (hk : schema.KeepsApart) {type : ObjectType}
    (ha : schema.Apart type) {name : Name} {field : FieldDefinition}
    (hf : type.fields.get? name = some field) : isReserved field.type.innermost = false := by
  obtain ⟨hm, hn⟩ := ha
  have hfield := (Table.get?_eq_some_iff.mp hf).1
  exact hk.outputs (.object type) hm hn _ (List.mem_map_of_mem hfield)

end Apart

/-! ## 3. Completion -/

section Completion

variable {description : SchemaDescription} {schema : Schema} {σ : Type}
variable {application : Application σ}

theorem firstTypeOf_undescribed (abstractType : Name) (value : Value) (names : List Name) :
    firstTypeOf schema.undescribed application abstractType value names =
      (Except.map (Option.map ObjectType.undescribed)) <$>
        firstTypeOf schema application abstractType value names := by
  induction names with
  | nil => rfl
  | cons name rest ih =>
    rw [firstTypeOf, firstTypeOf, Schema.object?_undescribed]
    cases schema.object? name with
    | none => exact ih
    | some type =>
      cases application.isTypeOf name with
      | none => rfl
      | some belongs =>
        simp only [Option.map_some, map_bind, ih]
        refine bind_congr fun b => ?_
        cases b <;> rfl

theorem objectTypeOf_undescribed (abstractType : Name) (value : Value) :
    objectTypeOf schema.undescribed application abstractType value =
      (Except.map (Option.map ObjectType.undescribed)) <$>
        objectTypeOf schema application abstractType value := by
  unfold objectTypeOf
  cases application.resolveType abstractType with
  | none =>
    rw [Schema.possibleTypes_undescribed]
    exact firstTypeOf_undescribed abstractType value _
  | some resolve =>
    simp only [map_bind]
    refine bind_congr fun answer => ?_
    cases answer with
    | none => rfl
    | some name =>
      simp only [Schema.object?_undescribed]
      cases schema.object? name <;> rfl

/-- Nothing of abstract type is resolved to a type of introspection. -/
theorem apart_of_objectTypeOf (hb : description.Builds schema) (hk : schema.KeepsApart)
    (ha : application.KeepsApart) {name : Name} (hn : isReserved name = false) {value : Value}
    {s : σ} {type : ObjectType}
    (h : (objectTypeOf schema application name value s).1 = .ok (some type)) :
    schema.Apart type := by
  obtain ⟨other, ho, ⟨resolve, hr, hanswer⟩ | hm⟩ := object?_of_objectTypeOf h
  · exact Schema.apart_of_object? (ha name resolve hr value s other hanswer) ho
  · exact Schema.apart_of_object? (hk.possibleTypes hb hn hm) ho

variable {execute execute' : ObjectType → Value → List Selection → Run σ Json.Members}
variable {group : FieldGroup}

theorem completeNamed_undescribed (hb : description.Builds schema) (hk : schema.KeepsApart)
    (ha : application.KeepsApart)
    (he : ∀ type value, schema.Apart type → execute' type.undescribed value group.selections =
      execute type value group.selections) {name : Name} (hn : isReserved name = false)
    (value : Value) :
    completeNamed schema.undescribed application execute' group name value =
      completeNamed schema application execute group name value := by
  have hobject : ∀ type, schema.Apart type →
      completeObject execute' group type.undescribed value =
        completeObject execute group type value := by
    intro type happart
    rw [completeObject, completeObject, he type value happart]
  cases ht : schema.types.get? name with
  | none =>
    unfold completeNamed
    rw [Schema.get?_types_undescribed, ht]
    rfl
  | some definition =>
    have ht' : schema.undescribed.types.get? name = some definition.undescribed := by
      rw [Schema.get?_types_undescribed, ht]
      rfl
    cases habstract : definition.isAbstract with
    | true =>
      have habstract' : definition.undescribed.isAbstract = true := by
        cases definition <;> exact habstract
      rw [completeNamed_abstract ht' habstract', completeNamed_abstract ht habstract]
      funext s
      rw [Run.ofState_bind_apply, Run.ofState_bind_apply, objectTypeOf_undescribed]
      show completeFound execute' group value (Except.map (Option.map ObjectType.undescribed)
        (objectTypeOf schema application name value s).1) _ = _
      cases hfound : (objectTypeOf schema application name value s).1 with
      | error fault => rfl
      | ok found =>
        cases found with
        | none => rfl
        | some type =>
          exact congrFun (hobject type (apart_of_objectTypeOf hb hk ha hn hfound)) _
    | false =>
      unfold completeNamed
      rw [ht', ht]
      cases definition with
      | object type => exact hobject type (Schema.apart_of_get? hn ht)
      | enum type =>
        exact congrArg (fun coerced => pure (leafData coerced)) (type.coerce_undescribed value)
      | interface type => cases habstract
      | union type => cases habstract
      | scalar type => rfl
      | input type => rfl

/-- A value completes to the same, if its type does not lead to introspection. -/
theorem complete_undescribed (hb : description.Builds schema) (hk : schema.KeepsApart)
    (ha : application.KeepsApart)
    (he : ∀ type value, schema.Apart type → execute' type.undescribed value group.selections =
      execute type value group.selections) {type : TypeRef}
    (hn : isReserved type.innermost = false) (value : Value) :
    complete schema.undescribed application execute' group type value =
      complete schema application execute group type value := by
  induction type generalizing value with
  | named name required =>
    have hname : isReserved name = false := hn
    rw [complete, complete, completeNamed_undescribed hb hk ha he hname]
  | list item required ih =>
    have hitem : complete schema.undescribed application execute' group item =
        complete schema application execute group item := funext (ih hn)
    unfold complete
    rw [hitem]

end Completion

/-! ## 4. Execution -/

theorem Introspection.resolver?_eq_none {name : Name} (h : isReserved name = false) :
    Introspection.resolver? name = none := by
  unfold resolver?
  split <;> first | rfl | cases h

def ResolveInfo.undescribed (info : ResolveInfo) : ResolveInfo :=
  { info with
    schema := info.schema.undescribed
    parent := info.parent.undescribed
    field := info.field.undescribed }

/-- No resolver looks at descriptions. A resolver that looks neither at the schema nor at the
definitions of the field and its type does not. -/
def Application.IgnoresDescriptions {σ : Type} (application : Application σ) : Prop :=
  ∀ typeName fieldName resolver, application.resolver typeName fieldName = some resolver →
    ∀ info : ResolveInfo, resolver info.undescribed = resolver info

def FoundField.undescribed : FoundField → FoundField
  | .declared definition => .declared definition.undescribed
  | .schema => .schema
  | .type => .type
  | .typename => .typename

theorem Schema.field?_undescribed (schema : Schema) (type : ObjectType) (name : Name) :
    schema.undescribed.field? type.undescribed name =
      (schema.field? type name).map (·.undescribed) := by
  have hroot : type.undescribed.name = schema.undescribed.query.name ↔
      type.name = schema.query.name := Iff.rfl
  simp only [field?, ObjectType.get?_fields_undescribed, hroot]
  split
  · rfl
  · split
    · split
      · split <;> rfl
      · rfl
    · rw [Option.map_map, Option.map_map]
      rfl

namespace Environment

variable {σ : Type} {env : Environment σ}

def undescribed (env : Environment σ) : Environment σ :=
  { env with toScope := env.toScope.undescribed }

theorem resolveInfo_undescribed (type : ObjectType) (source : Value) (group : FieldGroup)
    (definition : FieldDefinition) :
    env.undescribed.resolveInfo type.undescribed source group definition.undescribed =
      (env.resolveInfo type source group definition).undescribed := by
  have harguments : env.schema.undescribed.coerceArguments _ _ _ = _ :=
    Schema.coerceArguments_undescribed env.variableValues definition.arguments
      group.first.arguments
  unfold resolveInfo ResolveInfo.undescribed
  exact congrArg (fun arguments => ResolveInfo.mk _ _ _ arguments _ _ _ _) harguments

theorem resolve_of_some {definition : FieldDefinition} {info : ResolveInfo} {resolver : Resolver σ}
    (hr : env.application.resolver? info.parent.name definition.name = some resolver) :
    env.resolve (.declared definition) info = resolver info := by
  simp only [resolve, hr]

theorem resolve_of_none {definition : FieldDefinition} {info : ResolveInfo}
    (hr : env.application.resolver? info.parent.name definition.name = none) :
    env.resolve (.declared definition) info = env.application.readField info := by
  simp only [resolve, hr]

/-- What a field resolves to, where introspection is disabled, is the same without descriptions. -/
theorem resolve_undescribed (hd : env.introspection = false)
    (hi : env.application.IgnoresDescriptions) {type : ObjectType}
    (hn : isReserved type.name = false) (source : Value) (group : FieldGroup)
    (found : FoundField) :
    env.undescribed.resolve found.undescribed (env.undescribed.resolveInfo type.undescribed source
        group found.undescribed.definition) =
      env.resolve found (env.resolveInfo type source group found.definition) := by
  have hdisabled : env.undescribed.introspection = false := hd
  cases found with
  | declared definition =>
    have happlication : ∀ name, env.application.resolver? type.name name =
        env.application.resolver type.name name := by
      intro name
      rw [Application.resolver?, Introspection.resolver?_eq_none hn]
    show env.undescribed.resolve _ (env.undescribed.resolveInfo _ source group
      definition.undescribed) = _
    rw [resolveInfo_undescribed]
    let info := env.resolveInfo type source group definition
    cases hr : env.application.resolver type.name definition.name with
    | none =>
      have hnone : env.application.resolver? type.name definition.name = none :=
        (happlication _).trans hr
      have hleft : env.undescribed.resolve (.declared definition.undescribed) info.undescribed =
          env.application.readField info := resolve_of_none hnone
      have hright : env.resolve (.declared definition) info = env.application.readField info :=
        resolve_of_none hnone
      exact hleft.trans hright.symm
    | some resolver =>
      have hsome : env.application.resolver? type.name definition.name = some resolver :=
        (happlication _).trans hr
      have hleft : env.undescribed.resolve (.declared definition.undescribed) info.undescribed =
          resolver info.undescribed := resolve_of_some hsome
      have hright : env.resolve (.declared definition) info = resolver info :=
        resolve_of_some hsome
      exact hleft.trans ((hi _ _ resolver hr info).trans hright.symm)
  | schema => simp [resolve, FoundField.undescribed, hd, hdisabled]
  | type => simp [resolve, FoundField.undescribed, hd, hdisabled]
  | typename => rfl

variable {description : SchemaDescription}
variable {execute execute' : ObjectType → Value → List Selection → Run σ Json.Members}

/-- The fields that lead to introspection fail, and no others do. -/
theorem disabled_or_innermost (hk : env.schema.KeepsApart) (hd : env.introspection = false)
    {type : ObjectType} (happart : env.schema.Apart type) {name : Name} {found : FoundField}
    (hf : env.schema.field? type name = some found) :
    (∀ info, env.resolve found info =
        pure (.error { message := "schema introspection is disabled" })) ∨
      isReserved found.definition.type.innermost = false := by
  cases found with
  | schema =>
    left
    intro info
    simp [resolve, hd]
  | type =>
    left
    intro info
    simp [resolve, hd]
  | typename => exact Or.inr rfl
  | declared definition => exact Or.inr (hk.innermost happart (Schema.field?_eq_declared hf).2)

theorem executeFound_undescribed (hb : description.Builds env.schema)
    (hk : env.schema.KeepsApart) (ha : env.application.KeepsApart)
    (hi : env.application.IgnoresDescriptions) (hd : env.introspection = false)
    (he : ∀ type value selections, env.schema.Apart type →
      execute' type.undescribed value selections = execute type value selections)
    {type : ObjectType} (happart : env.schema.Apart type) {group : FieldGroup}
    {found : FoundField} (hf : env.schema.field? type group.first.name = some found)
    (source : Value) :
    env.undescribed.executeFound execute' type.undescribed source group found.undescribed =
      env.executeFound execute type source group found := by
  have hresolve := env.resolve_undescribed hd hi happart.2 source group found
  have htype : found.undescribed.definition.type = found.definition.type := by
    cases found <;> rfl
  unfold executeFound
  dsimp only
  rw [hresolve, htype]
  rcases disabled_or_innermost hk hd happart hf with hfails | hn
  · simp only [hfails, Run.ofState_pure, pure_bind]
  · have hcomplete : complete env.undescribed.schema env.undescribed.application execute' group
        found.definition.type = complete env.schema env.application execute group
          found.definition.type :=
      funext (complete_undescribed hb hk ha
        (fun type value happart => he type value group.selections happart) hn)
    rw [hcomplete]

theorem executeGroups_undescribed (hb : description.Builds env.schema)
    (hk : env.schema.KeepsApart) (ha : env.application.KeepsApart)
    (hi : env.application.IgnoresDescriptions) (hd : env.introspection = false)
    (he : ∀ type value selections, env.schema.Apart type →
      execute' type.undescribed value selections = execute type value selections)
    {type : ObjectType} (happart : env.schema.Apart type) (source : Value)
    (groups : List FieldGroup) :
    env.undescribed.executeGroups execute' type.undescribed source groups =
      env.executeGroups execute type source groups := by
  have hgroup : ∀ group, env.undescribed.executeGroup execute' type.undescribed source group =
      env.executeGroup execute type source group := by
    intro group
    unfold executeGroup
    have hfield : env.undescribed.schema.field? type.undescribed group.first.name =
        (env.schema.field? type group.first.name).map (·.undescribed) :=
      env.schema.field?_undescribed type group.first.name
    rw [hfield]
    cases hf : env.schema.field? type group.first.name with
    | none => rfl
    | some found =>
      simp only [Option.map_some]
      rw [executeFound_undescribed hb hk ha hi hd he happart hf]
  induction groups with
  | nil => rfl
  | cons group rest ih => rw [executeGroups, executeGroups, hgroup, ih]

/-- A selection set on an object of the author comes to the same without descriptions. -/
theorem executeSelections_undescribed (hb : description.Builds env.schema)
    (hk : env.schema.KeepsApart) (ha : env.application.KeepsApart)
    (hi : env.application.IgnoresDescriptions) (hd : env.introspection = false) (depth : Nat)
    {type : ObjectType} (happart : env.schema.Apart type) (source : Value)
    (selections : List Selection) :
    env.undescribed.executeSelections depth type.undescribed source selections =
      env.executeSelections depth type source selections := by
  induction depth generalizing type source selections with
  | zero => rfl
  | succ depth ih =>
    have hgroups : env.undescribed.collectGroups type.undescribed.name selections =
        env.collectGroups type.name selections :=
      Scope.collectGroups_undescribed type.name selections
    rw [executeSelections, executeSelections, hgroups]
    exact executeGroups_undescribed hb hk ha hi hd
      (fun type value selections happart => ih happart value selections) happart source _

end Environment

def Prepared.undescribed (prepared : Prepared) : Prepared :=
  { prepared with rootType := prepared.rootType.undescribed }

namespace Execution

variable {description : SchemaDescription} {schema : Schema} {execution : Execution} {σ : Type}
variable {application : Application σ}

theorem rootOf_undescribed (operation : Operation) :
    schema.undescribed.rootOf operation = (schema.rootOf operation).map (·.undescribed) := by
  unfold Schema.rootOf
  cases operation.kind with
  | query => rfl
  | mutation =>
    have hm : schema.undescribed.mutation = schema.mutation.map (·.undescribed) := rfl
    rw [hm]
    cases schema.mutation <;> rfl
  | subscription => rfl

theorem prepare_undescribed (document : Document) :
    execution.prepare schema.undescribed document =
      (execution.prepare schema document).map (·.undescribed) := by
  unfold prepare
  simp only [rootOf_undescribed, Schema.coerceVariables_undescribed]
  cases document.operation? execution.operationName with
  | error error => rfl
  | ok operation =>
    simp only [bind, Except.bind]
    cases schema.rootOf operation with
    | error error => rfl
    | ok type =>
      cases schema.coerceVariables operation.variableDefinitions execution.variableValues <;> rfl

/-- With introspection disabled an execution does not depend on descriptions. -/
theorem run?_undescribed (hb : description.Builds schema) (hk : schema.KeepsApart)
    (ha : application.KeepsApart) (hi : application.IgnoresDescriptions)
    (hd : execution.introspection = false) (depth : Nat) (document : Document) (s : σ) :
    execution.run? depth schema.undescribed application document s =
      execution.run? depth schema application document s := by
  unfold run?
  rw [prepare_undescribed]
  cases hp : execution.prepare schema document with
  | error error => rfl
  | ok prepared =>
    have happart := hk.apart_of_rootOf hb (prepare_eq_ok hp).2.1
    have hrun := (execution.environment schema application document
      prepared).executeSelections_undescribed hb hk ha hi hd depth happart execution.root
        prepared.operation.selections
    exact congrArg (fun run : Run σ Json.Members => (run s).map _) hrun

/-- What is told of a schema with introspection disabled does not depend on descriptions: two built
schemas that are the same without them give the same response to every request. -/
theorem run?_eq_of_undescribed {description₁ description₂ : SchemaDescription}
    {schema₁ schema₂ : Schema} (hb₁ : description₁.build = .ok schema₁)
    (hb₂ : description₂.build = .ok schema₂) (he : schema₁.undescribed = schema₂.undescribed)
    (hk : schema₁.KeepsApart) (ha : application.KeepsApart)
    (hi : application.IgnoresDescriptions) (hd : execution.introspection = false) (depth : Nat)
    (document : Document) (s : σ) :
    execution.run? depth schema₁ application document s =
      execution.run? depth schema₂ application document s := by
  have h₁ := run?_undescribed (SchemaDescription.builds hb₁) hk ha hi hd depth document s
  have h₂ := run?_undescribed (SchemaDescription.builds hb₂) (hk.of_undescribed he.symm) ha hi hd
    depth document s
  rw [← h₁, he, h₂]

end Execution

/-! ## 6. Two schemas that are told apart by introspection alone -/

namespace Sample

/-- A library, with or without a text wherever there is room for a description or a reason. -/
def library (noted : Bool) : SchemaDescription :=
  let text := if noted then some "A note." else none
  { query := some "Query"
    mutation := some "Mutation"
    types := [
      .object {
        name := "Query"
        description := text
        fields := .ofList [{
          name := "item"
          description := text
          arguments := [{ name := "filter", description := text, type := .named "Filter" false }]
          type := .named "Item" false
          deprecation := text }] },
      .object {
        name := "Mutation"
        fields := .ofList [{ name := "query", type := .named "Query" false }] },
      .interface {
        name := "Item"
        fields := .ofList [
          { name := "title", description := text, type := .named "String" false }] },
      .object {
        name := "Book"
        interfaces := ["Item"]
        fields := .ofList [
          { name := "title", type := .named "String" false, deprecation := text }] },
      .union { name := "Media", description := text, members := ["Book"] },
      .enum {
        name := "Genre"
        values := .ofList [{ name := "NOVEL", description := text, deprecation := text }] },
      .input {
        name := "Filter"
        fields := .ofList [
          { name := "genre", description := text, type := .named "Genre" false }] }]
    directives := [{ name := "note", description := text, onField := noted }] }

theorem isSome_build_library : ∀ noted, (library noted).build.toOption.isSome = true := by
  decide

def librarySchema (noted : Bool) : Schema :=
  (library noted).build.toOption.get (isSome_build_library noted)

theorem build_library (noted : Bool) : (library noted).build = .ok (librarySchema noted) :=
  Except.eq_ok_get (isSome_build_library noted)

/-- Every item is a book, which a resolver finds without looking at the schema. -/
def librarian : Application Unit where
  resolver _ name := if name = "item" then some fun _ => pure (.ok (.map [])) else none
  resolveType _ := some fun _ => pure (some "Book")

theorem keepsApart_librarian : librarian.KeepsApart := by
  intro abstractType resolve hr value s name hn
  cases hr
  cases hn
  rfl

theorem ignoresDescriptions_librarian : librarian.IgnoresDescriptions := by
  intro typeName fieldName resolver hr info
  unfold librarian at hr
  dsimp only at hr
  split at hr
  · cases hr
    rfl
  · cases hr

theorem undescribed_librarySchema :
    (librarySchema false).undescribed = (librarySchema true).undescribed :=
  (SchemaDescription.builds (build_library false)).undescribed_congr
    (SchemaDescription.builds (build_library true)) rfl rfl rfl rfl

theorem keepsApart_librarySchema : (librarySchema false).KeepsApart where
  roots := by decide
  outputs := by
    have h : ((librarySchema false).types.entries.all fun type =>
        isReserved type.name || type.outputs.all fun name => !isReserved name) = true := by
      decide
    intro type hm hn name hname
    have htype := List.all_eq_true.mp h type hm
    rw [hn, Bool.false_or] at htype
    simpa using List.all_eq_true.mp htype name hname

end Sample

theorem Execution.run?_eq_of_undescribed_sample :
    (Sample.librarySchema false).query.description ≠
        (Sample.librarySchema true).query.description ∧
      Execution.run? { introspection := false } 3 (Sample.librarySchema false) Sample.librarian
          Introspection.listing () =
        Execution.run? { introspection := false } 3 (Sample.librarySchema true) Sample.librarian
          Introspection.listing () := by
  refine ⟨by decide, ?_⟩
  exact run?_eq_of_undescribed (Sample.build_library false) (Sample.build_library true)
    Sample.undescribed_librarySchema Sample.keepsApart_librarySchema Sample.keepsApart_librarian
    Sample.ignoresDescriptions_librarian rfl 3 Introspection.listing ()

end GraphQL
