import GraphQL.Proofs.Introspection.Listing

/-!
# `GraphQL/Proofs/Introspection/Closure.lean` — introspection reports what it lists

A client that looks into a schema goes from subject to subject: from the schema to its types, from a
type to its fields, from a field to its arguments and to its type (`Leads`). On any such way it
meets no type that is not listed (`Known`), with two exceptions.

The arguments of directives are not among the edges that a walk from the roots follows, so their
types may not be listed, nor what these lead to; `Introspection.reports_listed` says that every way
to an unlisted type goes through such an argument. And a type that has taken the name of a built-in
scalar type is listed whether or not the roots lead to it, but what it leads to is not
(`Schema.KeepsBuiltIns`). `Introspection.reports_unlisted` is a schema with both.
-/

set_option autoImplicit false

namespace GraphQL

namespace Introspection

/-! ## 1. From subject to subject -/

/-- The type whose fields are selected on a subject. -/
def Subject.objectType : Subject → ObjectType
  | .schema => schemaType
  | .type _ => typeType
  | .field _ => fieldType
  | .input _ => inputValueType
  | .enumValue _ => enumValueType
  | .directive _ => directiveType

/-- A value in which a client finds a subject: the subject itself, or a list that it is in. -/
def Shows (value : Value) (subject : Subject) : Prop :=
  value = subject.value ∨ ∃ items, value = .list items ∧ subject.value ∈ items

/-- A field of a subject, with whatever arguments, in which a client finds another subject. -/
def Leads (schema : Schema) (subject next : Subject) : Prop :=
  ∃ (info : ResolveInfo) (answer : ResolveInfo → Except FieldError Value) (value : Value),
    info.schema = schema ∧ info.source = subject.value ∧ info.parent = subject.objectType ∧
      info.field ∈ subject.objectType.fields.entries ∧
      resolver? info.parent.name = some answer ∧ answer info = .ok value ∧ Shows value next

/-- What the fields of a subject resolve to. -/
def Subject.resolve (info : ResolveInfo) : Subject → Value
  | .schema => resolveSchema info
  | .type ref => resolveType info ref
  | .field described => resolveField info described
  | .input described => resolveInput info described
  | .enumValue described => resolveEnumValue info described
  | .directive described => resolveDirective info described

theorem resolver?_objectType (subject : Subject) :
    ∃ answer, resolver? subject.objectType.name = some answer ∧
      ∀ info : ResolveInfo, info.source = subject.value →
        answer info = .ok (subject.resolve info) := by
  have hsubject : ∀ (answer : ResolveInfo → Subject → Option Value) (info : ResolveInfo),
      info.source = subject.value → onSubject answer info =
        .ok ((answer info subject).getD .null) := by
    intro answer info hs
    rw [onSubject, hs]
    rfl
  cases subject with
  | schema => exact ⟨_, rfl, fun _ _ => rfl⟩
  | type type => exact ⟨_, rfl, hsubject _⟩
  | field field => exact ⟨_, rfl, hsubject _⟩
  | input input => exact ⟨_, rfl, hsubject _⟩
  | enumValue value => exact ⟨_, rfl, hsubject _⟩
  | directive directive => exact ⟨_, rfl, hsubject _⟩

theorem leads_iff {schema : Schema} {subject next : Subject} :
    Leads schema subject next ↔ ∃ info : ResolveInfo, info.schema = schema ∧
      info.source = subject.value ∧ info.parent = subject.objectType ∧
      info.field ∈ subject.objectType.fields.entries ∧ Shows (subject.resolve info) next := by
  obtain ⟨answer, ha, hanswer⟩ := resolver?_objectType subject
  constructor
  · rintro ⟨info, answer', value, hs, hsource, hp, hf, ha', hvalue, hshows⟩
    rw [hp] at ha'
    cases ha.symm.trans ha'
    cases (hanswer info hsource).symm.trans hvalue
    exact ⟨info, hs, hsource, hp, hf, hshows⟩
  · rintro ⟨info, hs, hsource, hp, hf, hshows⟩
    exact ⟨info, answer, _, hs, hsource, hp, hf, by rw [hp, ha], hanswer info hsource, hshows⟩

/-- A field of a subject, asked for without arguments. -/
def Subject.ask (schema : Schema) (subject : Subject) (field : FieldDefinition) : ResolveInfo where
  schema := schema
  parent := subject.objectType
  field := field
  arguments := []
  source := subject.value
  root := .null
  operation := default
  nodes := default

/-- What a field of a subject shows without arguments, the subject leads to. -/
theorem leads_of_ask {schema : Schema} {subject next : Subject} (name : Name)
    {field : FieldDefinition} (hf : subject.objectType.fields.get? name = some field)
    (hs : Shows (subject.resolve (subject.ask schema field)) next) : Leads schema subject next :=
  leads_iff.mpr ⟨subject.ask schema field, rfl, rfl, rfl, (Table.get?_eq_some_iff.mp hf).1, hs⟩

/-! ## 2. What a value shows -/

section Shows

variable {subject next : Subject}

@[simp] theorem shows_null : ¬ Shows .null next := by
  rintro (h | ⟨_, h, -⟩) <;> cases h

@[simp] theorem shows_boolean (b : Bool) : ¬ Shows (.boolean b) next := by
  rintro (h | ⟨_, h, -⟩) <;> cases h

@[simp] theorem shows_string (s : String) : ¬ Shows (.string s) next := by
  rintro (h | ⟨_, h, -⟩) <;> cases h

@[simp] theorem shows_ofText? (text : Option String) : ¬ Shows (.ofText? text) next := by
  cases text with
  | none => exact shows_null
  | some s => exact shows_string s

@[simp] theorem shows_kind (kind : TypeKind) : ¬ Shows kind.value next := by
  cases kind <;> rintro (h | ⟨_, h, -⟩) <;> cases h

@[simp] theorem shows_value : Shows subject.value next ↔ next = subject := by
  constructor
  · rintro (h | ⟨_, h, -⟩)
    · exact (ObjectRef.subject.inj (Value.object.inj h)).symm
    · cases h
  · rintro rfl
    exact Or.inl rfl

@[simp] theorem shows_subjects {α : Type} {make : α → Subject} {items : List α} :
    Shows (subjects make items) next ↔ ∃ item ∈ items, next = make item := by
  constructor
  · rintro (h | ⟨_, h, hm⟩)
    · cases h
    · cases h
      obtain ⟨item, hitem, he⟩ := List.mem_map.mp hm
      exact ⟨item, hitem, (ObjectRef.subject.inj (Value.object.inj he)).symm⟩
  · rintro ⟨item, hitem, rfl⟩
    exact Or.inr ⟨_, rfl, List.mem_map_of_mem hitem⟩

@[simp] theorem shows_typesNamed {names : List Name} :
    Shows (typesNamed names) next ↔ ∃ name ∈ names, next = .type (.named name false) :=
  shows_subjects

@[simp] theorem shows_typeNamed {name : Name} :
    Shows (typeNamed name) next ↔ next = .type (.named name false) :=
  shows_value

/-- A type around another one shows that one, and no other subject. -/
theorem shows_wrapper (kind : TypeKind) (inside : TypeRef) {value : Value}
    (hv : value = kind.value ∨ value = (Subject.type inside).value ∨ value = .null)
    (h : Shows value next) : next = .type inside := by
  rcases hv with rfl | rfl | rfl
  · exact absurd h (shows_kind kind)
  · exact shows_value.mp h
  · exact absurd h shows_null

end Shows

/-! ## 3. Known subjects -/

/-- A subject that names no type that is not listed. A directive names types, in its arguments, and
is known if it belongs to the schema. -/
def Known (schema : Schema) : Subject → Prop
  | .schema => True
  | .type type => schema.Lists type.innermost
  | .field field => schema.Lists field.type.innermost ∧
      ∀ argument ∈ field.arguments, schema.Lists argument.type.innermost
  | .input input => schema.Lists input.type.innermost
  | .enumValue _ => True
  | .directive directive => ∃ definition ∈ schema.directives.entries,
      directive = definition.describe

section Step

variable {description : SchemaDescription} {info : ResolveInfo} {next : Subject}

/-- What a listed type leads to is listed. -/
theorem lists_of_edge (hb : description.Builds info.schema) (hk : info.schema.KeepsBuiltIns)
    {type : TypeDefinition} (hm : type ∈ info.schema.reachable) {name : Name}
    (he : name ∈ type.edges info.schema.types) : info.schema.Lists name :=
  Schema.mem_reachable_of_edge hk hm he
    (hb.registered_of_edge (Schema.registered_of_mem_reachable hm) he)

theorem known_of_resolveSchema (hb : description.Builds info.schema)
    (h : Shows (resolveSchema info) next) : Known info.schema next := by
  unfold resolveSchema at h
  dsimp only at h
  split at h
  · obtain ⟨name, hn, rfl⟩ := shows_typesNamed.mp h
    exact hn
  · rw [shows_typeNamed] at h
    subst h
    exact Schema.mem_reachable_of_reaches Schema.reaches_query
      (Table.mem_names_iff.mpr ⟨_, hb.get?_query⟩)
  · cases hm : info.schema.mutation with
    | none =>
      rw [hm] at h
      exact absurd h shows_null
    | some type =>
      rw [hm] at h
      cases shows_typeNamed.mp h
      exact Schema.mem_reachable_of_reaches (Schema.reaches_mutation hm)
        (Table.mem_names_iff.mpr ⟨_, hb.get?_mutation hm⟩)
  · obtain ⟨_, hd, rfl⟩ := shows_subjects.mp h
    obtain ⟨definition, hdefinition, rfl⟩ := List.mem_map.mp hd
    exact ⟨definition, hdefinition, rfl⟩
  · exact absurd h shows_null

/-- Fields lead to what their arguments and they themselves are of. -/
theorem known_field {schema : Schema} {fields : Table FieldDefinition}
    (hl : ∀ name ∈ Table.fieldEdges fields, schema.Lists name) {field : FieldDefinition}
    (hf : field ∈ fields.entries) : Known schema (.field field.describe) := by
  constructor
  · exact hl _ (Table.mem_fieldEdges.mpr ⟨field, hf, Or.inr rfl⟩)
  · intro argument ha
    obtain ⟨definition, hd, rfl⟩ := List.mem_map.mp ha
    exact hl _ (Table.mem_fieldEdges.mpr ⟨field, hf, Or.inl ⟨definition, hd, rfl⟩⟩)

theorem known_of_resolveNamedType (hb : description.Builds info.schema)
    (hk : info.schema.KeepsBuiltIns) {type : TypeDefinition} (hm : type ∈ info.schema.reachable)
    (h : Shows (resolveNamedType info type) next) : Known info.schema next := by
  have hedge : ∀ name ∈ type.edges info.schema.types, info.schema.Lists name :=
    fun _ he => lists_of_edge hb hk hm he
  unfold resolveNamedType at h
  split at h
  · exact absurd h (shows_kind _)
  · exact absurd h (shows_string _)
  · exact absurd h (shows_ofText? _)
  · split at h
    · exact absurd h shows_null
    · next fields hfields =>
      obtain ⟨_, hf, rfl⟩ := shows_subjects.mp h
      obtain ⟨field, hfield, rfl⟩ := List.mem_map.mp hf
      refine known_field (fun name hn => hedge name ?_) (List.mem_of_mem_filter hfield)
      cases type with
      | object type =>
        cases hfields
        exact List.mem_append_right _ hn
      | interface type =>
        cases hfields
        exact List.mem_append_right _ hn
      | _ => cases hfields
  · split at h
    · obtain ⟨name, hn, rfl⟩ := shows_typesNamed.mp h
      exact hedge name (List.mem_append_left _ hn)
    · exact absurd h shows_null
  · split at h
    · next ha =>
      obtain ⟨name, hn, rfl⟩ := shows_typesNamed.mp h
      refine hedge name ?_
      cases type with
      | interface type => exact List.mem_append_left _ hn
      | union type => exact hn
      | _ => cases ha
    · exact absurd h shows_null
  · split at h
    · obtain ⟨_, hv, rfl⟩ := shows_subjects.mp h
      trivial
    · exact absurd h shows_null
  · split at h
    · obtain ⟨_, hf, rfl⟩ := shows_subjects.mp h
      obtain ⟨field, hfield, rfl⟩ := List.mem_map.mp hf
      exact hedge _ (List.mem_map_of_mem hfield)
    · exact absurd h shows_null
  · exact absurd h shows_null

theorem known_of_resolveType (hb : description.Builds info.schema)
    (hk : info.schema.KeepsBuiltIns) {type : TypeRef} (hl : info.schema.Lists type.innermost)
    (h : Shows (resolveType info type) next) : Known info.schema next := by
  unfold resolveType at h
  dsimp only at h
  split at h
  · next name =>
    split at h
    · next type ht =>
      refine known_of_resolveNamedType hb hk ?_ h
      obtain ⟨found, hm, hn⟩ := List.mem_map.mp hl
      -- The listed type of the name is the registered one.
      have hget := Schema.get?_of_mem_reachable hm
      rw [hn] at hget
      cases ht.symm.trans hget
      exact hm
    · exact absurd h shows_null
  · next name =>
    cases shows_wrapper .nonNull (.named name false) (by split <;> simp) h
    exact hl
  · next item =>
    cases shows_wrapper .list item (by split <;> simp) h
    exact hl
  · next item =>
    cases shows_wrapper .nonNull (.list item false) (by split <;> simp) h
    exact hl

theorem known_of_resolveField {schema : Schema} {field : FieldDescription}
    (hf : Known schema (.field field)) (h : Shows (resolveField info field) next) :
    Known schema next := by
  unfold resolveField at h
  split at h
  · exact absurd h (shows_string _)
  · exact absurd h (shows_ofText? _)
  · obtain ⟨argument, ha, rfl⟩ := shows_subjects.mp h
    exact hf.2 argument ha
  · rw [shows_value] at h
    subst h
    exact hf.1
  · exact absurd h (shows_boolean _)
  · exact absurd h (shows_ofText? _)
  · exact absurd h shows_null

theorem known_of_resolveInput {schema : Schema} {input : InputDescription}
    (hi : Known schema (.input input)) (h : Shows (resolveInput info input) next) :
    Known schema next := by
  unfold resolveInput at h
  split at h
  · exact absurd h (shows_string _)
  · exact absurd h (shows_ofText? _)
  · rw [shows_value] at h
    subst h
    exact hi
  · exact absurd h (shows_ofText? _)
  · exact absurd h shows_null

theorem not_shows_resolveEnumValue {value : EnumValueDescription} :
    ¬ Shows (resolveEnumValue info value) next := by
  unfold resolveEnumValue
  split
  · exact shows_string _
  · exact shows_ofText? _
  · exact shows_boolean _
  · exact shows_ofText? _
  · exact shows_null

theorem shows_resolveDirective {directive : DirectiveDescription}
    (h : Shows (resolveDirective info directive) next) :
    ∃ argument ∈ directive.arguments, next = .input argument := by
  unfold resolveDirective at h
  split at h
  · exact absurd h (shows_string _)
  · exact absurd h (shows_ofText? _)
  · exact shows_subjects.mp h
  · exact absurd h (shows_boolean _)
  · exact absurd h (shows_boolean _)
  · exact absurd h (shows_boolean _)
  · exact absurd h shows_null

end Step

/-! ## 4. Ways through a schema -/

/-- The argument of a directive, whose type may not be listed. -/
def Hidden (schema : Schema) (subject : Subject) : Prop :=
  ∃ directive ∈ schema.directives.entries, ∃ argument ∈ directive.arguments,
    subject = .input argument.describe ∧ ¬ schema.Lists argument.type.innermost

variable {description : SchemaDescription} {schema : Schema}

/-- From a known subject a client comes to a known one, or to the argument of a directive. -/
theorem Leads.known (hb : description.Builds schema) (hk : schema.KeepsBuiltIns)
    {subject next : Subject} (h : Leads schema subject next) (hs : Known schema subject) :
    Known schema next ∨ Hidden schema next := by
  obtain ⟨info, rfl, -, -, -, hshows⟩ := leads_iff.mp h
  cases subject with
  | schema => exact Or.inl (known_of_resolveSchema hb hshows)
  | type ref => exact Or.inl (known_of_resolveType hb hk hs hshows)
  | field described => exact Or.inl (known_of_resolveField hs hshows)
  | input described => exact Or.inl (known_of_resolveInput hs hshows)
  | enumValue described => exact absurd hshows not_shows_resolveEnumValue
  | directive described =>
    obtain ⟨definition, hd, rfl⟩ := hs
    obtain ⟨_, ha, rfl⟩ := shows_resolveDirective hshows
    obtain ⟨argument, hargument, rfl⟩ := List.mem_map.mp ha
    by_cases hl : info.schema.Lists argument.type.innermost
    · exact Or.inl hl
    · exact Or.inr ⟨definition, hd, argument, hargument, rfl, hl⟩

/-- A step that does not go to the argument of a directive whose type is not listed. -/
def LeadsOpenly (schema : Schema) (subject next : Subject) : Prop :=
  Leads schema subject next ∧ ¬ Hidden schema next

theorem known_of_leadsOpenly (hb : description.Builds schema) (hk : schema.KeepsBuiltIns)
    {subject : Subject} (h : Relation.ReflTransGen (LeadsOpenly schema) .schema subject) :
    Known schema subject := by
  induction h with
  | refl => trivial
  | tail _ hstep ih =>
    obtain ⟨hleads, hopen⟩ := hstep
    exact (hleads.known hb hk ih).resolve_right hopen

/-- The names that a schema lists are those of its reachable types, and they are closed: whatever
type a client comes to from the schema is listed and can be looked up, unless the way goes through
the argument of a directive whose type is not listed. -/
theorem reports_listed (hb : description.build = .ok schema)
    (hs : schema.types.get? "String" = some (.scalar Scalar.string)) (hk : schema.KeepsBuiltIns)
    {execution : Execution} (ho : execution.operationName = none)
    (hi : execution.introspection = true) {σ : Type} (application : Application σ) (s : σ) :
    execution.Returns schema application listing s
        { data := .object [("__schema", .object [("types", .array (schema.reachable.map fun type =>
          .object [("name", .string type.name)]))])] } s ∧
      ∀ type : TypeRef, Relation.ReflTransGen (LeadsOpenly schema) .schema (.type type) →
        schema.Lists type.innermost ∧
          execution.Returns schema application (lookup type.innermost) s
            { data := .object [("__type", .object [("name", .string type.innermost)])] } s := by
  have hbuilds := SchemaDescription.builds hb
  refine ⟨Execution.returns_listing hbuilds hs ho hi application s, fun type hway => ?_⟩
  have hl : schema.Lists type.innermost := known_of_leadsOpenly hbuilds hk hway
  have hlookup := Execution.returns_lookup hbuilds hs ho hi application s type.innermost
  rw [if_pos hl] at hlookup
  exact ⟨hl, hlookup⟩

end Introspection

theorem Sample.string_builtIn :
    Sample.schema.types.get? "String" = some (.scalar Scalar.string) := rfl

theorem Sample.keepsBuiltIns : Sample.schema.KeepsBuiltIns := by
  intro name hn type ht
  have hscalar : ∀ name ∈ builtInScalarNames,
      ((Sample.schema.types.get? name).map (·.edges Sample.schema.types)).all (· = []) = true := by
    decide
  have hedges := hscalar name hn
  rw [ht] at hedges
  exact Or.inl (by simpa using hedges)

/-- From the schema to the type at the root of queries. -/
theorem Sample.way_to_query : Relation.ReflTransGen (Introspection.LeadsOpenly Sample.schema)
    .schema (.type (.named Sample.schema.query.name false)) := by
  refine .single ⟨?_, ?_⟩
  · apply Introspection.leads_of_ask "queryType" rfl
    exact Introspection.shows_typeNamed.mpr rfl
  · rintro ⟨_, _, _, _, h, _⟩
    cases h

theorem Introspection.reports_listed_sample :
    Sample.description.build = .ok Sample.schema ∧ Sample.schema.KeepsBuiltIns ∧
      Execution.Returns {} Sample.schema Sample.application listing ()
        { data := .object [("__schema", .object [("types",
          .array (Sample.schema.reachable.map fun type =>
            .object [("name", .string type.name)]))])] } () ∧
      Sample.schema.Lists Sample.schema.query.name := by
  have hnone : Execution.operationName {} = none := rfl
  have h := reports_listed Sample.build_eq_ok Sample.string_builtIn Sample.keepsBuiltIns hnone rfl
    Sample.application ()
  exact ⟨Sample.build_eq_ok, Sample.keepsBuiltIns, h.1, (h.2 _ Sample.way_to_query).1⟩

/-! ## 5. A schema that reports more than it lists -/

namespace Sample

open Introspection

/-- A type that no field leads to, but a directive. -/
def onlyType : EnumType :=
  { name := "Only", values := .ofList [{ name := "ONE" }] }

def onlyDirective : DirectiveDefinition :=
  { name := "only", arguments := [{ name := "value", type := .named "Only" false }] }

def hiddenType : EnumType :=
  { name := "Hidden", values := .ofList [{ name := "ONE" }] }

/-- An object type with the name of a built-in scalar type, which no field leads to. -/
def takenType : ObjectType :=
  { name := "Int", fields := .ofList [{ name := "hidden", type := .named "Hidden" false }] }

def partlyListedDescription : SchemaDescription where
  query := some "Query"
  types := [
    .object {
      name := "Query", fields := .ofList [{ name := "name", type := .named "String" false }] },
    .object takenType, .enum onlyType, .enum hiddenType]
  directives := [onlyDirective]

theorem isSome_build_partlyListed : partlyListedDescription.build.toOption.isSome = true := by
  decide

def partlyListed : Schema :=
  partlyListedDescription.build.toOption.get isSome_build_partlyListed

theorem build_partlyListed : partlyListedDescription.build = .ok partlyListed :=
  Except.eq_ok_get isSome_build_partlyListed

/-- From the schema to its directives, to an argument, to the type of the argument. -/
theorem way_to_only :
    Relation.ReflTransGen (Leads partlyListed) .schema (.type (.named "Only" false)) := by
  have hget : partlyListed.directives.get? "only" = some onlyDirective := rfl
  have hdirective : Leads partlyListed .schema (.directive onlyDirective.describe) := by
    apply leads_of_ask "directives" rfl
    have hm := (Table.get?_eq_some_iff.mp hget).1
    exact shows_subjects.mpr ⟨_, List.mem_map_of_mem hm, rfl⟩
  have hargument : Leads partlyListed (.directive onlyDirective.describe)
      (.input (InputValueDefinition.describe
        { name := "value", type := .named "Only" false })) := by
    apply leads_of_ask "args" rfl
    exact shows_subjects.mpr ⟨_, List.mem_cons_self, rfl⟩
  have htype : Leads partlyListed (.input (InputValueDefinition.describe
      { name := "value", type := .named "Only" false })) (.type (.named "Only" false)) := by
    apply leads_of_ask "type" rfl
    exact shows_value.mpr rfl
  exact ((Relation.ReflTransGen.single hdirective).tail hargument).tail htype

/-- From the schema to its types, to a field, to the type of the field. -/
theorem way_to_hidden :
    Relation.ReflTransGen (Leads partlyListed) .schema (.type (.named "Hidden" false)) := by
  have hget : partlyListed.types.get? "Int" = some (.object takenType) := rfl
  have hint : Leads partlyListed .schema (.type (.named "Int" false)) := by
    apply leads_of_ask "types" rfl
    have hlists : partlyListed.Lists "Int" := by decide
    exact shows_typesNamed.mpr ⟨"Int", hlists, rfl⟩
  have hfield : Leads partlyListed (.type (.named "Int" false))
      (.field (FieldDefinition.describe { name := "hidden", type := .named "Hidden" false })) := by
    have hnamed : ∀ info : ResolveInfo, info.schema = partlyListed →
        resolveType info (.named "Int" false) = resolveNamedType info (.object takenType) := by
      intro info hs
      simp only [resolveType, hs, hget]
    apply leads_of_ask "fields" rfl
    rw [Subject.resolve, hnamed _ rfl]
    exact shows_subjects.mpr ⟨_, List.mem_cons_self, rfl⟩
  have htype : Leads partlyListed
      (.field (FieldDefinition.describe { name := "hidden", type := .named "Hidden" false }))
      (.type (.named "Hidden" false)) := by
    apply leads_of_ask "type" rfl
    exact shows_value.mpr rfl
  exact ((Relation.ReflTransGen.single hint).tail hfield).tail htype

end Sample

/-- Two types that are reported and neither listed nor found: one through a directive, and one
through a type that has taken the name of a built-in scalar type. -/
theorem Introspection.reports_unlisted :
    Sample.partlyListedDescription.build = .ok Sample.partlyListed ∧
      Sample.partlyListed.types.get? "String" = some (.scalar Scalar.string) ∧
      ∀ name ∈ ["Only", "Hidden"],
        Relation.ReflTransGen (Leads Sample.partlyListed) .schema (.type (.named name false)) ∧
        ¬ Sample.partlyListed.Lists name ∧
        Execution.Returns {} Sample.partlyListed Sample.application (lookup name) ()
          { data := .object [("__type", .null)] } () := by
  have hs : Sample.partlyListed.types.get? "String" = some (.scalar Scalar.string) := rfl
  have hnull : ∀ name, ¬ Sample.partlyListed.Lists name →
      Execution.Returns {} Sample.partlyListed Sample.application (lookup name) ()
        { data := .object [("__type", .null)] } () := by
    intro name hn
    have hb := SchemaDescription.builds Sample.build_partlyListed
    have hlookup : Execution.Returns {} Sample.partlyListed Sample.application (lookup name) ()
        { data := .object [("__type", if Sample.partlyListed.Lists name then
          .object [("name", .string name)] else .null)] } () :=
      Execution.returns_lookup hb hs rfl rfl Sample.application () name
    rwa [if_neg hn] at hlookup
  have honly : ¬ Sample.partlyListed.Lists "Only" := by decide
  have hhidden : ¬ Sample.partlyListed.Lists "Hidden" := by decide
  refine ⟨Sample.build_partlyListed, hs, ?_⟩
  rw [List.forall_mem_cons, List.forall_mem_singleton]
  exact ⟨⟨Sample.way_to_only, honly, hnull _ honly⟩,
    ⟨Sample.way_to_hidden, hhidden, hnull _ hhidden⟩⟩

end GraphQL
