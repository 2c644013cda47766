import GraphQL.Proofs.Introspection.Closure
import GraphQL.Proofs.Introspection.Report

/-!
# `GraphQL/Proofs/Introspection/Subjects.lean` — what subjects answer

The introspection types are full of fields that exclude null. That a part of a schema always has
something to put there rests on what building has checked: every name that a type or directive
refers to is registered, so a subject that comes from the schema has a kind, a type and all else
that must be there (`Subject.Registered`).

`Subject.Registered.supplies` says it for all fields of all introspection types: what a field of
such a subject resolves to is of the declared type of the field, with subjects of the right kind
where objects are expected (`Schema.Supplies`), and these are again registered.
-/

set_option autoImplicit false

namespace GraphQL

open Introspection

/-! ## 1. Subjects of registered types -/

/-- All types that the subject names are registered. -/
def Introspection.Subject.Registered (schema : Schema) : Subject → Prop
  | .schema => True
  | .type ref => ref.innermost ∈ schema.types.names
  | .field described => described.type.innermost ∈ schema.types.names ∧
      ∀ argument ∈ described.arguments, argument.type.innermost ∈ schema.types.names
  | .input described => described.type.innermost ∈ schema.types.names
  | .enumValue _ => True
  | .directive described =>
      ∀ argument ∈ described.arguments, argument.type.innermost ∈ schema.types.names

namespace SchemaDescription.Builds

variable {description : SchemaDescription} {schema : Schema}

theorem get?_typeKindType (hb : description.Builds schema) :
    schema.types.get? "__TypeKind" = some (.enum typeKindType) := by
  have hm : .enum typeKindType ∈ metaTypes := by simp [metaTypes]
  exact hb.get?_metaType hm

theorem get?_objectType (hb : description.Builds schema) (subject : Subject) :
    schema.types.get? subject.objectType.name = some (.object subject.objectType) := by
  have hm : .object subject.objectType ∈ metaTypes := by
    cases subject <;> simp [metaTypes, Subject.objectType]
  exact hb.get?_metaType hm

theorem registered_field (hb : description.Builds schema) {type : TypeDefinition}
    (hm : type ∈ schema.types.entries) {fields : Table FieldDefinition}
    (hf : type.fields? = some fields) {field : FieldDefinition} (hfield : field ∈ fields.entries) :
    (Subject.field field.describe).Registered schema := by
  have hedge : ∀ name ∈ Table.fieldEdges fields, name ∈ schema.types.names := by
    intro name hn
    refine hb.registered_of_edge hm ?_
    cases type with
    | object type =>
      cases hf
      exact List.mem_append_right _ hn
    | interface type =>
      cases hf
      exact List.mem_append_right _ hn
    | _ => cases hf
  constructor
  · refine hedge _ (List.mem_flatMap.mpr ⟨field, hfield, ?_⟩)
    exact List.mem_append_right _ (List.mem_singleton_self _)
  · intro argument ha
    obtain ⟨input, hi, rfl⟩ := List.mem_map.mp ha
    refine hedge _ (List.mem_flatMap.mpr ⟨field, hfield, List.mem_append_left _ ?_⟩)
    exact List.mem_map_of_mem hi

section Report

variable {type : TypeDefinition} (hm : type ∈ schema.types.entries)

include hm

theorem registered_fields (hb : description.Builds schema) {deprecated : Bool}
    {field : FieldDescription}
    (hf : field ∈ ((type.report schema).shown deprecated).fields.getD []) :
    (Subject.field field).Registered schema := by
  have hreported : ∀ fields : Table FieldDefinition, type.fields? = some fields →
      field ∈ fields.entries.map (·.report) → (Subject.field field).Registered schema := by
    rintro fields hfields hreport
    obtain ⟨definition, hdefinition, rfl⟩ := List.mem_map.mp hreport
    exact hb.registered_field hm hfields hdefinition
  cases type with
  | object type => exact hreported type.fields rfl (List.mem_of_mem_filter hf)
  | interface type => exact hreported type.fields rfl (List.mem_of_mem_filter hf)
  | _ => cases hf

theorem registered_interfaces (hb : description.Builds schema) {name : Name}
    (hn : name ∈ (type.report schema).interfaces.getD []) : name ∈ schema.types.names := by
  cases type with
  | object type => exact hb.registered_of_edge hm (List.mem_append_left _ hn)
  | _ => cases hn

theorem registered_possibleTypes (hb : description.Builds schema) {name : Name}
    (hn : name ∈ (type.report schema).possibleTypes.getD []) : name ∈ schema.types.names := by
  cases type with
  | interface type => exact hb.registered_of_edge hm (List.mem_append_left _ hn)
  | union type => exact hb.registered_of_edge hm hn
  | _ => cases hn

theorem registered_inputFields (hb : description.Builds schema) {input : InputDescription}
    (hi : input ∈ (type.report schema).inputFields.getD []) :
    (Subject.input input).Registered schema := by
  cases type with
  | input type =>
    obtain ⟨field, hfield, rfl⟩ := List.mem_map.mp hi
    exact hb.registered_of_edge hm (List.mem_map_of_mem hfield)
  | _ => cases hi

end Report

theorem registered_directive (hb : description.Builds schema) {directive : DirectiveDefinition}
    (hm : directive ∈ schema.directives.entries) :
    (Subject.directive directive.describe).Registered schema := by
  intro argument ha
  obtain ⟨input, hi, rfl⟩ := List.mem_map.mp ha
  have hc := checkAll_eq_ok hb.directivesChecked directive hm
  exact registered_of_checkReference (checkAll_eq_ok hc input hi)

end SchemaDescription.Builds

theorem Schema.exists_type_of_inside?_eq_none {schema : Schema} {ref : TypeRef}
    (hi : ref.inside? = none) (hr : ref.innermost ∈ schema.types.names) :
    ∃ type : TypeDefinition, schema.types.get? type.name = some type ∧
      ref = .named type.name false := by
  unfold TypeRef.inside? at hi
  split at hi <;> cases hi
  obtain ⟨type, ht⟩ := Table.mem_names_iff.mp hr
  obtain rfl : type.name = _ := (Table.get?_eq_some_iff.mp ht).2
  exact ⟨type, ht, rfl⟩

/-! ## 2. What fields of subjects resolve to -/

/-- A value is what completion expects at a declared type, as far as introspection declares types.
-/
inductive Schema.Supplies (schema : Schema) : TypeRef → Value → Prop where
  | null {type : TypeRef} (h : type.required = false) : Supplies schema type .null
  | string {required : Bool} (s : String) : Supplies schema (.named "String" required) (.string s)
  | boolean {required : Bool} (b : Bool) : Supplies schema (.named "Boolean" required) (.boolean b)
  | kind {required : Bool} (kind : TypeKind) :
    Supplies schema (.named "__TypeKind" required) kind.value
  | subject {name : Name} {required : Bool} {subject : Subject} (h : subject.Registered schema)
    (hn : subject.objectType.name = name) :
    Supplies schema (.named name required) subject.value
  | list {item : TypeRef} {required : Bool} {items : List Value}
    (h : ∀ value ∈ items, Supplies schema item value) :
    Supplies schema (.list item required) (.list items)

namespace Schema.Supplies

variable {schema : Schema} {required : Bool}

theorem text (text : Option String) : schema.Supplies (maybe "String") (.ofText? text) := by
  cases text with
  | none => exact .null rfl
  | some s => exact .string s

theorem subjects {α : Type} {make : α → Subject} {items : List α} {name : Name}
    (h : ∀ item ∈ items, (make item).Registered schema ∧ (make item).objectType.name = name) :
    schema.Supplies (.list (always name) required) (Introspection.subjects make items) := by
  refine .list fun value hm => ?_
  obtain ⟨item, hi, rfl⟩ := List.mem_map.mp hm
  exact .subject (h item hi).1 (h item hi).2

theorem optional {α : Type} {make : α → Subject} {items : Option (List α)} {name : Name}
    (h : ∀ item ∈ items.getD [], (make item).Registered schema ∧
      (make item).objectType.name = name) :
    schema.Supplies (maybeList name) (.ofOption (Introspection.subjects make) items) := by
  cases items with
  | none => exact .null rfl
  | some items => exact .subjects h

theorem typesNamed {names : List Name} (h : ∀ name ∈ names, name ∈ schema.types.names) :
    schema.Supplies (.list (always "__Type") required) (Introspection.typesNamed names) :=
  subjects fun name hm => ⟨h name hm, rfl⟩

theorem typeNamed {name : Name} (h : name ∈ schema.types.names) :
    schema.Supplies (.named "__Type" required) (Introspection.typeNamed name) :=
  .subject h rfl

end Schema.Supplies

/-- What is in a table is one of the entries that it was made of. -/
theorem Table.mem_of_mem_ofList {α : Type} [Named α] {entries : List α} {entry : α}
    (h : entry ∈ (ofList entries).entries) : entry ∈ entries := by
  have hput : ∀ {table : List α} {other : α}, entry ∈ putEntry other table →
      entry ∈ table ∨ entry = other := by
    intro table other hm
    induction table with
    | nil => exact Or.inr (List.mem_singleton.mp hm)
    | cons first rest ih =>
      rw [putEntry] at hm
      split at hm
      · rcases List.mem_cons.mp hm with rfl | hm
        · exact Or.inr rfl
        · exact Or.inl (List.mem_cons_of_mem _ hm)
      · rcases List.mem_cons.mp hm with rfl | hm
        · exact Or.inl List.mem_cons_self
        · exact (ih hm).imp_left (List.mem_cons_of_mem _)
  have hfold : ∀ (entries : List α) (table : Table α), entry ∈ (entries.foldl put table).entries →
      entry ∈ table.entries ∨ entry ∈ entries := by
    intro entries
    induction entries with
    | nil => exact fun _ hm => Or.inl hm
    | cons first rest ih =>
      intro table hm
      rcases ih (table.put first) hm with hm | hm
      · rcases hput hm with hm | rfl
        · exact Or.inl hm
        · exact Or.inr List.mem_cons_self
      · exact Or.inr (List.mem_cons_of_mem _ hm)
  exact (hfold entries empty h).resolve_left List.not_mem_nil

section Resolve

variable {description : SchemaDescription} {info : ResolveInfo}

theorem supplies_resolveSchema (hb : description.Builds info.schema)
    (hf : info.field ∈ schemaType.fields.entries) :
    info.schema.Supplies info.field.type (resolveSchema info) := by
  have hm := Table.mem_of_mem_ofList hf
  simp only [List.mem_cons, List.not_mem_nil, or_false] at hm
  unfold resolveSchema
  rcases hm with h | h | h | h | h <;> rw [h]
  · refine .typesNamed fun name hn => ?_
    obtain ⟨type, htype, rfl⟩ := List.mem_map.mp hn
    exact List.mem_map_of_mem (Schema.registered_of_mem_reachable htype)
  · exact .typeNamed (Table.mem_names_iff.mpr ⟨_, hb.get?_query⟩)
  · show info.schema.Supplies (maybe "__Type")
      (.ofOption (fun type => typeNamed type.name) info.schema.mutation)
    cases hmutation : info.schema.mutation with
    | none => exact .null rfl
    | some type => exact .typeNamed (Table.mem_names_iff.mpr ⟨_, hb.get?_mutation hmutation⟩)
  · exact .null rfl
  · refine .subjects fun described hd => ?_
    obtain ⟨directive, hdirective, rfl⟩ := List.mem_map.mp hd
    exact ⟨hb.registered_directive hdirective, rfl⟩

theorem supplies_resolveNamedType (hb : description.Builds info.schema)
    (hf : info.field ∈ typeType.fields.entries) {type : TypeDefinition}
    (ht : type ∈ info.schema.types.entries) :
    info.schema.Supplies info.field.type (resolveNamedType info type) := by
  have hm := Table.mem_of_mem_ofList hf
  simp only [List.mem_cons, List.not_mem_nil, or_false] at hm
  rcases hm with h | h | h | h | h | h | h | h | h
  · rw [resolveNamedType_kind (congrArg FieldDefinition.name h), h]
    exact .kind _
  · rw [resolveNamedType_name (congrArg FieldDefinition.name h), h]
    exact .string _
  · rw [resolveNamedType_description (congrArg FieldDefinition.name h), h]
    exact .text _
  · rw [resolveNamedType_fields (congrArg FieldDefinition.name h), h]
    exact .optional fun field hf => ⟨hb.registered_fields ht hf, rfl⟩
  · rw [resolveNamedType_interfaces (congrArg FieldDefinition.name h), h]
    exact .optional fun name hn => ⟨hb.registered_interfaces ht hn, rfl⟩
  · rw [resolveNamedType_possibleTypes (congrArg FieldDefinition.name h), h]
    exact .optional fun name hn => ⟨hb.registered_possibleTypes ht hn, rfl⟩
  · rw [resolveNamedType_enumValues (congrArg FieldDefinition.name h), h]
    exact .optional fun value _ => ⟨trivial, rfl⟩
  · rw [resolveNamedType_inputFields (congrArg FieldDefinition.name h), h]
    exact .optional fun input hi => ⟨hb.registered_inputFields ht hi, rfl⟩
  · simp only [resolveNamedType, h]
    exact .null rfl

/-- A list or a non-null type has a kind and a type inside, and all else is null. -/
theorem supplies_wrapper (hf : info.field ∈ typeType.fields.entries) (kind : TypeKind)
    {inside : TypeRef} (hi : inside.innermost ∈ info.schema.types.names) :
    info.schema.Supplies info.field.type (match info.field.name with
      | "kind" => kind.value
      | "ofType" => (Subject.type inside).value
      | _ => .null) := by
  have hm := Table.mem_of_mem_ofList hf
  simp only [List.mem_cons, List.not_mem_nil, or_false] at hm
  rcases hm with h | h | h | h | h | h | h | h | h <;> rw [h]
  · exact .kind kind
  all_goals first | exact .subject hi rfl | exact .null rfl

theorem supplies_resolveType (hb : description.Builds info.schema)
    (hf : info.field ∈ typeType.fields.entries) {ref : TypeRef}
    (hr : ref.innermost ∈ info.schema.types.names) :
    info.schema.Supplies info.field.type (resolveType info ref) := by
  cases hi : ref.inside? with
  | none =>
    obtain ⟨type, ht, rfl⟩ := Schema.exists_type_of_inside?_eq_none hi hr
    rw [resolveType_named ht]
    exact supplies_resolveNamedType hb hf (Table.get?_eq_some_iff.mp ht).1
  | some wrapped =>
    rw [resolveType_wrapper hi]
    exact supplies_wrapper hf wrapped.1 (TypeRef.innermost_inside hi ▸ hr)

theorem supplies_resolveField (hf : info.field ∈ fieldType.fields.entries)
    {described : FieldDescription} (hr : (Subject.field described).Registered info.schema) :
    info.schema.Supplies info.field.type (resolveField info described) := by
  have hm := Table.mem_of_mem_ofList hf
  simp only [List.mem_cons, List.not_mem_nil, or_false] at hm
  unfold resolveField
  rcases hm with h | h | h | h | h | h <;> rw [h]
  · exact .string _
  · exact .text _
  · exact .subjects fun argument ha => ⟨hr.2 argument ha, rfl⟩
  · exact .subject hr.1 rfl
  · exact .boolean _
  · exact .text _

theorem supplies_resolveInput (hf : info.field ∈ inputValueType.fields.entries)
    {described : InputDescription} (hr : (Subject.input described).Registered info.schema) :
    info.schema.Supplies info.field.type (resolveInput info described) := by
  have hm := Table.mem_of_mem_ofList hf
  simp only [List.mem_cons, List.not_mem_nil, or_false] at hm
  unfold resolveInput
  rcases hm with h | h | h | h <;> rw [h]
  · exact .string _
  · exact .text _
  · exact .subject hr rfl
  · exact .text _

theorem supplies_resolveEnumValue (hf : info.field ∈ enumValueType.fields.entries)
    (described : EnumValueDescription) :
    info.schema.Supplies info.field.type (resolveEnumValue info described) := by
  have hm := Table.mem_of_mem_ofList hf
  simp only [List.mem_cons, List.not_mem_nil, or_false] at hm
  unfold resolveEnumValue
  rcases hm with h | h | h | h <;> rw [h]
  · exact .string _
  · exact .text _
  · exact .boolean _
  · exact .text _

theorem supplies_resolveDirective (hf : info.field ∈ directiveType.fields.entries)
    {described : DirectiveDescription}
    (hr : (Subject.directive described).Registered info.schema) :
    info.schema.Supplies info.field.type (resolveDirective info described) := by
  have hm := Table.mem_of_mem_ofList hf
  simp only [List.mem_cons, List.not_mem_nil, or_false] at hm
  unfold resolveDirective
  rcases hm with h | h | h | h | h | h <;> rw [h]
  · exact .string _
  · exact .text _
  · exact .subjects fun argument ha => ⟨hr argument ha, rfl⟩
  · exact .boolean _
  · exact .boolean _
  · exact .boolean _

/-- Every field of a subject resolves to what its declared type expects. -/
theorem Introspection.Subject.Registered.supplies {subject : Subject}
    (hr : subject.Registered info.schema) (hb : description.Builds info.schema)
    (hf : info.field ∈ subject.objectType.fields.entries) :
    info.schema.Supplies info.field.type (subject.resolve info) := by
  cases subject with
  | schema => exact supplies_resolveSchema hb hf
  | type ref => exact supplies_resolveType hb hf hr
  | field described => exact supplies_resolveField hf hr
  | input described => exact supplies_resolveInput hf hr
  | enumValue described => exact supplies_resolveEnumValue hf described
  | directive described => exact supplies_resolveDirective hf hr

end Resolve

/-- Resolving a field of a subject asks the subject. -/
theorem Environment.resolve_subject {σ : Type} {env : Environment σ} (subject : Subject)
    (group : FieldGroup) (definition : FieldDefinition) :
    env.resolve (.declared definition)
        (env.resolveInfo subject.objectType subject.value group definition) =
      pure (.ok (subject.resolve
        (env.resolveInfo subject.objectType subject.value group definition))) := by
  obtain ⟨answer, ha, hanswer⟩ := resolver?_objectType subject
  exact (resolve_introspection ha definition).trans (congrArg pure (hanswer _ rfl))

end GraphQL
