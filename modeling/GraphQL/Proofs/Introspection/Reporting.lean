import GraphQL.Proofs.Introspection.Subjects

/-!
# `GraphQL/Proofs/Introspection/Reporting.lean` — the query for everything

One query asks for everything that introspection can tell of a schema (`Introspection.reporting`).
What it comes to is computed here from the inside out. A field of a subject answers with what the
subject has there (`Environment.answers_object`, `Environment.answers_list`), so each kind of
subject answers with the members that its description has in JSON, and the schema as a whole answers
with its report (`Environment.executeSelections_schema`).

Each selection set needs one more level of execution than what is selected below it. The levels are
counted up from the references, which need as many as the query asks for, to the root six levels
above, so one bound on `fuel` goes through all of it. The answer stops where the query stops, and
whether that is deep enough does not matter here.
-/

set_option autoImplicit false

namespace GraphQL

open Introspection

/-! ## 1. The query -/

namespace Introspection

/-- Selects a reference, with the references inside it to a depth. -/
def refSelections : Nat → List Selection
  | 0 => [select "kind" [] [], select "name" [] []]
  | depth + 1 => [select "kind" [] [], select "name" [] [],
      select "ofType" [] (refSelections depth)]

def nameSelections : List Selection :=
  [select "name" [] []]

def inputSelections (depth : Nat) : List Selection := [
  select "name" [] [],
  select "description" [] [],
  select "type" [] (refSelections depth),
  select "defaultValue" [] []]

def fieldSelections (depth : Nat) : List Selection := [
  select "name" [] [],
  select "description" [] [],
  select "args" [] (inputSelections depth),
  select "type" [] (refSelections depth),
  select "deprecationReason" [] []]

def enumValueSelections : List Selection :=
  [select "name" [] [], select "description" [] [], select "deprecationReason" [] []]

/-- The argument `includeDeprecated`, if it is given. -/
def flagArguments (given : Option Literal) : List Argument :=
  (given.map fun value => { name := "includeDeprecated", value }).toList

def typeSelections (given : Option Literal) (depth : Nat) : List Selection := [
  select "kind" [] [],
  select "name" [] [],
  select "description" [] [],
  select "fields" (flagArguments given) (fieldSelections depth),
  select "interfaces" [] nameSelections,
  select "possibleTypes" [] nameSelections,
  select "enumValues" (flagArguments given) enumValueSelections,
  select "inputFields" [] (inputSelections depth)]

def directiveSelections (depth : Nat) : List Selection := [
  select "name" [] [],
  select "description" [] [],
  select "args" [] (inputSelections depth),
  select "onOperation" [] [],
  select "onFragment" [] [],
  select "onField" [] []]

def schemaSelections (given : Option Literal) (depth : Nat) : List Selection := [
  select "types" [] (typeSelections given depth),
  select "queryType" [] nameSelections,
  select "mutationType" [] nameSelections,
  select "directives" [] (directiveSelections depth)]

/-- The query for everything, with `includeDeprecated` as given and references to a depth. -/
def reporting (declared : List VariableDefinition) (given : Option Literal) (depth : Nat) :
    Document where
  operations := [{ query (select "__schema" [] (schemaSelections given depth)) with
    variableDefinitions := declared }]
  fragments := []

/-- What `includeDeprecated` comes to, as it is given: null if it is left out. -/
def flag (schema : Schema) (variableValues : Entries Value) (given : Option Literal) : Value :=
  match given with
  | some literal => schema.coerceLiteral variableValues literal (maybe "Boolean")
  | none => .null

theorem flag_boolean {schema : Schema}
    (hbool : schema.types.get? "Boolean" = some (.scalar Scalar.boolean))
    (variableValues : Entries Value) (b : Bool) :
    flag schema variableValues (some (.boolean b)) = .boolean b := by
  simp [flag, Schema.coerceLiteral, maybe, TypeRef.promote, Schema.coerceLeafLiteral, hbool,
    Scalar.boolean]

/-- Whether deprecated entries are asked for. -/
def showsDeprecated (schema : Schema) (variableValues : Entries Value) (given : Option Literal) :
    Bool :=
  (flag schema variableValues given).boolean?.getD false

end Introspection

/-! ## 2. Fields of subjects -/

/-- The kind of the type of a name. -/
def Schema.kind (schema : Schema) (name : Name) : TypeKind :=
  match schema.types.get? name with
  | some type => (type.report schema).kind
  | none => .scalar

theorem Schema.kind_ne_wrapper (schema : Schema) (name : Name) :
    schema.kind name ≠ .list ∧ schema.kind name ≠ .nonNull := by
  unfold kind
  cases schema.types.get? name with
  | none => simp
  | some type => cases type <;> simp [TypeDefinition.report]

/-- A default of false is what null comes to anyway. -/
theorem InputValueDefinition.boolean_withDefault {input : InputValueDefinition}
    (hd : input.default = some (.boolean false)) (value : Value) :
    (input.withDefault value).boolean?.getD false = value.boolean?.getD false := by
  cases value <;> simp [withDefault, hd, Value.boolean?]

/-- The group of a field that is selected on its own. -/
def Introspection.selectedAlone (name : Name) (arguments : List Argument) (below : List Selection) :
    FieldGroup :=
  .alone ⟨{ location := .start, aliased := none, name, arguments, directives := [] }, below⟩

theorem Introspection.selections_selectedAlone (name : Name) (arguments : List Argument)
    (below : List Selection) : (selectedAlone name arguments below).selections = below :=
  FieldGroup.selections_alone _

/-- The argument `includeDeprecated` is read as its flag says. -/
theorem Environment.asksForDeprecated_eq {σ : Type} (env : Environment σ) (type : ObjectType)
    (source : Value) (name : Name) (given : Option Literal) (below : List Selection)
    (field : FieldDefinition) :
    asksForDeprecated (env.resolveInfo type source
        (selectedAlone name (flagArguments given) below) (filtered field)) =
      showsDeprecated env.schema env.variableValues given := by
  cases given with
  | none => rfl
  | some literal =>
    exact InputValueDefinition.boolean_withDefault rfl
      (flag env.schema env.variableValues (some literal))

theorem complete_text {schema : Schema} {σ : Type} {application : Application σ}
    {group : FieldGroup} {execute : ObjectType → Value → List Selection → Run σ Json.Members}
    (hs : schema.types.get? "String" = some (.scalar Scalar.string)) (text : Option String) :
    complete schema application execute group (maybe "String") (.ofText? text) =
      pure (textJson text) := by
  cases text with
  | none => exact complete_null rfl
  | some text => exact complete_string hs false text

namespace Environment

variable {σ : Type} {env : Environment σ} {depth fuel : Nat}

section Answers

variable (subject : Subject) {name : Name} {arguments : List Argument} {below : List Selection}
variable {definition : FieldDefinition}

theorem answers_subject {data : Json}
    (hf : env.schema.field? subject.objectType name = some (.declared definition))
    (hc : complete env.schema env.application (env.executeSelections depth)
      (selectedAlone name arguments below) definition.type
      (subject.resolve (env.resolveInfo subject.objectType subject.value
        (selectedAlone name arguments below) definition)) = pure data) :
    env.Answers depth subject.objectType subject.value (select name arguments below)
      (name, data) :=
  answers_of_resolve rfl hf (resolve_subject subject _ definition) hc

variable {description : SchemaDescription} (hb : description.Builds env.schema)

include hb

/-- A field that resolves to a subject answers with what is selected on it. -/
theorem answers_object (next : Subject) {required : Bool} {members : Json.Members}
    (hf : env.schema.field? subject.objectType name = some (.declared definition))
    (ht : definition.type = .named next.objectType.name required)
    (hv : subject.resolve (env.resolveInfo subject.objectType subject.value
      (selectedAlone name arguments below) definition) = next.value)
    (he : env.executeSelections depth next.objectType next.value below = pure members) :
    env.Answers depth subject.objectType subject.value (select name arguments below)
      (name, .object members) := by
  apply answers_subject subject hf
  rw [ht, hv]
  apply complete_object (hb.get?_objectType next) rfl
  rw [selections_selectedAlone, he]

/-- A field that resolves to subjects answers with a list of what is selected on them. -/
theorem answers_list {α : Type} (make : α → Subject) (type : ObjectType) {required : Bool}
    {items : List α} {members : α → Json.Members}
    (hf : env.schema.field? subject.objectType name = some (.declared definition))
    (ht : definition.type = .list (always type.name) required)
    (hv : subject.resolve (env.resolveInfo subject.objectType subject.value
      (selectedAlone name arguments below) definition) = subjects make items)
    (he : ∀ item ∈ items, (make item).objectType = type ∧
      env.executeSelections depth type (make item).value below = pure (members item)) :
    env.Answers depth subject.objectType subject.value (select name arguments below)
      (name, listJson members (some items)) := by
  apply answers_subject subject hf
  rw [ht, hv]
  refine complete_items fun item hm => ?_
  obtain ⟨rfl, hexecute⟩ := he item hm
  apply complete_object (hb.get?_objectType (make item)) rfl
  rw [selections_selectedAlone, hexecute]

/-- A field that resolves to subjects, or to null, answers with a list or with null. -/
theorem answers_optional {α : Type} (make : α → Subject) (type : ObjectType)
    {items : Option (List α)} {members : α → Json.Members}
    (hf : env.schema.field? subject.objectType name = some (.declared definition))
    (ht : definition.type = maybeList type.name)
    (hv : subject.resolve (env.resolveInfo subject.objectType subject.value
      (selectedAlone name arguments below) definition) = .ofOption (subjects make) items)
    (he : ∀ item ∈ items.getD [], (make item).objectType = type ∧
      env.executeSelections depth type (make item).value below = pure (members item)) :
    env.Answers depth subject.objectType subject.value (select name arguments below)
      (name, listJson members items) := by
  cases items with
  | none =>
    apply answers_subject subject hf
    rw [ht, hv]
    exact complete_null rfl
  | some items => exact answers_list subject hb make type hf ht hv he

end Answers

/-! ## 3. Types and references -/

variable {description : SchemaDescription} (hb : description.Builds env.schema)
variable (hs : env.schema.types.get? "String" = some (.scalar Scalar.string))
variable (hbool : env.schema.types.get? "Boolean" = some (.scalar Scalar.boolean))

include hb in
theorem answers_wrapper {ref inside : TypeRef} {wrapper : TypeKind}
    (hi : ref.inside? = some (wrapper, inside)) :
    env.Answers depth typeType (Subject.type ref).value (select "kind" [] [])
        ("kind", .string wrapper.name) ∧
      env.Answers depth typeType (Subject.type ref).value (select "name" [] [])
        ("name", .null) := by
  constructor
  · apply answers_subject (.type ref) rfl
    rw [Subject.resolve, resolveType_wrapper hi]
    exact complete_kind hb.get?_typeKindType true wrapper
  · apply answers_subject (.type ref) rfl
    rw [Subject.resolve, resolveType_wrapper hi]
    exact complete_null rfl

section Named

variable {type : TypeDefinition} (ht : env.schema.types.get? type.name = some type)

include ht

theorem resolve_named {info : ResolveInfo} (hi : info.schema = env.schema) :
    (Subject.type (.named type.name false)).resolve info = resolveNamedType info type := by
  rw [Subject.resolve]
  exact resolveType_named (hi ▸ ht)

include hb in
theorem answers_kind : env.Answers depth typeType (typeNamed type.name) (select "kind" [] [])
    ("kind", .string (type.report env.schema).kind.name) := by
  apply answers_subject (.type (.named type.name false)) rfl
  rw [resolve_named ht rfl, resolveNamedType_kind rfl]
  exact complete_kind hb.get?_typeKindType true _

include hs in
theorem answers_name : env.Answers depth typeType (typeNamed type.name) (select "name" [] [])
    ("name", .string type.name) := by
  apply answers_subject (.type (.named type.name false)) rfl
  rw [resolve_named ht rfl, resolveNamedType_name rfl, type.name_report]
  exact complete_string hs false type.name

include hs in
theorem answers_description : env.Answers depth typeType (typeNamed type.name)
    (select "description" [] [])
    ("description", textJson (type.report env.schema).description) := by
  apply answers_subject (.type (.named type.name false)) rfl
  rw [resolve_named ht rfl, resolveNamedType_description rfl]
  exact complete_text hs _

theorem answers_ofType (below : List Selection) : env.Answers depth typeType
    (typeNamed type.name) (select "ofType" [] below) ("ofType", .null) := by
  apply answers_subject (.type (.named type.name false)) rfl
  rw [resolve_named ht rfl]
  exact complete_null rfl

include hb hs in
theorem executeSelections_innermost (fuel : Nat) :
    env.executeSelections (fuel + 1) typeType (typeNamed type.name) (refSelections depth) =
      pure (refMembers env.schema.kind depth (.named type.name false)) := by
  have hkind : env.schema.kind type.name = (type.report env.schema).kind := by
    rw [Schema.kind, ht]
  cases depth with
  | zero =>
    rw [refMembers, TypeRef.inside?, TypeRef.innermost, hkind]
    exact executeSelections_of_answers
      (.cons (answers_kind hb ht) (.cons (answers_name hs ht) .nil)) (by simp [Entries.keys])
  | succ depth =>
    rw [refMembers, TypeRef.inside?, TypeRef.innermost, hkind]
    exact executeSelections_of_answers
      (.cons (answers_kind hb ht) (.cons (answers_name hs ht) (.cons (answers_ofType ht _) .nil)))
      (by simp [Entries.keys])

end Named

include hb hs

theorem executeSelections_ref {ref : TypeRef} (hr : ref.innermost ∈ env.schema.types.names)
    (hd : depth ≤ fuel) :
    env.executeSelections (fuel + 1) typeType (Subject.type ref).value (refSelections depth) =
      pure (refMembers env.schema.kind depth ref) := by
  -- The selections are nested as deep as `depth`, whatever the reference is.
  induction depth generalizing ref fuel with
  | zero =>
    cases hi : ref.inside? with
    | none =>
      obtain ⟨type, ht, rfl⟩ := Schema.exists_type_of_inside?_eq_none hi hr
      exact executeSelections_innermost hb hs ht fuel
    | some wrapped =>
      obtain ⟨hkind, hname⟩ := answers_wrapper hb hi
      rw [refMembers, hi]
      exact executeSelections_of_answers (.cons hkind (.cons hname .nil)) (by simp [Entries.keys])
  | succ depth ih =>
    cases hi : ref.inside? with
    | none =>
      obtain ⟨type, ht, rfl⟩ := Schema.exists_type_of_inside?_eq_none hi hr
      exact executeSelections_innermost hb hs ht fuel
    | some wrapped =>
      obtain ⟨wrapper, inside⟩ := wrapped
      obtain ⟨fuel, rfl⟩ := Nat.exists_eq_add_of_le' (Nat.le_of_add_left_le hd)
      obtain ⟨hkind, hname⟩ := answers_wrapper hb hi
      have hinside : env.Answers (fuel + 1) typeType (Subject.type ref).value
          (select "ofType" [] (refSelections depth))
          ("ofType", .object (refMembers env.schema.kind depth inside)) := by
        apply answers_object (.type ref) hb (.type inside) rfl rfl
        · exact resolveType_wrapper hi
        · exact ih (TypeRef.innermost_inside hi ▸ hr) (Nat.le_of_succ_le_succ hd)
      rw [refMembers, hi]
      exact executeSelections_of_answers (.cons hkind (.cons hname (.cons hinside .nil)))
        (by simp [Entries.keys])

/-! ## 4. Parts of types -/

theorem executeSelections_input {input : InputDescription}
    (hr : (Subject.input input).Registered env.schema) (hd : depth ≤ fuel) :
    env.executeSelections (fuel + 2) inputValueType (Subject.input input).value
        (inputSelections depth) = pure (inputMembers env.schema.kind depth input) := by
  have hname : env.Answers (fuel + 1) inputValueType (Subject.input input).value
      (select "name" [] []) ("name", .string input.name) :=
    answers_subject (.input input) rfl (complete_string hs true input.name)
  have hdescription : env.Answers (fuel + 1) inputValueType (Subject.input input).value
      (select "description" [] []) ("description", textJson input.description) :=
    answers_subject (.input input) rfl (complete_text hs input.description)
  have htype : env.Answers (fuel + 1) inputValueType (Subject.input input).value
      (select "type" [] (refSelections depth))
      ("type", .object (refMembers env.schema.kind depth input.type)) :=
    answers_object (.input input) hb (.type input.type) rfl rfl rfl
      (executeSelections_ref hb hs hr hd)
  have hdefault : env.Answers (fuel + 1) inputValueType (Subject.input input).value
      (select "defaultValue" [] []) ("defaultValue", textJson input.default) :=
    answers_subject (.input input) rfl (complete_text hs input.default)
  exact executeSelections_of_answers
    (.cons hname (.cons hdescription (.cons htype (.cons hdefault .nil))))
    (by simp [inputMembers, Entries.keys])

theorem executeSelections_field {field : FieldDescription}
    (hr : (Subject.field field).Registered env.schema) (hd : depth ≤ fuel) :
    env.executeSelections (fuel + 3) fieldType (Subject.field field).value
        (fieldSelections depth) = pure (fieldMembers env.schema.kind depth field) := by
  have hname : env.Answers (fuel + 2) fieldType (Subject.field field).value
      (select "name" [] []) ("name", .string field.name) :=
    answers_subject (.field field) rfl (complete_string hs true field.name)
  have hdescription : env.Answers (fuel + 2) fieldType (Subject.field field).value
      (select "description" [] []) ("description", textJson field.description) :=
    answers_subject (.field field) rfl (complete_text hs field.description)
  have hargs : env.Answers (fuel + 2) fieldType (Subject.field field).value
      (select "args" [] (inputSelections depth))
      ("args", listJson (inputMembers env.schema.kind depth) (some field.arguments)) :=
    answers_list (.field field) hb .input inputValueType rfl rfl rfl fun input hm =>
      ⟨rfl, executeSelections_input hb hs (hr.2 input hm) hd⟩
  have htype : env.Answers (fuel + 2) fieldType (Subject.field field).value
      (select "type" [] (refSelections depth))
      ("type", .object (refMembers env.schema.kind depth field.type)) :=
    answers_object (.field field) hb (.type field.type) rfl rfl rfl
      (executeSelections_ref hb hs hr.1 (Nat.le_succ_of_le hd))
  have hdeprecation : env.Answers (fuel + 2) fieldType (Subject.field field).value
      (select "deprecationReason" [] []) ("deprecationReason", textJson field.deprecation) :=
    answers_subject (.field field) rfl (complete_text hs field.deprecation)
  exact executeSelections_of_answers
    (.cons hname (.cons hdescription (.cons hargs (.cons htype (.cons hdeprecation .nil)))))
    (by simp [fieldMembers, Entries.keys])

omit hb in
theorem executeSelections_enumValue (value : EnumValueDescription) (fuel : Nat) :
    env.executeSelections (fuel + 1) enumValueType (Subject.enumValue value).value
        enumValueSelections = pure (enumValueMembers value) := by
  have hname : env.Answers fuel enumValueType (Subject.enumValue value).value
      (select "name" [] []) ("name", .string value.name) :=
    answers_subject (.enumValue value) rfl (complete_string hs true value.name)
  have hdescription : env.Answers fuel enumValueType (Subject.enumValue value).value
      (select "description" [] []) ("description", textJson value.description) :=
    answers_subject (.enumValue value) rfl (complete_text hs value.description)
  have hdeprecation : env.Answers fuel enumValueType (Subject.enumValue value).value
      (select "deprecationReason" [] []) ("deprecationReason", textJson value.deprecation) :=
    answers_subject (.enumValue value) rfl (complete_text hs value.deprecation)
  exact executeSelections_of_answers (.cons hname (.cons hdescription (.cons hdeprecation .nil)))
    (by simp [enumValueMembers, Entries.keys])

include hbool in
theorem executeSelections_directive {directive : DirectiveDescription}
    (hr : (Subject.directive directive).Registered env.schema) (hd : depth ≤ fuel) :
    env.executeSelections (fuel + 3) directiveType (Subject.directive directive).value
        (directiveSelections depth) =
      pure (directiveMembers env.schema.kind depth directive) := by
  have hname : env.Answers (fuel + 2) directiveType (Subject.directive directive).value
      (select "name" [] []) ("name", .string directive.name) :=
    answers_subject (.directive directive) rfl (complete_string hs true directive.name)
  have hdescription : env.Answers (fuel + 2) directiveType (Subject.directive directive).value
      (select "description" [] []) ("description", textJson directive.description) :=
    answers_subject (.directive directive) rfl (complete_text hs directive.description)
  have hargs : env.Answers (fuel + 2) directiveType (Subject.directive directive).value
      (select "args" [] (inputSelections depth))
      ("args", listJson (inputMembers env.schema.kind depth) (some directive.arguments)) :=
    answers_list (.directive directive) hb .input inputValueType rfl rfl rfl fun input hm =>
      ⟨rfl, executeSelections_input hb hs (hr input hm) hd⟩
  have honOperation : env.Answers (fuel + 2) directiveType (Subject.directive directive).value
      (select "onOperation" [] []) ("onOperation", .boolean directive.onOperation) :=
    answers_subject (.directive directive) rfl (complete_boolean hbool true _)
  have honFragment : env.Answers (fuel + 2) directiveType (Subject.directive directive).value
      (select "onFragment" [] []) ("onFragment", .boolean directive.onFragment) :=
    answers_subject (.directive directive) rfl (complete_boolean hbool true _)
  have honField : env.Answers (fuel + 2) directiveType (Subject.directive directive).value
      (select "onField" [] []) ("onField", .boolean directive.onField) :=
    answers_subject (.directive directive) rfl (complete_boolean hbool true _)
  exact executeSelections_of_answers
    (.cons hname (.cons hdescription (.cons hargs (.cons honOperation (.cons honFragment
      (.cons honField .nil))))))
    (by simp [directiveMembers, Entries.keys])

/-! ## 5. The schema -/

omit hb in
theorem executeSelections_named {name : Name} (hr : name ∈ env.schema.types.names) (fuel : Nat) :
    env.executeSelections (fuel + 1) typeType (typeNamed name) nameSelections =
      pure (nameMembers name) := by
  obtain ⟨type, ht⟩ := Table.mem_names_iff.mp hr
  obtain rfl : type.name = name := (Table.get?_eq_some_iff.mp ht).2
  exact executeSelections_name hs ht fuel

section Parts

variable {type : TypeDefinition} (ht : env.schema.types.get? type.name = some type)
variable (given : Option Literal)

include ht

theorem answers_fields (hd : depth ≤ fuel) :
    env.Answers (fuel + 3) typeType (typeNamed type.name)
      (select "fields" (flagArguments given) (fieldSelections depth))
      ("fields", listJson (fieldMembers env.schema.kind depth) ((type.report env.schema).shown
        (showsDeprecated env.schema env.variableValues given)).fields) := by
  apply answers_optional (.type (.named type.name false)) hb .field fieldType rfl rfl
  · rw [resolve_named ht rfl, resolveNamedType_fields rfl]
    exact congrArg (fun deprecated => Value.ofOption (subjects Subject.field)
      ((type.report env.schema).shown deprecated).fields) (asksForDeprecated_eq ..)
  · intro field hm
    have hr := hb.registered_fields (Table.get?_eq_some_iff.mp ht).1 hm
    exact ⟨rfl, executeSelections_field hb hs hr hd⟩

theorem answers_interfaces :
    env.Answers (fuel + 1) typeType (typeNamed type.name) (select "interfaces" [] nameSelections)
      ("interfaces", listJson nameMembers (type.report env.schema).interfaces) := by
  apply answers_optional (.type (.named type.name false)) hb (.type <| .named · false) typeType
    rfl rfl
  · rw [resolve_named ht rfl, resolveNamedType_interfaces rfl]
    rfl
  · intro name hm
    have hr := hb.registered_interfaces (Table.get?_eq_some_iff.mp ht).1 hm
    exact ⟨rfl, executeSelections_named hs hr fuel⟩

theorem answers_possibleTypes :
    env.Answers (fuel + 1) typeType (typeNamed type.name)
      (select "possibleTypes" [] nameSelections)
      ("possibleTypes", listJson nameMembers (type.report env.schema).possibleTypes) := by
  apply answers_optional (.type (.named type.name false)) hb (.type <| .named · false) typeType
    rfl rfl
  · rw [resolve_named ht rfl, resolveNamedType_possibleTypes rfl]
    rfl
  · intro name hm
    have hr := hb.registered_possibleTypes (Table.get?_eq_some_iff.mp ht).1 hm
    exact ⟨rfl, executeSelections_named hs hr fuel⟩

theorem answers_enumValues :
    env.Answers (fuel + 1) typeType (typeNamed type.name)
      (select "enumValues" (flagArguments given) enumValueSelections)
      ("enumValues", listJson enumValueMembers ((type.report env.schema).shown
        (showsDeprecated env.schema env.variableValues given)).enumValues) := by
  apply answers_optional (.type (.named type.name false)) hb .enumValue enumValueType rfl rfl
  · rw [resolve_named ht rfl, resolveNamedType_enumValues rfl]
    exact congrArg (fun deprecated => Value.ofOption (subjects Subject.enumValue)
      ((type.report env.schema).shown deprecated).enumValues) (asksForDeprecated_eq ..)
  · exact fun value _ => ⟨rfl, executeSelections_enumValue hs value fuel⟩

theorem answers_inputFields (hd : depth ≤ fuel) :
    env.Answers (fuel + 2) typeType (typeNamed type.name)
      (select "inputFields" [] (inputSelections depth))
      ("inputFields", listJson (inputMembers env.schema.kind depth)
        (type.report env.schema).inputFields) := by
  apply answers_optional (.type (.named type.name false)) hb .input inputValueType rfl rfl
  · rw [resolve_named ht rfl, resolveNamedType_inputFields rfl]
    rfl
  · intro input hm
    have hr := hb.registered_inputFields (Table.get?_eq_some_iff.mp ht).1 hm
    exact ⟨rfl, executeSelections_input hb hs hr hd⟩

theorem executeSelections_type (hd : depth ≤ fuel) :
    env.executeSelections (fuel + 4) typeType (typeNamed type.name) (typeSelections given depth) =
      pure (typeMembers env.schema.kind depth ((type.report env.schema).shown
        (showsDeprecated env.schema env.variableValues given))) := by
  have hname : env.Answers (fuel + 3) typeType (typeNamed type.name) (select "name" [] [])
      ("name", .string (type.report env.schema).name) := by
    rw [type.name_report]
    exact answers_name hs ht
  have hanswers : List.Forall₂ (env.Answers (fuel + 3) typeType (typeNamed type.name))
      (typeSelections given depth) (typeMembers env.schema.kind depth
        ((type.report env.schema).shown (showsDeprecated env.schema env.variableValues given))) :=
    .cons (answers_kind hb ht) <| .cons hname <|
      .cons (answers_description hs ht) <| .cons (answers_fields hb hs ht given hd) <|
      .cons (answers_interfaces hb hs ht) <| .cons (answers_possibleTypes hb hs ht) <|
      .cons (answers_enumValues hb hs ht given) <|
      .cons (answers_inputFields hb hs ht (Nat.le_succ_of_le hd)) .nil
  exact executeSelections_of_answers hanswers (by simp [typeMembers, Entries.keys])

end Parts

theorem answers_types (given : Option Literal) (hd : depth ≤ fuel) :
    env.Answers (fuel + 4) schemaType Subject.schema.value
      (select "types" [] (typeSelections given depth)) ("types", listJson
        (fun type => typeMembers env.schema.kind depth ((type.report env.schema).shown
          (showsDeprecated env.schema env.variableValues given)))
        (some env.schema.reachable)) := by
  apply answers_list .schema hb (fun type => .type (.named type.name false)) typeType rfl rfl
  · exact congrArg Value.list (List.map_map ..)
  · intro type hm
    exact ⟨rfl, executeSelections_type hb hs (Schema.get?_of_mem_reachable hm) given hd⟩

theorem answers_queryType : env.Answers (fuel + 1) schemaType Subject.schema.value
    (select "queryType" [] nameSelections)
    ("queryType", .object (nameMembers env.schema.query.name)) := by
  have hr : env.schema.query.name ∈ env.schema.types.names :=
    Table.mem_names_iff.mpr ⟨_, hb.get?_query⟩
  exact answers_object .schema hb (.type (.named env.schema.query.name false)) rfl rfl rfl
    (executeSelections_named hs hr fuel)

theorem answers_mutationType : env.Answers (fuel + 1) schemaType Subject.schema.value
    (select "mutationType" [] nameSelections)
    ("mutationType", objectJson nameMembers (env.schema.mutation.map (·.name))) := by
  have hresolve : ∀ info : ResolveInfo, info.schema = env.schema →
      info.field.name = "mutationType" → Subject.schema.resolve info =
        .ofOption (fun type => typeNamed type.name) env.schema.mutation := by
    intro info hi hn
    simp only [Subject.resolve, resolveSchema, hn, hi]
  cases hm : env.schema.mutation with
  | none =>
    apply answers_subject .schema rfl
    rw [hresolve _ rfl rfl, hm]
    exact complete_null rfl
  | some type =>
    have hr : type.name ∈ env.schema.types.names :=
      Table.mem_names_iff.mpr ⟨_, hb.get?_mutation hm⟩
    apply answers_object .schema hb (.type (.named type.name false)) rfl rfl
    · rw [hresolve _ rfl rfl, hm]
      rfl
    · exact executeSelections_named hs hr fuel

include hbool

theorem answers_directives (hd : depth ≤ fuel) :
    env.Answers (fuel + 3) schemaType Subject.schema.value
      (select "directives" [] (directiveSelections depth)) ("directives", listJson
        (directiveMembers env.schema.kind depth)
        (some (env.schema.directives.entries.map (·.report)))) := by
  apply answers_list .schema hb .directive directiveType rfl rfl rfl
  intro directive hm
  obtain ⟨definition, hdefinition, rfl⟩ := List.mem_map.mp hm
  have hr := hb.registered_directive hdefinition
  exact ⟨rfl, executeSelections_directive hb hs hbool hr hd⟩

/-- The schema as a whole answers with its report. -/
theorem executeSelections_schema (given : Option Literal) (hd : depth ≤ fuel) :
    env.executeSelections (fuel + 5) schemaType Subject.schema.value
        (schemaSelections given depth) =
      pure ((env.schema.report.shown (showsDeprecated env.schema env.variableValues
        given)).members env.schema.kind depth) := by
  -- The types are answered as they are reached, each with what is shown of it.
  have hreport : (env.schema.report.shown (showsDeprecated env.schema env.variableValues
      given)).members env.schema.kind depth = [
        ("types", listJson (fun type => typeMembers env.schema.kind depth
          ((type.report env.schema).shown (showsDeprecated env.schema env.variableValues given)))
          (some env.schema.reachable)),
        ("queryType", .object (nameMembers env.schema.query.name)),
        ("mutationType", objectJson nameMembers (env.schema.mutation.map (·.name))),
        ("directives", listJson (directiveMembers env.schema.kind depth)
          (some (env.schema.directives.entries.map (·.report))))] := by
    simp [SchemaReport.members, SchemaReport.shown, Schema.report, listJson]
  rw [hreport]
  exact executeSelections_of_answers
    (.cons (answers_types hb hs given hd) <| .cons (answers_queryType hb hs) <|
      .cons (answers_mutationType hb hs) <|
      .cons (answers_directives hb hs hbool (Nat.le_succ_of_le hd)) .nil)
    (by simp [Entries.keys])

theorem executeSelections_reporting (hi : env.introspection = true) (given : Option Literal)
    (hd : depth ≤ fuel) (source : Value) :
    env.executeSelections (fuel + 6) env.schema.query source
        [select "__schema" [] (schemaSelections given depth)] =
      pure [("__schema", .object ((env.schema.report.shown (showsDeprecated env.schema
        env.variableValues given)).members env.schema.kind depth))] := by
  have hf : env.schema.field? env.schema.query "__schema" = some .schema := by
    simp [Schema.field?]
  apply executeSelections_single rfl hf
  · simp only [resolve, hi, if_true]
    rfl
  · apply complete_object hb.get?_schemaType rfl
    exact executeSelections_schema hb hs hbool given hd

end Environment

end GraphQL
