import Mathlib.Data.List.Basic
import GraphQL.Introspection.Resolution
import GraphQL.Json

/-!
# `GraphQL/Proofs/Introspection/Report.lean` — what a schema says of itself, and how it is read

`Schema.report` is all that introspection can tell of a schema, as plain data: the reachable types
with their parts, the root types and the directives. It is put together from the definitions alone,
kind by kind, and not from what resolvers hand out. What a kind of type does not have is absent from
the description of such a type, which is not the same as an empty list. That the fields of a type
resolve to what the report has there is `resolveNamedType_fields` and its siblings.

The answer to an introspection query says the same in JSON (`SchemaReport.members`), and
`readSchema` takes it back out of the answer. A reference to a type is told from the outside in, by
kinds and the types inside, as deep as the query asks; it is read back if it is not nested deeper
than that (`readRef_members`). Everything else is read as it is told, so `readSchema_members` needs
nothing but a query that is deep enough for all references of the schema.
-/

set_option autoImplicit false

namespace GraphQL

namespace Introspection

/-! ## 1. Reports -/

/-- A type, as introspection describes it. What a kind of type does not have is absent. -/
structure TypeDescription where
  kind : TypeKind
  name : Name
  description : Option String
  fields : Option (List FieldDescription) := none
  interfaces : Option (List Name) := none
  possibleTypes : Option (List Name) := none
  enumValues : Option (List EnumValueDescription) := none
  inputFields : Option (List InputDescription) := none
  deriving DecidableEq, Repr

/-- A schema, as introspection describes it. -/
structure SchemaReport where
  types : List TypeDescription
  queryType : Name
  mutationType : Option Name
  directives : List DirectiveDescription
  deriving DecidableEq, Repr

/-- The same type without its deprecated fields and enum values. -/
def TypeDescription.undeprecated (type : TypeDescription) : TypeDescription :=
  { type with
    fields := type.fields.map (·.filter (·.deprecation.isNone))
    enumValues := type.enumValues.map (·.filter (·.deprecation.isNone)) }

/-- The same schema without deprecated fields and enum values. -/
def SchemaReport.undeprecated (report : SchemaReport) : SchemaReport :=
  { report with types := report.types.map (·.undeprecated) }

/-- The type as it is told to a client that asks for deprecated entries, or does not. -/
def TypeDescription.shown (deprecated : Bool) (type : TypeDescription) : TypeDescription :=
  { type with
    fields := type.fields.map (·.filter fun field => deprecated || field.deprecation.isNone)
    enumValues :=
      type.enumValues.map (·.filter fun value => deprecated || value.deprecation.isNone) }

def SchemaReport.shown (deprecated : Bool) (report : SchemaReport) : SchemaReport :=
  { report with types := report.types.map (·.shown deprecated) }

@[simp] theorem SchemaReport.shown_true (report : SchemaReport) : report.shown true = report := by
  simp [shown, TypeDescription.shown]

@[simp] theorem SchemaReport.shown_false (report : SchemaReport) :
    report.shown false = report.undeprecated := by
  simp [shown, TypeDescription.shown, undeprecated, TypeDescription.undeprecated]

end Introspection

open Introspection

/-- What introspection tells of an argument or input field; its default value as JSON text. -/
def InputValueDefinition.report (input : InputValueDefinition) : InputDescription where
  name := input.name
  description := input.description
  type := input.type
  default := input.default.map (·.toJson.text)

def FieldDefinition.report (field : FieldDefinition) : FieldDescription where
  name := field.name
  description := field.description
  arguments := field.arguments.map (·.report)
  type := field.type
  deprecation := field.deprecation

def EnumValueDefinition.report (value : EnumValueDefinition) : EnumValueDescription where
  name := value.name
  description := value.description
  deprecation := value.deprecation

def DirectiveDefinition.report (directive : DirectiveDefinition) : DirectiveDescription where
  name := directive.name
  description := directive.description
  arguments := directive.arguments.map (·.report)
  onOperation := directive.onOperation
  onFragment := directive.onFragment
  onField := directive.onField

/-- What introspection tells of a type, kind by kind. -/
def TypeDefinition.report (schema : Schema) : TypeDefinition → TypeDescription
  | .scalar type => { kind := .scalar, name := type.name, description := type.description }
  | .object type => {
      kind := .object
      name := type.name
      description := type.description
      fields := some (type.fields.entries.map (·.report))
      interfaces := some type.interfaces }
  | .interface type => {
      kind := .interface
      name := type.name
      description := type.description
      fields := some (type.fields.entries.map (·.report))
      possibleTypes := some (schema.possibleTypes type.name) }
  | .union type => {
      kind := .union
      name := type.name
      description := type.description
      possibleTypes := some (schema.possibleTypes type.name) }
  | .enum type => {
      kind := .enum
      name := type.name
      description := type.description
      enumValues := some (type.values.entries.map (·.report)) }
  | .input type => {
      kind := .inputObject
      name := type.name
      description := type.description
      inputFields := some (type.fields.entries.map (·.report)) }

theorem TypeDefinition.name_report (schema : Schema) (type : TypeDefinition) :
    (type.report schema).name = type.name := by
  cases type <;> rfl

/-- What introspection tells of a schema. -/
def Schema.report (schema : Schema) : SchemaReport where
  types := schema.reachable.map (·.report schema)
  queryType := schema.query.name
  mutationType := schema.mutation.map (·.name)
  directives := schema.directives.entries.map (·.report)

/-! ## 2. Nesting -/

namespace TypeRef

/-- A reference that is a list or excludes null, as its kind and the reference inside. -/
def inside? : TypeRef → Option (TypeKind × TypeRef)
  | .named _ false => none
  | .named name true => some (.nonNull, .named name false)
  | .list item false => some (.list, item)
  | .list item true => some (.nonNull, .list item false)

/-- How many references are inside each other. -/
def nesting : TypeRef → Nat
  | .named _ false => 0
  | .named _ true => 1
  | .list item false => item.nesting + 1
  | .list item true => item.nesting + 2

/-- The same type, with null excluded. -/
def nonNull : TypeRef → TypeRef
  | .named name _ => .named name true
  | .list item _ => .list item true

theorem innermost_inside {ref inside : TypeRef} {kind : TypeKind}
    (h : ref.inside? = some (kind, inside)) : inside.innermost = ref.innermost := by
  unfold inside? at h
  split at h <;> cases h <;> rfl

end TypeRef

namespace Introspection

/-- The references to types in the description of a type. -/
def FieldDescription.references (field : FieldDescription) : List TypeRef :=
  field.type :: field.arguments.map (·.type)

def TypeDescription.references (type : TypeDescription) : List TypeRef :=
  (type.fields.getD []).flatMap (·.references) ++ (type.inputFields.getD []).map (·.type)

def DirectiveDescription.references (directive : DirectiveDescription) : List TypeRef :=
  directive.arguments.map (·.type)

def SchemaReport.references (report : SchemaReport) : List TypeRef :=
  report.types.flatMap (·.references) ++ report.directives.flatMap (·.references)

/-- How deep the references of a schema are nested. -/
def SchemaReport.nesting (report : SchemaReport) : Nat :=
  (report.references.map (·.nesting)).foldr max 0

theorem SchemaReport.nesting_le_iff {report : SchemaReport} {depth : Nat} :
    report.nesting ≤ depth ↔ ∀ ref ∈ report.references, ref.nesting ≤ depth := by
  unfold nesting
  induction report.references with
  | nil => simp
  | cons ref rest ih =>
    rw [List.map_cons, List.foldr_cons, Nat.max_le, ih, List.forall_mem_cons]

theorem TypeDescription.references_shown (deprecated : Bool) (type : TypeDescription) :
    (type.shown deprecated).references ⊆ type.references := by
  intro ref hm
  rw [references, List.mem_append, List.mem_flatMap] at hm ⊢
  refine hm.imp_left ?_
  rintro ⟨field, hfield, href⟩
  refine ⟨field, ?_, href⟩
  rw [shown] at hfield
  cases hfields : type.fields with
  | none => simp [hfields] at hfield
  | some fields =>
    rw [hfields] at hfield
    exact List.mem_of_mem_filter hfield

theorem SchemaReport.nesting_shown (deprecated : Bool) (report : SchemaReport) :
    (report.shown deprecated).nesting ≤ report.nesting := by
  have hdepth : ∀ ref ∈ report.references, ref.nesting ≤ report.nesting :=
    nesting_le_iff.mp (Nat.le_refl _)
  refine nesting_le_iff.mpr fun ref hm => hdepth ref ?_
  rw [references, List.mem_append, List.mem_flatMap] at hm ⊢
  refine hm.imp_left ?_
  rintro ⟨type, htype, href⟩
  obtain ⟨type, hm, rfl⟩ := List.mem_map.mp htype
  exact ⟨type, hm, type.references_shown deprecated href⟩

end Introspection

/-! ## 3. What types and references resolve to -/

section Resolve

variable {info : ResolveInfo} {type : TypeDefinition}

/-- A reference with another inside has its kind, that reference, and nothing else. -/
theorem resolveType_wrapper {ref inside : TypeRef} {wrapper : TypeKind}
    (hi : ref.inside? = some (wrapper, inside)) :
    resolveType info ref =
      match info.field.name with
      | "kind" => wrapper.value
      | "ofType" => (Subject.type inside).value
      | _ => .null := by
  unfold TypeRef.inside? at hi
  split at hi <;> cases hi <;> rfl

/-- A reference with no other inside is a type. -/
theorem resolveType_named (ht : info.schema.types.get? type.name = some type) :
    resolveType info (.named type.name false) = resolveNamedType info type := by
  simp only [resolveType, ht]

theorem resolveNamedType_kind (hn : info.field.name = "kind") :
    resolveNamedType info type = (type.report info.schema).kind.value := by
  simp only [resolveNamedType, hn]
  cases type <;> rfl

theorem resolveNamedType_name (hn : info.field.name = "name") :
    resolveNamedType info type = .string (type.report info.schema).name := by
  simp only [resolveNamedType, hn]
  cases type <;> rfl

theorem resolveNamedType_description (hn : info.field.name = "description") :
    resolveNamedType info type = .ofText? (type.report info.schema).description := by
  simp only [resolveNamedType, hn]
  cases type <;> rfl

theorem resolveNamedType_fields (hn : info.field.name = "fields") :
    resolveNamedType info type = .ofOption (subjects Subject.field)
      ((type.report info.schema).shown (asksForDeprecated info)).fields := by
  have hfilter : ∀ fields : Table FieldDefinition,
      subjects Subject.field ((fields.entries.filter fun field =>
          asksForDeprecated info || field.deprecation.isNone).map (·.describe)) =
        subjects Subject.field ((fields.entries.map (·.report)).filter fun field =>
          asksForDeprecated info || field.deprecation.isNone) := by
    intro fields
    rw [List.filter_map]
    rfl
  simp only [resolveNamedType, hn]
  cases type with
  | object type => exact hfilter type.fields
  | interface type => exact hfilter type.fields
  | _ => rfl

theorem resolveNamedType_interfaces (hn : info.field.name = "interfaces") :
    resolveNamedType info type = .ofOption typesNamed (type.report info.schema).interfaces := by
  simp only [resolveNamedType, hn]
  cases type <;> rfl

theorem resolveNamedType_possibleTypes (hn : info.field.name = "possibleTypes") :
    resolveNamedType info type = .ofOption typesNamed (type.report info.schema).possibleTypes := by
  simp only [resolveNamedType, hn]
  cases type <;> rfl

theorem resolveNamedType_enumValues (hn : info.field.name = "enumValues") :
    resolveNamedType info type = .ofOption (subjects Subject.enumValue)
      ((type.report info.schema).shown (asksForDeprecated info)).enumValues := by
  simp only [resolveNamedType, hn]
  cases type with
  | enum type =>
    simp only [TypeDefinition.report, TypeDescription.shown, Option.map_some, List.filter_map]
    rfl
  | _ => rfl

theorem resolveNamedType_inputFields (hn : info.field.name = "inputFields") :
    resolveNamedType info type =
      .ofOption (subjects Subject.input) (type.report info.schema).inputFields := by
  simp only [resolveNamedType, hn]
  cases type <;> rfl

end Resolve

/-! ## 4. Answers -/

namespace Introspection

/-- A text, or null where there is none. -/
def textJson : Option String → Json
  | some text => .string text
  | none => .null

/-- An object, or null where there is none. -/
def objectJson {α : Type} (members : α → Json.Members) : Option α → Json
  | some a => .object (members a)
  | none => .null

/-- A list of objects, or null where there is none. -/
def listJson {α : Type} (members : α → Json.Members) : Option (List α) → Json
  | some items => .array (items.map fun item => .object (members item))
  | none => .null

def nameMembers (name : Name) : Json.Members :=
  [("name", .string name)]

section Answers

variable (kind : Name → TypeKind)

/-- A reference, as deep as it is asked for, where `kind` is the kind of the type of a name. -/
def refMembers : Nat → TypeRef → Json.Members
  | 0, ref =>
    match ref.inside? with
    | some (wrapper, _) => [("kind", .string wrapper.name), ("name", .null)]
    | none => [("kind", .string (kind ref.innermost).name), ("name", .string ref.innermost)]
  | depth + 1, ref =>
    match ref.inside? with
    | some (wrapper, inside) => [("kind", .string wrapper.name), ("name", .null),
        ("ofType", .object (refMembers depth inside))]
    | none => [("kind", .string (kind ref.innermost).name), ("name", .string ref.innermost),
        ("ofType", .null)]

variable (depth : Nat)

def inputMembers (input : InputDescription) : Json.Members := [
  ("name", .string input.name),
  ("description", textJson input.description),
  ("type", .object (refMembers kind depth input.type)),
  ("defaultValue", textJson input.default)]

def fieldMembers (field : FieldDescription) : Json.Members := [
  ("name", .string field.name),
  ("description", textJson field.description),
  ("args", listJson (inputMembers kind depth) (some field.arguments)),
  ("type", .object (refMembers kind depth field.type)),
  ("deprecationReason", textJson field.deprecation)]

def enumValueMembers (value : EnumValueDescription) : Json.Members := [
  ("name", .string value.name),
  ("description", textJson value.description),
  ("deprecationReason", textJson value.deprecation)]

def typeMembers (type : TypeDescription) : Json.Members := [
  ("kind", .string type.kind.name),
  ("name", .string type.name),
  ("description", textJson type.description),
  ("fields", listJson (fieldMembers kind depth) type.fields),
  ("interfaces", listJson nameMembers type.interfaces),
  ("possibleTypes", listJson nameMembers type.possibleTypes),
  ("enumValues", listJson enumValueMembers type.enumValues),
  ("inputFields", listJson (inputMembers kind depth) type.inputFields)]

def directiveMembers (directive : DirectiveDescription) : Json.Members := [
  ("name", .string directive.name),
  ("description", textJson directive.description),
  ("args", listJson (inputMembers kind depth) (some directive.arguments)),
  ("onOperation", .boolean directive.onOperation),
  ("onFragment", .boolean directive.onFragment),
  ("onField", .boolean directive.onField)]

/-- What the fields of `__schema` answer. -/
def SchemaReport.members (report : SchemaReport) : Json.Members := [
  ("types", listJson (typeMembers kind depth) (some report.types)),
  ("queryType", .object (nameMembers report.queryType)),
  ("mutationType", objectJson nameMembers report.mutationType),
  ("directives", listJson (directiveMembers kind depth) (some report.directives))]

end Answers

/-! ## 5. Reading answers -/

/-- The member of a name, if the value is an object that has it. -/
def member? (name : String) : Json → Option Json
  | .object members => Entries.get? members name
  | _ => none

def readText : Json → Option String
  | .string text => some text
  | _ => none

def readBoolean : Json → Option Bool
  | .boolean b => some b
  | _ => none

/-- Reads what may be null. -/
def readMaybe {α : Type} (read : Json → Option α) : Json → Option (Option α)
  | .null => some none
  | json => (read json).map some

def readList {α : Type} (read : Json → Option α) : Json → Option (List α)
  | .array items => items.mapM read
  | _ => none

/-- Reads the member of a name. -/
def readMember {α : Type} (name : String) (read : Json → Option α) (json : Json) : Option α :=
  (member? name json).bind read

def readName : Json → Option Name :=
  readMember "name" readText

def readKind (json : Json) : Option TypeKind := do
  let text ← readText json
  TypeKind.all.find? (·.name = text)

mutual

/-- Reads a reference from the outside in. -/
def readRef : Json → Option TypeRef
  | .object members => do
    match ← readMember "kind" readKind (.object members) with
    | .list => return .list (← (Entries.get? (readRefs members) "ofType").join) false
    | .nonNull => return (← (Entries.get? (readRefs members) "ofType").join).nonNull
    | _ => return .named (← readName (.object members)) false
  | _ => none

/-- The members of an object, each read as a reference: the recursion is on the members, and only
`ofType` is looked at. -/
def readRefs : List (String × Json) → Entries (Option TypeRef)
  | [] => []
  | (key, json) :: rest => (key, readRef json) :: readRefs rest

end

def readInput (json : Json) : Option InputDescription := do
  return {
    name := ← readName json
    description := ← readMember "description" (readMaybe readText) json
    type := ← readMember "type" readRef json
    default := ← readMember "defaultValue" (readMaybe readText) json }

def readField (json : Json) : Option FieldDescription := do
  return {
    name := ← readName json
    description := ← readMember "description" (readMaybe readText) json
    arguments := ← readMember "args" (readList readInput) json
    type := ← readMember "type" readRef json
    deprecation := ← readMember "deprecationReason" (readMaybe readText) json }

def readEnumValue (json : Json) : Option EnumValueDescription := do
  return {
    name := ← readName json
    description := ← readMember "description" (readMaybe readText) json
    deprecation := ← readMember "deprecationReason" (readMaybe readText) json }

def readType (json : Json) : Option TypeDescription := do
  return {
    kind := ← readMember "kind" readKind json
    name := ← readName json
    description := ← readMember "description" (readMaybe readText) json
    fields := ← readMember "fields" (readMaybe (readList readField)) json
    interfaces := ← readMember "interfaces" (readMaybe (readList readName)) json
    possibleTypes := ← readMember "possibleTypes" (readMaybe (readList readName)) json
    enumValues := ← readMember "enumValues" (readMaybe (readList readEnumValue)) json
    inputFields := ← readMember "inputFields" (readMaybe (readList readInput)) json }

def readDirective (json : Json) : Option DirectiveDescription := do
  return {
    name := ← readName json
    description := ← readMember "description" (readMaybe readText) json
    arguments := ← readMember "args" (readList readInput) json
    onOperation := ← readMember "onOperation" readBoolean json
    onFragment := ← readMember "onFragment" readBoolean json
    onField := ← readMember "onField" readBoolean json }

/-- Reads a schema from the value of `__schema`. -/
def readSchema (json : Json) : Option SchemaReport := do
  return {
    types := ← readMember "types" (readList readType) json
    queryType := ← readMember "queryType" readName json
    mutationType := ← readMember "mutationType" (readMaybe readName) json
    directives := ← readMember "directives" (readList readDirective) json }

/-! ## 6. What is told is read -/

section Members

variable {α : Type} {name key : String} {read : Json → Option α} {json : Json}
variable {rest : Json.Members}

@[simp] theorem readMember_self :
    readMember name read (.object ((name, json) :: rest)) = read json := by
  simp [readMember, member?, Entries.get?]

@[simp] theorem readMember_of_ne (h : key ≠ name) :
    readMember name read (.object ((key, json) :: rest)) = readMember name read (.object rest) := by
  simp [readMember, member?, Entries.get?, h]

end Members

@[simp] theorem readMaybe_text (text : Option String) :
    readMaybe readText (textJson text) = some text := by
  cases text <;> rfl

@[simp] theorem readKind_name (kind : TypeKind) : readKind (.string kind.name) = some kind := by
  cases kind <;> rfl

theorem readName_object (members : Json.Members) :
    readName (.object members) = readMember "name" readText (.object members) := rfl

theorem readName_members (name : Name) : readName (.object (nameMembers name)) = some name := rfl

theorem readList_list {α : Type} {read : Json → Option α} {members : α → Json.Members}
    {items : List α} (h : ∀ item ∈ items, read (.object (members item)) = some item) :
    readList read (listJson members (some items)) = some items := by
  rw [listJson, readList]
  induction items with
  | nil => rfl
  | cons item rest ih =>
    rw [List.forall_mem_cons] at h
    simp [List.mapM_cons, h.1, ih h.2]

theorem readMaybe_list {α : Type} {read : Json → Option α} {members : α → Json.Members}
    {items : Option (List α)}
    (h : ∀ item ∈ items.getD [], read (.object (members item)) = some item) :
    readMaybe (readList read) (listJson members items) = some items := by
  cases items with
  | none => rfl
  | some items => exact congrArg (Option.map some) (readList_list h)

theorem readRef_list {json : Json} {item : TypeRef} (h : readRef json = some item) :
    readRef (.object [("kind", .string TypeKind.list.name), ("name", .null), ("ofType", json)]) =
      some (.list item false) := by
  simp [readRef, readRefs, Entries.get?, h]

theorem readRef_nonNull {json : Json} {inside : TypeRef} (h : readRef json = some inside) :
    readRef (.object [("kind", .string TypeKind.nonNull.name), ("name", .null),
      ("ofType", json)]) = some inside.nonNull := by
  simp [readRef, readRefs, Entries.get?, h]

section Reading

variable {kind : Name → TypeKind} (hk : ∀ name, kind name ≠ .list ∧ kind name ≠ .nonNull)
variable {depth : Nat}

include hk

theorem readRef_named {name : Name} {members : Json.Members}
    (hkind : Entries.get? members "kind" = some (.string (kind name).name))
    (hname : Entries.get? members "name" = some (.string name)) :
    readRef (.object members) = some (.named name false) := by
  obtain ⟨hlist, hnonNull⟩ := hk name
  simp [readRef, readName, readMember, member?, hkind, hname, readText]

/-- A reference that is not nested deeper than it is told is read back. -/
theorem readRef_members {ref : TypeRef} (hd : ref.nesting ≤ depth) :
    readRef (.object (refMembers kind depth ref)) = some ref := by
  -- A type name that excludes null has the same name inside, so the induction is on how deep the
  -- reference is told and not on the reference.
  induction depth generalizing ref with
  | zero =>
    match ref with
    | .named name false => exact readRef_named hk rfl rfl
    | .named name true => cases hd
    | .list item false => cases hd
    | .list item true => cases hd
  | succ depth ih =>
    match ref with
    | .named name false => exact readRef_named hk rfl rfl
    | .named name true =>
      have hinside : TypeRef.nesting (.named name false) ≤ depth := Nat.zero_le depth
      rw [refMembers, TypeRef.inside?, readRef_nonNull (ih hinside)]
      rfl
    | .list item false =>
      have hinside : item.nesting ≤ depth := Nat.le_of_succ_le_succ hd
      rw [refMembers, TypeRef.inside?, readRef_list (ih hinside)]
    | .list item true =>
      have hinside : TypeRef.nesting (.list item false) ≤ depth := Nat.le_of_succ_le_succ hd
      rw [refMembers, TypeRef.inside?, readRef_nonNull (ih hinside)]
      rfl

theorem readInput_members {input : InputDescription} (hd : input.type.nesting ≤ depth) :
    readInput (.object (inputMembers kind depth input)) = some input := by
  simp [readInput, inputMembers, readName_object, readText, readRef_members hk hd]

theorem readField_members {field : FieldDescription}
    (hd : ∀ ref ∈ field.references, ref.nesting ≤ depth) :
    readField (.object (fieldMembers kind depth field)) = some field := by
  rw [FieldDescription.references, List.forall_mem_cons] at hd
  have hargs : readList readInput (listJson (inputMembers kind depth) (some field.arguments)) =
      some field.arguments :=
    readList_list fun input hm => readInput_members hk (hd.2 _ (List.mem_map_of_mem hm))
  simp [readField, fieldMembers, readName_object, readText, readRef_members hk hd.1, hargs]

omit hk in
theorem readEnumValue_members (value : EnumValueDescription) :
    readEnumValue (.object (enumValueMembers value)) = some value := by
  simp [readEnumValue, enumValueMembers, readName_object, readText]

theorem readType_members {type : TypeDescription}
    (hd : ∀ ref ∈ type.references, ref.nesting ≤ depth) :
    readType (.object (typeMembers kind depth type)) = some type := by
  rw [TypeDescription.references, List.forall_mem_append] at hd
  have hfields : readMaybe (readList readField)
      (listJson (fieldMembers kind depth) type.fields) = some type.fields :=
    readMaybe_list fun field hm => readField_members hk fun ref href =>
      hd.1 ref (List.mem_flatMap.mpr ⟨field, hm, href⟩)
  have hinputs : readMaybe (readList readInput)
      (listJson (inputMembers kind depth) type.inputFields) = some type.inputFields :=
    readMaybe_list fun input hm => readInput_members hk (hd.2 _ (List.mem_map_of_mem hm))
  have hnames : ∀ names, readMaybe (readList readName) (listJson nameMembers names) = some names :=
    fun names => readMaybe_list fun name _ => readName_members name
  have hvalues : readMaybe (readList readEnumValue)
      (listJson enumValueMembers type.enumValues) = some type.enumValues :=
    readMaybe_list fun value _ => readEnumValue_members value
  simp [readType, typeMembers, readName_object, readText, hfields, hinputs, hnames, hvalues]

theorem readDirective_members {directive : DirectiveDescription}
    (hd : ∀ ref ∈ directive.references, ref.nesting ≤ depth) :
    readDirective (.object (directiveMembers kind depth directive)) = some directive := by
  have hargs : readList readInput (listJson (inputMembers kind depth) (some directive.arguments)) =
      some directive.arguments :=
    readList_list fun input hm => readInput_members hk (hd _ (List.mem_map_of_mem hm))
  simp [readDirective, directiveMembers, readName_object, readText, readBoolean, hargs]

/-- An answer that goes deep enough is read back as the report that it tells. -/
theorem readSchema_members {report : SchemaReport} (hd : report.nesting ≤ depth) :
    readSchema (.object (report.members kind depth)) = some report := by
  have hrefs : ∀ ref ∈ report.references, ref.nesting ≤ depth :=
    SchemaReport.nesting_le_iff.mp hd
  rw [SchemaReport.references, List.forall_mem_append] at hrefs
  have htypes : readList readType (listJson (typeMembers kind depth) (some report.types)) =
      some report.types :=
    readList_list fun type hm => readType_members hk fun ref href =>
      hrefs.1 ref (List.mem_flatMap.mpr ⟨type, hm, href⟩)
  have hdirectives : readList readDirective
      (listJson (directiveMembers kind depth) (some report.directives)) = some report.directives :=
    readList_list fun directive hm => readDirective_members hk fun ref href =>
      hrefs.2 ref (List.mem_flatMap.mpr ⟨directive, hm, href⟩)
  have hquery : readName (.object (nameMembers report.queryType)) = some report.queryType :=
    readName_members report.queryType
  have hmutation : readMaybe readName (objectJson nameMembers report.mutationType) =
      some report.mutationType := by
    cases report.mutationType <;> rfl
  simp [readSchema, SchemaReport.members, htypes, hquery, hmutation, hdirectives]

end Reading

end Introspection

end GraphQL
