import GraphQL.Proofs.Input.Reading
import GraphQL.Proofs.Schema.Registration

/-!
# `GraphQL/Proofs/Schema/Undescribed.lean` — schemas without their descriptions

Descriptions, deprecation reasons and the places at which a directive may stand are for
introspection alone. `Schema.undescribed` takes them all out of a schema, and what is left is what
everything else may depend on: two schemas differ in nothing but descriptions if they are the same
without them.

Taking them out keeps names, types and defaults, so it commutes with whatever only looks at these:
looking up a name, possible types, the walk to the reachable types, and reading literals and
supplied values. Each of the lemmas below says so of one function, and they follow the order in
which the functions call each other.
-/

set_option autoImplicit false

namespace GraphQL

/-! ## 1. Definitions without descriptions -/

/-- The table with every entry changed, where a change leaves names alone. -/
def Table.map {α : Type} [Named α] (change : α → α)
    (hn : ∀ entry, Named.name (change entry) = Named.name entry) (table : Table α) : Table α where
  entries := table.entries.map change
  distinct := by
    rw [List.map_map]
    exact (List.map_congr_left fun entry _ => hn entry) ▸ table.distinct

def InputValueDefinition.undescribed (input : InputValueDefinition) : InputValueDefinition :=
  { input with description := none }

theorem InputValueDefinition.name_undescribed (input : InputValueDefinition) :
    Named.name input.undescribed = Named.name input := rfl

def FieldDefinition.undescribed (field : FieldDefinition) : FieldDefinition :=
  { field with
    description := none
    arguments := field.arguments.map (·.undescribed)
    deprecation := none }

theorem FieldDefinition.name_undescribed (field : FieldDefinition) :
    Named.name field.undescribed = Named.name field := rfl

def EnumValueDefinition.undescribed (value : EnumValueDefinition) : EnumValueDefinition :=
  { value with description := none, deprecation := none }

theorem EnumValueDefinition.name_undescribed (value : EnumValueDefinition) :
    Named.name value.undescribed = Named.name value := rfl

/-- A directive without its description and without the places at which it may stand. -/
def DirectiveDefinition.undescribed (directive : DirectiveDefinition) : DirectiveDefinition where
  name := directive.name
  arguments := directive.arguments.map (·.undescribed)

theorem DirectiveDefinition.name_undescribed (directive : DirectiveDefinition) :
    Named.name directive.undescribed = Named.name directive := rfl

def ObjectType.undescribed (type : ObjectType) : ObjectType :=
  { type with
    description := none
    fields := type.fields.map (·.undescribed) FieldDefinition.name_undescribed }

def InterfaceType.undescribed (type : InterfaceType) : InterfaceType :=
  { type with
    description := none
    fields := type.fields.map (·.undescribed) FieldDefinition.name_undescribed }

def EnumType.undescribed (type : EnumType) : EnumType :=
  { type with
    description := none
    values := type.values.map (·.undescribed) EnumValueDefinition.name_undescribed }

def InputObjectType.undescribed (type : InputObjectType) : InputObjectType :=
  { type with
    description := none
    fields := type.fields.map (·.undescribed) InputValueDefinition.name_undescribed }

def TypeDefinition.undescribed : TypeDefinition → TypeDefinition
  | .scalar type => .scalar { type with description := none }
  | .object type => .object type.undescribed
  | .interface type => .interface type.undescribed
  | .union type => .union { type with description := none }
  | .enum type => .enum type.undescribed
  | .input type => .input type.undescribed

@[simp] theorem TypeDefinition.name_undescribed (type : TypeDefinition) :
    type.undescribed.name = type.name := by
  cases type <;> rfl

def Schema.undescribed (schema : Schema) : Schema where
  types := schema.types.map (·.undescribed) TypeDefinition.name_undescribed
  directives := schema.directives.map (·.undescribed) DirectiveDefinition.name_undescribed
  query := schema.query.undescribed
  mutation := schema.mutation.map (·.undescribed)

/-! ## 2. Names -/

section Table

variable {α : Type} [Named α] {change : α → α}
variable (hn : ∀ entry, Named.name (change entry) = Named.name entry) (table : Table α)

theorem Table.entries_map : (table.map change hn).entries = table.entries.map change := rfl

theorem Table.get?_map (name : Name) :
    (table.map change hn).get? name = (table.get? name).map change := by
  rw [get?, get?, entries_map, List.find?_map]
  simp only [Function.comp_def, hn]

end Table

variable {schema : Schema}

@[simp] theorem Schema.get?_types_undescribed (name : Name) :
    schema.undescribed.types.get? name = (schema.types.get? name).map (·.undescribed) :=
  Table.get?_map TypeDefinition.name_undescribed schema.types name

@[simp] theorem Schema.get?_directives_undescribed (name : Name) :
    schema.undescribed.directives.get? name =
      (schema.directives.get? name).map (·.undescribed) :=
  Table.get?_map DirectiveDefinition.name_undescribed schema.directives name

theorem ObjectType.get?_fields_undescribed (type : ObjectType) (name : Name) :
    type.undescribed.fields.get? name = (type.fields.get? name).map (·.undescribed) :=
  Table.get?_map FieldDefinition.name_undescribed type.fields name

@[simp] theorem Schema.object?_undescribed (name : Name) :
    schema.undescribed.object? name = (schema.object? name).map (·.undescribed) := by
  rw [object?, object?, get?_types_undescribed]
  cases schema.types.get? name with
  | none => rfl
  | some type => cases type <;> rfl

/-! ## 3. Reachable types -/

/-- The names that a type leads to are in its interfaces, its members and the types of its fields
and arguments, and none of these has gone. -/
theorem Table.fieldEdges_undescribed (fields : Table FieldDefinition) :
    (fields.map (·.undescribed) FieldDefinition.name_undescribed).fieldEdges =
      fields.fieldEdges := by
  have hedges : ∀ field : FieldDefinition,
      field.undescribed.arguments.map (·.type.innermost) ++
          [field.undescribed.type.innermost] =
        field.arguments.map (·.type.innermost) ++ [field.type.innermost] := by
    intro field
    rw [FieldDefinition.undescribed, List.map_map]
    rfl
  rw [fieldEdges, fieldEdges, entries_map, List.flatMap_map]
  exact congrArg List.flatten (List.map_congr_left fun field _ => hedges field)

theorem TypeDefinition.possibleIn_undescribed (abstractType : Name) (type : TypeDefinition) :
    type.undescribed.possibleIn abstractType = type.possibleIn abstractType := by
  cases type <;> rfl

@[simp] theorem Schema.possibleTypes_undescribed (abstractType : Name) :
    schema.undescribed.possibleTypes abstractType = schema.possibleTypes abstractType := by
  rw [possibleTypes, possibleTypes, Table.possibleTypes, Table.possibleTypes, undescribed,
    Table.entries_map, List.flatMap_map]
  exact congrArg List.flatten
    (List.map_congr_left fun type _ => type.possibleIn_undescribed abstractType)

theorem TypeDefinition.edges_undescribed (type : TypeDefinition) :
    type.undescribed.edges schema.undescribed.types = type.edges schema.types := by
  have hpossible : ∀ name, schema.undescribed.types.possibleTypes name =
      schema.types.possibleTypes name := fun name => Schema.possibleTypes_undescribed name
  cases type with
  | object type =>
    exact congrArg (type.interfaces ++ ·) (Table.fieldEdges_undescribed type.fields)
  | interface type =>
    simp only [undescribed, edges, InterfaceType.undescribed, hpossible,
      Table.fieldEdges_undescribed]
  | union type => simp only [undescribed, edges, hpossible]
  | input type =>
    simp only [undescribed, edges, InputObjectType.undescribed, Table.entries_map, List.map_map]
    rfl
  | scalar type => rfl
  | enum type => rfl

theorem any_name_undescribed (found : List TypeDefinition) (name : Name) :
    (found.map (·.undescribed)).any (fun other => other.name = name) =
      found.any fun other => other.name = name := by
  simp [List.any_map, Function.comp_def]

theorem Table.visit_undescribed (depth : Nat) (found : List TypeDefinition) (name : Name) :
    schema.undescribed.types.visit depth (found.map (·.undescribed)) name =
      (schema.types.visit depth found name).map (·.undescribed) := by
  induction depth generalizing found name with
  | zero => rfl
  | succ depth ih =>
    rw [visit, visit, Schema.get?_types_undescribed]
    cases schema.types.get? name with
    | none => rfl
    | some type =>
      simp only [Option.map_some, any_name_undescribed, TypeDefinition.edges_undescribed]
      split
      · rfl
      · rw [← List.foldl_hom _ ih, List.map_append]
        rfl

theorem Table.include_undescribed (found : List TypeDefinition) (name : Name) :
    schema.undescribed.types.include (found.map (·.undescribed)) name =
      (schema.types.include found name).map (·.undescribed) := by
  unfold Table.include
  rw [Schema.get?_types_undescribed]
  cases schema.types.get? name with
  | none => rfl
  | some type =>
    simp only [Option.map_some, any_name_undescribed]
    split
    · rfl
    · rw [List.map_append]
      rfl

theorem Schema.rootNames_undescribed :
    rootNames schema.undescribed.query schema.undescribed.mutation =
      rootNames schema.query schema.mutation := by
  rw [rootNames, rootNames, undescribed, Option.map_map]
  rfl

theorem Schema.reachable_undescribed :
    schema.undescribed.reachable = schema.reachable.map (·.undescribed) := by
  have hlength : schema.undescribed.types.entries.length = schema.types.entries.length :=
    List.length_map _
  rw [reachable_eq, reachable_eq, rootNames_undescribed, Table.reachable, Table.reachable, hlength,
    ← List.foldl_hom _ Table.include_undescribed,
    ← List.foldl_hom _ (Table.visit_undescribed schema.types.entries.length)]
  rfl

@[simp] theorem Schema.get?_undescribed (name : Name) :
    schema.undescribed.get? name = (schema.get? name).map (·.undescribed) := by
  rw [get?, get?, reachable_undescribed, List.find?_map]
  simp only [Function.comp_def, TypeDefinition.name_undescribed]

/-! ## 4. Literals and supplied values -/

theorem EnumType.coerce_undescribed (type : EnumType) (value : Value) :
    type.undescribed.coerce value = type.coerce value := by
  rw [coerce, coerce, undescribed, Table.entries_map, List.find?_map, Option.map_map]
  rfl

theorem EnumType.coerceLiteral_undescribed (type : EnumType) (literal : Literal) :
    type.undescribed.coerceLiteral literal = type.coerceLiteral literal := by
  cases literal with
  | enum name =>
    rw [coerceLiteral, coerceLiteral, undescribed, Table.get?_map, Option.map_map]
    rfl
  | _ => rfl

theorem InputObjectType.assemble_undescribed (type : InputObjectType)
    (field : Name → TypeRef → Value) :
    type.undescribed.assemble (fun input => field input.name input.type) =
      type.assemble fun input => field input.name input.type := by
  rw [assemble, assemble, undescribed, Table.entries_map, List.map_map]
  rfl

namespace Schema

theorem coerceLeafLiteral_undescribed :
    schema.undescribed.coerceLeafLiteral = schema.coerceLeafLiteral := by
  funext literal name
  rw [coerceLeafLiteral, coerceLeafLiteral, get?_types_undescribed]
  cases schema.types.get? name with
  | none => rfl
  | some type =>
    cases type with
    | enum type => exact congrArg (·.getD .null) (type.coerceLiteral_undescribed literal)
    | _ => rfl

theorem isValidLeaf_undescribed : schema.undescribed.isValidLeaf = schema.isValidLeaf := by
  funext value name
  rw [isValidLeaf, isValidLeaf, get?_types_undescribed]
  cases schema.types.get? name with
  | none => rfl
  | some type =>
    cases type with
    | enum type => exact congrArg Option.isSome (type.coerce_undescribed value)
    | _ => rfl

theorem coerceLeaf_undescribed : schema.undescribed.coerceLeaf = schema.coerceLeaf := by
  funext value name
  rw [coerceLeaf, coerceLeaf, get?_types_undescribed]
  cases schema.types.get? name with
  | none => rfl
  | some type =>
    cases type with
    | enum type => exact congrArg (·.getD .null) (type.coerce_undescribed value)
    | _ => rfl

section Literal

variable (variableValues : Entries Value)

mutual

theorem coerceLiteral_undescribed (literal : Literal) (type : TypeRef) :
    schema.undescribed.coerceLiteral variableValues literal type =
      schema.coerceLiteral variableValues literal type := by
  match literal with
  | .object fields =>
    rw [coerceLiteral, coerceLiteral, coerceLiteralFields_undescribed fields]
    refine congrArg (TypeRef.promote · type) (funext fun name => ?_)
    rw [get?_types_undescribed, coerceLeafLiteral_undescribed]
    cases schema.types.get? name with
    | none => rfl
    | some found =>
      cases found with
      | input inputType =>
        exact inputType.assemble_undescribed fun name type =>
          match (schema.coerceLiteralFields variableValues fields).get? name with
          | some readAt => readAt type
          | none => .null
      | _ => rfl
  | .list items =>
    cases type with
    | named name required => simp [coerceLiteral, coerceLeafLiteral_undescribed]
    | list item required =>
      rw [coerceLiteral, coerceLiteral, coerceLiteralItems_undescribed items]
  | .null | .variable _ => simp [coerceLiteral]
  | .boolean _ | .int _ | .float _ | .string _ | .enum _ =>
    simp [coerceLiteral, coerceLeafLiteral_undescribed]

theorem coerceLiteralItems_undescribed (items : List Literal) (type : TypeRef) :
    schema.undescribed.coerceLiteralItems variableValues items type =
      schema.coerceLiteralItems variableValues items type := by
  match items with
  | [] => rfl
  | item :: rest =>
    rw [coerceLiteralItems, coerceLiteralItems, coerceLiteral_undescribed item,
      coerceLiteralItems_undescribed rest]

theorem coerceLiteralFields_undescribed (fields : List (Name × Literal)) :
    schema.undescribed.coerceLiteralFields variableValues fields =
      schema.coerceLiteralFields variableValues fields := by
  match fields with
  | [] => rfl
  | (key, value) :: rest =>
    rw [coerceLiteralFields, coerceLiteralFields, coerceLiteralFields_undescribed rest]
    exact congrArg (fun read => (key, read) :: _) (funext (coerceLiteral_undescribed value))

end

theorem coerceArguments_undescribed (declared : List InputValueDefinition)
    (given : List Argument) :
    schema.undescribed.coerceArguments variableValues (declared.map (·.undescribed)) given =
      schema.coerceArguments variableValues declared given := by
  have hliteral : schema.undescribed.coerceLiteral variableValues =
      schema.coerceLiteral variableValues :=
    funext fun literal => funext (coerceLiteral_undescribed variableValues literal)
  rw [coerceArguments, coerceArguments, hliteral, List.map_map]
  rfl

end Literal

mutual

theorem isValid_undescribed (value : Value) (type : TypeRef) :
    schema.undescribed.isValid value type = schema.isValid value type := by
  match value with
  | .map entries =>
    rw [isValid, isValid, entryChecks_undescribed entries, get?_types_undescribed,
      isValidLeaf_undescribed]
    cases schema.types.get? type.innermost with
    | none => rfl
    | some found =>
      cases found with
      | input inputType =>
        simp only [Option.map_some, TypeDefinition.undescribed, InputObjectType.undescribed,
          Table.entries_map, List.all_map]
        rfl
      | _ => rfl
  | .list items =>
    cases type with
    | named name required => simp [isValid, isValidLeaf_undescribed]
    | list item required => rw [isValid, isValid, areValid_undescribed items]
  | .null => simp [isValid]
  | .boolean _ | .int _ | .float _ | .string _ | .object _ =>
    simp [isValid, isValidLeaf_undescribed]

theorem areValid_undescribed (items : List Value) (type : TypeRef) :
    schema.undescribed.areValid items type = schema.areValid items type := by
  match items with
  | [] => rfl
  | item :: rest =>
    rw [areValid, areValid, isValid_undescribed item, areValid_undescribed rest]

theorem entryChecks_undescribed (entries : List (String × Value)) :
    schema.undescribed.entryChecks entries = schema.entryChecks entries := by
  match entries with
  | [] => rfl
  | (key, value) :: rest =>
    rw [entryChecks, entryChecks, entryChecks_undescribed rest]
    exact congrArg (fun check => (key, check) :: _) (funext (isValid_undescribed value))

end

mutual

theorem coerceSupplied_undescribed (value : Value) (type : TypeRef) :
    schema.undescribed.coerceSupplied value type = schema.coerceSupplied value type := by
  match value with
  | .map entries =>
    rw [coerceSupplied, coerceSupplied, coerceSuppliedEntries_undescribed entries]
    refine congrArg (TypeRef.promote · type) (funext fun name => ?_)
    rw [get?_types_undescribed, coerceLeaf_undescribed]
    cases schema.types.get? name with
    | none => rfl
    | some found =>
      cases found with
      | input inputType =>
        exact inputType.assemble_undescribed fun name type =>
          match (schema.coerceSuppliedEntries entries).get? name with
          | some readAt => readAt type
          | none => .null
      | _ => rfl
  | .list items =>
    cases type with
    | named name required => simp [coerceSupplied, coerceLeaf_undescribed]
    | list item required =>
      rw [coerceSupplied, coerceSupplied, coerceSuppliedItems_undescribed items]
  | .null => simp [coerceSupplied]
  | .boolean _ | .int _ | .float _ | .string _ | .object _ =>
    simp [coerceSupplied, coerceLeaf_undescribed]

theorem coerceSuppliedItems_undescribed (items : List Value) (type : TypeRef) :
    schema.undescribed.coerceSuppliedItems items type =
      schema.coerceSuppliedItems items type := by
  match items with
  | [] => rfl
  | item :: rest =>
    rw [coerceSuppliedItems, coerceSuppliedItems, coerceSupplied_undescribed item,
      coerceSuppliedItems_undescribed rest]

theorem coerceSuppliedEntries_undescribed (entries : List (String × Value)) :
    schema.undescribed.coerceSuppliedEntries entries = schema.coerceSuppliedEntries entries := by
  match entries with
  | [] => rfl
  | (key, value) :: rest =>
    rw [coerceSuppliedEntries, coerceSuppliedEntries, coerceSuppliedEntries_undescribed rest]
    exact congrArg (fun read => (key, read) :: _) (funext (coerceSupplied_undescribed value))

end

theorem coerceVariable_undescribed (supplied : Json.Members) (definition : VariableDefinition) :
    schema.undescribed.coerceVariable supplied definition =
      schema.coerceVariable supplied definition := by
  unfold coerceVariable
  simp only [get?_undescribed, Option.isNone_map, isValid_undescribed, coerceLiteral_undescribed,
    coerceSupplied_undescribed]

theorem coerceVariables_undescribed (declared : List VariableDefinition)
    (supplied : Json.Members) :
    schema.undescribed.coerceVariables declared supplied =
      schema.coerceVariables declared supplied := by
  refine coerceVariables_congr_of_forall₂ (List.forall₂_same.mpr fun definition _ => ⟨rfl, ?_⟩)
  exact coerceVariable_undescribed supplied definition

end Schema

/-! ## 5. Schemas that differ in descriptions alone -/

theorem Schema.ext {schema schema' : Schema} (ht : schema.types = schema'.types)
    (hd : schema.directives = schema'.directives) (hq : schema.query = schema'.query)
    (hm : schema.mutation = schema'.mutation) : schema = schema' := by
  obtain ⟨types, directives, query, mutation, reachable, rfl⟩ := schema
  obtain ⟨types', directives', query', mutation', reachable', rfl⟩ := schema'
  cases ht
  cases hd
  cases hq
  cases hm
  rfl

/-- What an author says without descriptions settles the schema without descriptions. -/
theorem SchemaDescription.Builds.undescribed_congr {description description' : SchemaDescription}
    {schema schema' : Schema} (hb : description.Builds schema) (hb' : description'.Builds schema')
    (ht : description.types.map (·.undescribed) = description'.types.map (·.undescribed))
    (hd : description.directives.map (·.undescribed) =
      description'.directives.map (·.undescribed))
    (hq : description.query = description'.query)
    (hm : description.mutation = description'.mutation) :
    schema.undescribed = schema'.undescribed := by
  have hnames : description.types.map (·.name) = description'.types.map (·.name) := by
    have h := congrArg (List.map TypeDefinition.name) ht
    simpa only [List.map_map, Function.comp_def, TypeDefinition.name_undescribed] using h
  have htypes : schema.undescribed.types = schema'.undescribed.types := by
    apply Table.ext
    show schema.types.entries.map _ = schema'.types.entries.map _
    rw [hb.entries_types, hb'.entries_types, allTypes, allTypes, hnames]
    simp only [List.map_append, ht]
  have hdirectives : schema.undescribed.directives = schema'.undescribed.directives := by
    apply Table.ext
    show schema.directives.entries.map _ = schema'.directives.entries.map _
    rw [hb.entries_directives, hb'.entries_directives, allDirectives, allDirectives]
    simp only [List.map_append, hd]
  have hroot : ∀ name type type', rootType schema.types name = .ok type →
      rootType schema'.types name = .ok type' → type.undescribed = type'.undescribed := by
    intro name type type' hr hr'
    have hget : schema.undescribed.types.get? name = _ := Schema.get?_types_undescribed name
    rw [htypes, Schema.get?_types_undescribed, get?_eq_of_rootType hr,
      get?_eq_of_rootType hr'] at hget
    exact (TypeDefinition.object.inj (Option.some.inj hget)).symm
  apply Schema.ext htypes hdirectives
  · obtain ⟨name, hn, hr⟩ := hb.query
    obtain ⟨name', hn', hr'⟩ := hb'.query
    cases hn.symm.trans (hq.trans hn')
    exact hroot name _ _ hr hr'
  · cases hname : description.mutation with
    | none =>
      show schema.mutation.map _ = schema'.mutation.map _
      rw [hb.mutation_eq_none hname, hb'.mutation_eq_none (hm ▸ hname)]
    | some name =>
      obtain ⟨type, htype, hr⟩ := hb.mutationNamed name hname
      obtain ⟨type', htype', hr'⟩ := hb'.mutationNamed name (hm ▸ hname)
      show schema.mutation.map _ = schema'.mutation.map _
      rw [htype, htype']
      exact congrArg some (hroot name type type' hr hr')

end GraphQL
