import GraphQL.Proofs.Input.Reading
import GraphQL.Proofs.Schema.Reachability
import GraphQL.Proofs.Schema.Registration

/-!
# `GraphQL/Proofs/Input/Validity.lean` — supplied values that fit their types

Two recursions share the work on what a request supplies: one checks (`isValid`), the other reads
what has been checked (`coerceSupplied`) and has a null ready for whatever should not come up. They
are held here against two relations that speak of JSON values and types alone.
`Schema.IllTyped` says what is wrong with a value, and the check refuses exactly what it says.
`Schema.Reads` says what a value is read as, and it has no rule for the nulls of the second
recursion: where a null stands, null was given or nothing, and the type allows it.
-/

set_option autoImplicit false

namespace GraphQL

/-- The name of an enum value is not null. -/
theorem EnumType.isNull_of_coerce {type : EnumType} {value coerced : Value}
    (h : type.coerce value = some coerced) : coerced.isNull = false := by
  obtain ⟨entry, -, rfl⟩ := Option.map_eq_some_iff.mp h
  rfl

/-- A built-in scalar type does not read anything as null. -/
theorem Scalar.coerce_ne_null {type : ScalarType} (hm : type ∈ builtIn) (value : Value) :
    type.coerce value ≠ some .null := by
  simp only [builtIn, List.mem_cons, List.not_mem_nil, or_false] at hm
  rcases hm with rfl | rfl | rfl | rfl | rfl
  · simp [int]
  · simp only [float, ne_eq, Option.bind_eq_some_iff, not_exists, not_and]
    intro x _
    unfold finite?
    split <;> simp
  · cases value <;> simp [string]
  · cases value <;> simp [boolean]
  · cases value <;> simp [id]

namespace Schema

variable (schema : Schema)

/-! ## 1. Values that do not fit -/

/-- A JSON value does not fit a type. -/
inductive IllTyped : Json → TypeRef → Prop where
  /-- Null, or nothing, at a type that excludes null. -/
  | null {type : TypeRef} (hr : type.required = true) : IllTyped .null type
  | item {items : List Json} {json : Json} {item : TypeRef} {required : Bool} (hm : json ∈ items)
    (h : IllTyped json item) : IllTyped (.array items) (.list item required)
  /-- The only item of a list that is not written. -/
  | single {json : Json} {item : TypeRef} {required : Bool} (hs : json.isSingle = true)
    (h : IllTyped json item) : IllTyped json (.list item required)
  | notAnObject {json : Json} {name : Name} {required : Bool} {type : InputObjectType}
    (hn : json.isNull = false) (ht : schema.types.get? name = some (.input type))
    (ho : ∀ members, json ≠ .object members) : IllTyped json (.named name required)
  /-- A declared field, given or left out. -/
  | field {members : Json.Members} {name : Name} {required : Bool} {type : InputObjectType}
    {input : InputValueDefinition} (ht : schema.types.get? name = some (.input type))
    (hm : input ∈ type.fields.entries)
    (h : IllTyped ((members.get? input.name).getD .null) input.type) :
    IllTyped (.object members) (.named name required)
  | scalar {json : Json} {name : Name} {required : Bool} {type : ScalarType}
    (hn : json.isNull = false) (ht : schema.types.get? name = some (.scalar type))
    (hc : type.coerce (.ofJson json) = none) : IllTyped json (.named name required)
  | enum {json : Json} {name : Name} {required : Bool} {type : EnumType}
    (hn : json.isNull = false) (ht : schema.types.get? name = some (.enum type))
    (hc : type.coerce (.ofJson json) = none) : IllTyped json (.named name required)
  | output {json : Json} {name : Name} {required : Bool} {type : TypeDefinition}
    (hn : json.isNull = false) (ht : schema.types.get? name = some type)
    (ho : type.isInput = false) : IllTyped json (.named name required)

variable {schema}

/-- What does not fit is refused. -/
theorem IllTyped.isValid_eq_false {json : Json} {type : TypeRef} (h : schema.IllTyped json type) :
    schema.isValid (.ofJson json) type = false := by
  induction h with
  | null hr => rw [isValid_ofJson_null, hr, Bool.not_true]
  | item hm _ ih => exact isValid_ofJson_array _ ▸ List.all_eq_false.mpr ⟨_, hm, by simp [ih]⟩
  | single hs _ ih => rw [isValid_ofJson_single hs, ih]
  | notAnObject hn ht ho =>
    rw [isValid_ofJson_leaf hn (Or.inl ho), isValidLeaf, ht]
  | field ht hm _ ih =>
    exact isValid_ofJson_object _ ht ▸ List.all_eq_false.mpr ⟨_, hm, by simp [ih]⟩
  | scalar hn ht hc =>
    rw [isValid_ofJson_leaf hn (Or.inr (by simp [ht])), isValidLeaf, ht]
    simp [hc]
  | enum hn ht hc =>
    rw [isValid_ofJson_leaf hn (Or.inr (by simp [ht])), isValidLeaf, ht]
    simp [hc]
  | @output json name required type hn ht ho =>
    have hne : ∀ input, schema.types.get? name ≠ some (.input input) := by
      intro input h
      cases ht.symm.trans h
      cases ho
    rw [isValid_ofJson_leaf hn (Or.inr hne), isValidLeaf, ht]
    cases type <;> first | rfl | cases ho

/-- What is refused at a registered type does not fit. The types of input fields are registered in
turn, so the only thing that a refusal can come from is the value. -/
theorem illTyped_of_isValid_eq_false {description : SchemaDescription}
    (hb : description.Builds schema) {json : Json} {type : TypeRef}
    (hr : type.innermost ∈ schema.types.names)
    (hv : schema.isValid (.ofJson json) type = false) : schema.IllTyped json type := by
  induction json, type using Json.readInduct with
  | null type =>
    rw [isValid_ofJson_null, Bool.not_eq_false'] at hv
    exact .null hv
  | items items item required ih =>
    rw [isValid_ofJson_array, List.all_eq_false] at hv
    obtain ⟨json, hm, h⟩ := hv
    exact .item hm (ih json hm hr (by simpa using h))
  | single json item required hs ih =>
    rw [isValid_ofJson_single hs] at hv
    exact .single hs (ih hr hv)
  | named json name required hn ih =>
    rcases schema.object_or_leaf Json.object json name with ⟨members, input, rfl, hi⟩ | hl
    · rw [isValid_ofJson_object members hi, List.all_eq_false] at hv
      obtain ⟨field, hm, h⟩ := hv
      have hregistered : field.type.innermost ∈ schema.types.names :=
        hb.registered_of_edge (Table.get?_eq_some_iff.mp hi).1 (List.mem_map_of_mem hm)
      refine .field hi hm ?_
      cases hg : Entries.get? members field.name with
      | none =>
        rw [hg, Option.getD_none, isValid_ofJson_null] at h
        exact .null (by simpa using h)
      | some json =>
        rw [hg] at h
        exact ih field.name json hg field.type hregistered (by simpa using h)
    · obtain ⟨type, ht⟩ := Table.mem_names_iff.mp hr
      rw [TypeRef.innermost] at ht
      rw [isValid_ofJson_leaf hn hl, isValidLeaf, ht] at hv
      cases type with
      | scalar type => exact .scalar hn ht (by simpa using hv)
      | enum type => exact .enum hn ht (by simpa using hv)
      | input type => exact .notAnObject hn ht (hl.resolve_right fun h => h type ht)
      | _ => exact .output hn ht rfl

theorem isValid_eq_false_iff {description : SchemaDescription} (hb : description.Builds schema)
    {json : Json} {type : TypeRef} (hr : type.innermost ∈ schema.types.names) :
    schema.isValid (.ofJson json) type = false ↔ schema.IllTyped json type :=
  ⟨illTyped_of_isValid_eq_false hb hr, IllTyped.isValid_eq_false⟩

/-! ## 2. What values are read as -/

variable (schema)

/-- No scalar type reads a value as null. The built-in ones do not, and so it depends on the
author's (`SchemaDescription.Builds.scalarsExcludeNull`). -/
def ScalarsExcludeNull : Prop :=
  ∀ type, .scalar type ∈ schema.types.entries → ∀ value, type.coerce value ≠ some .null

/-- A JSON value is read at a type as a value. -/
inductive Reads : Json → TypeRef → Value → Prop where
  | null {type : TypeRef} (hr : type.required = false) : Reads .null type .null
  | list {items : List Json} {values : List Value} {item : TypeRef} {required : Bool}
    (hl : items.length = values.length)
    (h : ∀ (index : Nat) (json : Json) (value : Value), items[index]? = some json →
      values[index]? = some value → Reads json item value) :
    Reads (.array items) (.list item required) (.list values)
  /-- A single value is the only item of a list. -/
  | single {json : Json} {value : Value} {item : TypeRef} {required : Bool}
    (hs : json.isSingle = true) (h : Reads json item value) :
    Reads json (.list item required) (.list [value])
  /-- An object has all declared fields, in order, and no others. Those that are given are read at
  their types; in place of null or of nothing stands the default. -/
  | object {members : Json.Members} {name : Name} {required : Bool} {type : InputObjectType}
    {value : InputValueDefinition → Value} (ht : schema.types.get? name = some (.input type))
    (hg : ∀ input ∈ type.fields.entries, ∀ json, members.get? input.name = some json →
      json.isNull = false → Reads json input.type (value input))
    (hd : ∀ input ∈ type.fields.entries, ((members.get? input.name).getD .null).isNull = true →
      input.type.required = false ∧ value input = input.default.getD .null) :
    Reads (.object members) (.named name required)
      (.map (type.fields.entries.map fun input => (input.name, value input)))
  | scalar {json : Json} {name : Name} {required : Bool} {type : ScalarType} {value : Value}
    (hn : json.isNull = false) (ht : schema.types.get? name = some (.scalar type))
    (hc : type.coerce (.ofJson json) = some value) (hv : value.isNull = false) :
    Reads json (.named name required) value
  | enum {json : Json} {name : Name} {required : Bool} {type : EnumType} {value : Value}
    (hn : json.isNull = false) (ht : schema.types.get? name = some (.enum type))
    (hc : type.coerce (.ofJson json) = some value) (hv : value.isNull = false) :
    Reads json (.named name required) value

variable {schema}

/-- Null is what null is read as, and nothing else is. -/
theorem Reads.isNull_eq {json : Json} {type : TypeRef} {value : Value}
    (h : schema.Reads json type value) : value.isNull = json.isNull := by
  cases h with
  | null => rfl
  | list => rfl
  | @single json value item required hs h => cases json <;> first | rfl | cases hs
  | object => rfl
  | scalar hn ht hc hv => rw [hn, hv]
  | enum hn ht hc hv => rw [hn, hv]

theorem reads_coerceLeaf (hs : schema.ScalarsExcludeNull) {json : Json} {name : Name}
    {required : Bool} (hn : json.isNull = false)
    (hv : schema.isValidLeaf (.ofJson json) name = true) :
    schema.Reads json (.named name required) (schema.coerceLeaf (.ofJson json) name) := by
  unfold isValidLeaf at hv
  unfold coerceLeaf
  cases ht : schema.types.get? name with
  | none => simp [ht] at hv
  | some type =>
    rw [ht] at hv
    cases type with
    | scalar type =>
      obtain ⟨value, hc⟩ := Option.isSome_iff_exists.mp hv
      have hvalue : value.isNull = false := by
        refine Bool.eq_false_iff.mpr fun hnull => ?_
        exact hs type (Table.get?_eq_some_iff.mp ht).1 _ (Value.isNull_iff.mp hnull ▸ hc)
      simp only [hc, Option.getD_some]
      exact .scalar hn ht hc hvalue
    | enum type =>
      obtain ⟨value, hc⟩ := Option.isSome_iff_exists.mp hv
      simp only [hc, Option.getD_some]
      exact .enum hn ht hc (EnumType.isNull_of_coerce hc)
    | _ => cases hv

/-- A valid value is read, and by no rule that makes a null of what was given. -/
theorem reads_of_isValid (hs : schema.ScalarsExcludeNull) {json : Json} {type : TypeRef}
    (hv : schema.isValid (.ofJson json) type = true) :
    schema.Reads json type (schema.coerceSupplied (.ofJson json) type) := by
  induction json, type using Json.readInduct with
  | null type =>
    rw [isValid_ofJson_null, Bool.not_eq_true'] at hv
    rw [coerceSupplied_ofJson_null]
    exact .null hv
  | items items item required ih =>
    rw [isValid_ofJson_array, List.all_eq_true] at hv
    rw [coerceSupplied_ofJson_array]
    refine .list (List.length_map _).symm fun index json value hj hvalue => ?_
    rw [List.getElem?_map, hj, Option.map_some, Option.some.injEq] at hvalue
    have hm := List.mem_of_getElem? hj
    exact hvalue ▸ ih json hm (hv json hm)
  | single json item required hsingle ih =>
    rw [isValid_ofJson_single hsingle] at hv
    rw [coerceSupplied_ofJson_single hsingle]
    exact .single hsingle (ih hv)
  | named json name required hn ih =>
    rcases schema.object_or_leaf Json.object json name with ⟨members, type, rfl, ht⟩ | hl
    · rw [isValid_ofJson_object members ht, List.all_eq_true] at hv
      rw [coerceSupplied_ofJson_object members ht]
      refine .object ht (fun input hm json hg hj => ?_) fun input hm hnull => ?_
      · have h := hv input hm
        dsimp only
        rw [hg, Option.getD_some] at h ⊢
        have hread := ih input.name json hg input.type h
        rw [input.withDefault_of_isNull_eq_false (hread.isNull_eq.trans hj)]
        exact hread
      · have h := hv input hm
        rw [Json.isNull_iff] at hnull
        dsimp only
        rw [hnull, isValid_ofJson_null, Bool.not_eq_true'] at h
        rw [hnull, coerceSupplied_ofJson_null]
        exact ⟨h, input.withDefault_null⟩
    · rw [isValid_ofJson_leaf hn hl] at hv
      rw [coerceSupplied_ofJson_leaf hn hl]
      exact reads_coerceLeaf hs hn hv

/-! ## 3. The variables of an operation -/

section Variables

variable {description : SchemaDescription} {supplied : Json.Members}
variable {definition : VariableDefinition} {declared : List VariableDefinition}
variable {values values' : Entries Value}

/-- A variable is an error exactly if its type is listed and what is supplied does not fit it. -/
theorem coerceVariable_eq_error_iff (hb : description.Builds schema) :
    (∃ error, schema.coerceVariable supplied definition = .error error) ↔
      (schema.get? definition.type.innermost).isSome = true ∧
        schema.IllTyped ((supplied.get? definition.name).getD .null) definition.type := by
  cases hl : (schema.get? definition.type.innermost).isSome with
  | false => simp [coerceVariable_of_unlisted hl]
  | true =>
    rw [← isValid_eq_false_iff hb (registered_of_get? hl)]
    cases hv : schema.isValid (.ofJson ((supplied.get? definition.name).getD .null))
        definition.type with
    | false => simp [coerceVariable_of_invalid hl hv]
    | true =>
      obtain ⟨value, hvalue⟩ := exists_coerceVariable_of_valid hl hv
      simp [hvalue]

theorem reads_of_coerceVariable (hs : schema.ScalarsExcludeNull)
    (hl : (schema.get? definition.type.innermost).isSome = true) {json : Json}
    (hg : supplied.get? definition.name = some json) (hn : json.isNull = false) {value : Value}
    (hv : schema.coerceVariable supplied definition = .ok value) :
    schema.Reads json definition.type value := by
  cases hvalid : schema.isValid (.ofJson json) definition.type with
  | false =>
    rw [coerceVariable_of_invalid hl (by rwa [hg])] at hv
    cases hv
  | true =>
    rw [coerceVariable_of_given hl hg (by simp [hn]) hvalid] at hv
    cases hv
    exact reads_of_isValid hs hvalid

/-- Variables are settled one after the other, and the first error is the error of all. -/
theorem coerceVariablesInto_eq_error_iff :
    (∃ error, schema.coerceVariablesInto supplied values declared = .error error) ↔
      ∃ definition ∈ declared,
        ∃ error, schema.coerceVariable supplied definition = .error error := by
  induction declared generalizing values with
  | nil => simp [coerceVariablesInto]
  | cons definition rest ih =>
    simp only [coerceVariablesInto, List.mem_cons, exists_eq_or_imp]
    cases hv : schema.coerceVariable supplied definition with
    | ok value => simpa using ih
    | error error => simp

theorem coerceVariables_eq_error_iff :
    (∃ error, schema.coerceVariables declared supplied = .error error) ↔
      ∃ definition ∈ declared, ∃ error, schema.coerceVariable supplied definition = .error error :=
  coerceVariablesInto_eq_error_iff

/-- Each variable of a new name adds an entry at the end, with its own value, and later variables
leave it alone. -/
theorem get?_of_coerceVariablesInto (hd : (values.keys ++ declared.map (·.name)).Nodup)
    (h : schema.coerceVariablesInto supplied values declared = .ok values') :
    values'.keys = values.keys ++ declared.map (·.name) ∧
      (∀ key ∈ values.keys, values'.get? key = values.get? key) ∧
      ∀ definition ∈ declared, ∃ value, values'.get? definition.name = some value ∧
        schema.coerceVariable supplied definition = .ok value := by
  induction declared generalizing values with
  | nil =>
    cases h
    exact ⟨by simp, fun _ _ => rfl, List.forall_mem_nil _⟩
  | cons definition rest ih =>
    rw [coerceVariablesInto] at h
    cases hv : schema.coerceVariable supplied definition with
    | error error =>
      rw [hv] at h
      cases h
    | ok value =>
      rw [hv] at h
      dsimp only at h
      have habsent : definition.name ∉ values.keys := by
        intro hm
        exact (List.nodup_append.mp hd).2.2 _ hm _ List.mem_cons_self rfl
      have hkeys : (values.put definition.name value).keys = values.keys ++ [definition.name] := by
        rw [Entries.keys_put, if_neg habsent]
      obtain ⟨hall, hbefore, hrest⟩ := ih (by simpa [hkeys] using hd) h
      refine ⟨by simp [hall, hkeys], fun key hk => ?_, List.forall_mem_cons.mpr ⟨?_, hrest⟩⟩
      · rw [hbefore key (by simp [hkeys, hk]), Entries.get?_put, if_neg]
        rintro rfl
        exact habsent hk
      · refine ⟨value, ?_, hv⟩
        rw [hbefore _ (by simp [hkeys]), Entries.get?_put, if_pos rfl]

theorem get?_of_coerceVariables (hd : (declared.map (·.name)).Nodup)
    (h : schema.coerceVariables declared supplied = .ok values) :
    values.keys = declared.map (·.name) ∧
      ∀ definition ∈ declared, ∃ value, values.get? definition.name = some value ∧
        schema.coerceVariable supplied definition = .ok value := by
  have hempty : (Entries.keys ([] : Entries Value) ++ declared.map (·.name)).Nodup := hd
  obtain ⟨hkeys, -, hvalues⟩ := get?_of_coerceVariablesInto hempty h
  exact ⟨hkeys, hvalues⟩

end Variables

/-- Variable coercion refuses exactly the ill-typed, and what it accepts is read as its types say.
It is an error if and only if something that is supplied for a variable of a listed type does not
fit the type. Otherwise the table has the declared names, and what is given for such a variable is
read at its type, without any null that was not given and any default of a field that was. -/
theorem coerceVariables_sound {description : SchemaDescription} {schema : Schema}
    (hb : description.build = .ok schema) (hs : schema.ScalarsExcludeNull)
    {declared : List VariableDefinition} (hd : (declared.map (·.name)).Nodup)
    (supplied : Json.Members) :
    ((∃ error, schema.coerceVariables declared supplied = .error error) ↔
      ∃ definition ∈ declared, (schema.get? definition.type.innermost).isSome = true ∧
        schema.IllTyped ((supplied.get? definition.name).getD .null) definition.type) ∧
    ∀ values, schema.coerceVariables declared supplied = .ok values →
      values.keys = declared.map (·.name) ∧
      ∀ definition ∈ declared, (schema.get? definition.type.innermost).isSome = true →
        ∀ json, supplied.get? definition.name = some json → json.isNull = false →
          ∃ value, values.get? definition.name = some value ∧ value.isNull = false ∧
            schema.Reads json definition.type value := by
  constructor
  · simp only [coerceVariables_eq_error_iff,
      coerceVariable_eq_error_iff (SchemaDescription.builds hb)]
  · intro values hv
    obtain ⟨hkeys, hvalues⟩ := get?_of_coerceVariables hd hv
    refine ⟨hkeys, fun definition hm hl json hg hn => ?_⟩
    obtain ⟨value, hvalue, hc⟩ := hvalues definition hm
    have hr := reads_of_coerceVariable hs hl hg hn hc
    exact ⟨value, hvalue, hr.isNull_eq.trans hn, hr⟩

end Schema

/-- It is enough to look at the scalar types of the author. -/
theorem SchemaDescription.Builds.scalarsExcludeNull {description : SchemaDescription}
    {schema : Schema} (hb : description.Builds schema)
    (ho : ∀ type, .scalar type ∈ description.types →
      ∀ value, type.coerce value ≠ some .null) : schema.ScalarsExcludeNull := by
  intro type hm
  have hmeta : ∀ type, TypeDefinition.scalar type ∉ Introspection.metaTypes := by
    simp [Introspection.metaTypes]
  rw [hb.entries_types, allTypes, List.mem_append, List.mem_append] at hm
  rcases hm with (hm | hm) | hm
  · exact ho type hm
  · exact absurd hm (hmeta type)
  · obtain ⟨scalar, hs, he⟩ := List.mem_map.mp hm
    cases he
    exact Scalar.coerce_ne_null (List.mem_of_mem_filter hs)

/-! ## 4. A sample with a recursive input object type -/

namespace InputSample

def nameField : InputValueDefinition where
  name := "name"
  type := .named "String" true

def innerField : InputValueDefinition where
  name := "inner"
  type := .named "Filter" false

def filter : InputObjectType where
  name := "Filter"
  fields := .ofList
    [nameField, innerField,
      { name := "order", type := .named "Order" false },
      { name := "limit", type := .named "Int" false, default := some (.int 10) },
      { name := "tags", type := .list (.named "String" true) false }]

def order : EnumType where
  name := "Order"
  values := .ofList [{ name := "UP" }, { name := "DOWN" }]

def description : SchemaDescription where
  query := some "Query"
  types :=
    [.object
      { name := "Query"
        fields := .ofList
          [{ name := "search"
             type := .named "String" false
             arguments := [{ name := "filter", type := .named "Filter" false }] }] },
      .input filter,
      .enum order]

theorem isSome_build : description.build.toOption.isSome = true := by decide

def schema : Schema :=
  description.build.toOption.get isSome_build

theorem build_eq_ok : description.build = .ok schema :=
  Except.eq_ok_get isSome_build

theorem get?_filter : schema.types.get? "Filter" = some (.input filter) := by
  have hm : .input filter ∈ description.types := by simp [description]
  exact (SchemaDescription.builds build_eq_ok).get?_eq_some_iff.mpr
    ⟨List.mem_append_left _ (List.mem_append_left _ hm), rfl⟩

def variableDefinition : VariableDefinition where
  location := .start
  name := "filter"
  type := .named "Filter" false
  default := none
  directives := []

/-- The field `name` is missing one level down. -/
def incomplete : Json.Members :=
  [("filter", .object [("name", .string "outer"), ("inner", .object [])])]

/-- A single tag instead of a list, and a member that is not declared. -/
def outer : Json :=
  .object [("other", .null), ("tags", .string "tag"), ("name", .string "outer")]

def complete : Json.Members :=
  [("filter", outer)]

theorem isSome_coerceVariables :
    (schema.coerceVariables [variableDefinition] complete).toOption.isSome = true := by
  decide

end InputSample

namespace Schema

theorem coerceVariables_sound_sample :
    (∃ error, InputSample.schema.coerceVariables [InputSample.variableDefinition]
      InputSample.incomplete = .error error) ∧
    ∃ values value, InputSample.schema.coerceVariables [InputSample.variableDefinition]
        InputSample.complete = .ok values ∧
      values.get? "filter" = some value ∧
      InputSample.schema.Reads InputSample.outer (.named "Filter" false) value := by
  have hs : InputSample.schema.ScalarsExcludeNull :=
    (SchemaDescription.builds InputSample.build_eq_ok).scalarsExcludeNull
      (by simp [InputSample.description])
  have hd : ([InputSample.variableDefinition].map (·.name)).Nodup := List.nodup_singleton _
  have hl : (InputSample.schema.get? "Filter").isSome = true := by decide
  have hname : InputSample.nameField ∈ InputSample.filter.fields.entries :=
    List.mem_cons_self
  have hinner : InputSample.innerField ∈ InputSample.filter.fields.entries :=
    List.mem_cons_of_mem _ List.mem_cons_self
  constructor
  · refine (coerceVariables_sound InputSample.build_eq_ok hs hd _).1.mpr
      ⟨_, List.mem_singleton_self _, hl, ?_⟩
    exact .field InputSample.get?_filter hinner
      (.field InputSample.get?_filter hname (.null rfl))
  · have hv := Except.eq_ok_get InputSample.isSome_coerceVariables
    obtain ⟨-, hread⟩ := (coerceVariables_sound InputSample.build_eq_ok hs hd _).2 _ hv
    obtain ⟨value, hvalue, -, hr⟩ := hread _ (List.mem_singleton_self _) hl _ rfl rfl
    exact ⟨_, value, hv, hvalue, hr⟩

end Schema

end GraphQL
