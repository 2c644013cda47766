import GraphQL.Proofs.Input.Agreement

/-!
# `GraphQL/Proofs/Input/Defaults.lean` — variables that a request leaves out

A declared variable for which nothing is supplied has its default, read at its type, and that is the
value that the default has in any place of that type: a literal depends on the variables that it
mentions (`Literal.Mentions`), and a default mentions none. But the check comes before the default.
It takes nothing for null, and so the default of a variable whose type excludes null is never looked
at: a request that leaves such a variable out is refused (`Schema.takesDefault_iff`).

A name can be declared twice, and then the last declaration counts.
-/

set_option autoImplicit false

namespace GraphQL

/-! ## 1. Literals and the variables in them -/

/-- A variable stands in a literal. -/
inductive Literal.Mentions (name : Name) : Literal → Prop where
  | here : Mentions name (.variable name)
  | item {items : List Literal} {item : Literal} (hm : item ∈ items) (h : Mentions name item) :
    Mentions name (.list items)
  | field {fields : List (Name × Literal)} {field : Name × Literal} (hm : field ∈ fields)
    (h : Mentions name field.2) : Mentions name (.object fields)

/-- No variable stands in a literal. -/
def Literal.Constant (literal : Literal) : Prop :=
  ∀ name, ¬ literal.Mentions name

namespace Schema

variable {schema : Schema}

/-- A literal is read alike with two tables of variables that agree on those that it mentions. -/
theorem coerceLiteral_congr_values {values values' : Entries Value} {literal : Literal}
    {type : TypeRef} (h : ∀ name, literal.Mentions name →
      (values'.get? name).getD .null = (values.get? name).getD .null) :
    schema.coerceLiteral values' literal type = schema.coerceLiteral values literal type := by
  induction literal, type using Literal.readInduct with
  | null type => rw [coerceLiteral_null, coerceLiteral_null]
  | var name type => exact h name .here
  | items items item required ih =>
    rw [coerceLiteral_list, coerceLiteral_list]
    refine congrArg Value.list (List.map_congr_left fun literal hm => ?_)
    exact ih literal hm fun name hn => h name (.item hm hn)
  | single literal item required hs ih =>
    rw [coerceLiteral_single values' hs, coerceLiteral_single values hs, ih h]
  | named literal name required hn hv ih =>
    rcases schema.object_or_leaf Literal.object literal name with ⟨fields, type, rfl, ht⟩ | hl
    · rw [coerceLiteral_object values' fields ht, coerceLiteral_object values fields ht]
      refine InputObjectType.assemble_congr fun input _ => ?_
      cases hg : Entries.get? fields input.name with
      | none => rw [Option.getD_none, coerceLiteral_null, coerceLiteral_null]
      | some literal =>
        refine ih input.name literal hg input.type fun name hn => ?_
        exact h name (.field (Entries.mem_of_get? hg) hn)
    · rw [coerceLiteral_leaf values' hn hv hl, coerceLiteral_leaf values hn hv hl]

theorem coerceLiteral_of_constant {literal : Literal} (hc : literal.Constant)
    (values : Entries Value) (type : TypeRef) :
    schema.coerceLiteral values literal type = schema.coerceLiteral [] literal type :=
  coerceLiteral_congr_values fun name hn => absurd hn (hc name)

/-- Whether a type excludes null does not matter to a literal that is read at it. -/
theorem coerceLiteral_nullable (values : Entries Value) (literal : Literal) (type : TypeRef) :
    schema.coerceLiteral values literal type.nullable =
      schema.coerceLiteral values literal type := by
  cases type with
  | named name required => cases literal <;> rfl
  | list item required => cases literal <;> rfl

theorem coerceLiteral_congr_nullable (values : Entries Value) (literal : Literal)
    {type type' : TypeRef} (h : type'.nullable = type.nullable) :
    schema.coerceLiteral values literal type' = schema.coerceLiteral values literal type := by
  rw [← coerceLiteral_nullable values literal type', h, coerceLiteral_nullable]

/-! ## 2. The table of the variables -/

section Table

variable {supplied : Json.Members} {values values' : Entries Value}
variable {definition : VariableDefinition} {declared before after : List VariableDefinition}

/-- A name that is not declared is left alone. -/
theorem get?_of_coerceVariablesInto_of_undeclared {name : Name}
    (hn : ∀ definition ∈ declared, definition.name ≠ name)
    (h : schema.coerceVariablesInto supplied values declared = .ok values') :
    values'.get? name = values.get? name := by
  induction declared generalizing values with
  | nil =>
    cases h
    rfl
  | cons definition rest ih =>
    rw [List.forall_mem_cons] at hn
    rw [coerceVariablesInto] at h
    cases hv : schema.coerceVariable supplied definition with
    | error error =>
      rw [hv] at h
      cases h
    | ok value =>
      rw [hv] at h
      rw [ih hn.2 h, Entries.get?_put, if_neg hn.1]

/-- The last declaration of a name says what its value is. -/
theorem get?_of_coerceVariablesInto_of_last (ha : ∀ other ∈ after, other.name ≠ definition.name)
    (h : schema.coerceVariablesInto supplied values (before ++ definition :: after) =
      .ok values') :
    ∃ value, values'.get? definition.name = some value ∧
      schema.coerceVariable supplied definition = .ok value := by
  induction before generalizing values with
  | nil =>
    rw [List.nil_append, coerceVariablesInto] at h
    cases hv : schema.coerceVariable supplied definition with
    | error error =>
      rw [hv] at h
      cases h
    | ok value =>
      rw [hv] at h
      refine ⟨value, ?_, rfl⟩
      rw [get?_of_coerceVariablesInto_of_undeclared ha h, Entries.get?_put, if_pos rfl]
  | cons first rest ih =>
    rw [List.cons_append, coerceVariablesInto] at h
    cases hv : schema.coerceVariable supplied first with
    | error error =>
      rw [hv] at h
      cases h
    | ok value =>
      rw [hv] at h
      exact ih h

theorem get?_of_undeclared {name : Name} (hn : ∀ definition ∈ declared, definition.name ≠ name)
    (h : schema.coerceVariables declared supplied = .ok values) : values.get? name = none :=
  get?_of_coerceVariablesInto_of_undeclared hn h

/-! ## 3. Nothing is supplied -/

variable (hl : (schema.get? definition.type.innermost).isSome = true)

include hl

/-- Without a value, a variable is refused if its type excludes null, default or not. -/
theorem coerceVariable_of_required (hr : definition.type.required = true)
    (hg : (supplied.get? definition.name).getD .null = .null) :
    schema.coerceVariable supplied definition =
      .error (.invalidVariable definition.name definition.location) := by
  refine coerceVariable_of_invalid hl ?_
  rw [hg, isValid_ofJson_null, hr, Bool.not_true]

end Table

/-- A variable for which nothing is supplied takes its default exactly if its type allows null. Then
it is not what a request could be refused for, and its value is that of the default wherever it is
written in place of the variable. If its type excludes null, the request is refused. -/
theorem takesDefault_iff (schema : Schema) (before : List VariableDefinition)
    (definition : VariableDefinition) (after : List VariableDefinition) (supplied : Json.Members)
    (hl : (schema.get? definition.type.innermost).isSome = true) {default : Literal}
    (hd : definition.default = some default) (hc : default.Constant)
    (ho : supplied.get? definition.name = none) :
    (schema.coerceVariable supplied definition =
        .ok (schema.coerceLiteral [] default definition.type) ↔
      definition.type.required = false) ∧
    (definition.type.required = true →
      schema.coerceVariable supplied definition =
          .error (.invalidVariable definition.name definition.location) ∧
        ∃ error, schema.coerceVariables (before ++ definition :: after) supplied =
          .error error) ∧
    (definition.type.required = false →
      ((∃ error, schema.coerceVariables (before ++ definition :: after) supplied = .error error) ↔
        ∃ other ∈ before ++ after, ∃ error, schema.coerceVariable supplied other = .error error) ∧
      ∀ values, schema.coerceVariables (before ++ definition :: after) supplied = .ok values →
        (∀ other ∈ after, other.name ≠ definition.name) →
        ∀ inPlace, values.get? definition.name =
          some (schema.coerceLiteral inPlace default definition.type)) := by
  have hg : (supplied.get? definition.name).getD .null = .null := by rw [ho, Option.getD_none]
  have hrefused := fun hr => coerceVariable_of_required hl hr hg
  have htaken := fun hr => coerceVariable_of_default hl hd hr hg
  refine ⟨⟨fun h => ?_, htaken⟩, fun hr => ⟨hrefused hr, ?_⟩,
    fun hr => ⟨?_, fun values h ha inPlace => ?_⟩⟩
  · refine Bool.eq_false_iff.mpr fun hr => ?_
    rw [hrefused hr] at h
    cases h
  · exact coerceVariables_eq_error_iff.mpr ⟨definition, by simp, _, hrefused hr⟩
  · have hfine : ¬ ∃ error, schema.coerceVariable supplied definition = .error error := by
      simp [htaken hr]
    simp only [coerceVariables_eq_error_iff, List.mem_append, List.mem_cons, or_and_right,
      exists_or, exists_eq_left, hfine, false_or]
  · obtain ⟨value, hvalue, hv⟩ := get?_of_coerceVariablesInto_of_last ha h
    rw [htaken hr, Except.ok.injEq] at hv
    rw [hvalue, ← hv, coerceLiteral_of_constant hc inPlace]

end Schema

/-! ## 4. Samples -/

namespace InputSample

/-- A variable with a default, at a type that excludes null. -/
def requiredLimit : VariableDefinition :=
  { limited with type := .named "Int" true }

theorem coerceLiteral_three (variableValues : Entries Value) (isRequired : Bool) :
    schema.coerceLiteral variableValues (.int "3") (.named "Int" isRequired) = .int 3 := by
  rw [Schema.coerceLiteral_leaf variableValues (by simp) (by simp) (Or.inl (by simp)),
    Schema.coerceLeafLiteral, get?_int]
  rfl

theorem constant_int (text : String) : (Literal.int text).Constant :=
  fun _ h => by cases h

end InputSample

namespace Schema

theorem takesDefault_iff_sample :
    InputSample.schema.coerceVariables [InputSample.limited] [] = .ok [("limit", .int 3)] ∧
    ∃ error, InputSample.schema.coerceVariables [InputSample.limited, InputSample.requiredLimit] [] =
      .error error := by
  have hl : (InputSample.schema.get? "Int").isSome = true := by decide
  have hc := InputSample.constant_int "3"
  constructor
  · obtain ⟨hiff, -, -⟩ :=
      takesDefault_iff InputSample.schema [] InputSample.limited [] [] hl rfl hc rfl
    rw [coerceVariables, coerceVariablesInto, hiff.mpr rfl]
    exact congrArg (fun value => Except.ok [("limit", value)])
      (InputSample.coerceLiteral_three [] false)
  · obtain ⟨-, hrefused, -⟩ := takesDefault_iff InputSample.schema [InputSample.limited]
      InputSample.requiredLimit [] [] hl rfl hc rfl
    exact (hrefused rfl).2

/-- The default has a value at the type of the variable, and the request is refused all the same. -/
theorem not_takesDefault :
    InputSample.description.build = .ok InputSample.schema ∧
    (InputSample.schema.get? InputSample.requiredLimit.type.innermost).isSome = true ∧
    InputSample.requiredLimit.default = some (.int "3") ∧
    InputSample.schema.coerceLiteral [] (.int "3") InputSample.requiredLimit.type = .int 3 ∧
    InputSample.schema.coerceVariables [InputSample.requiredLimit] [] =
      .error (.invalidVariable "limit" .start) := by
  have hl : (InputSample.schema.get? "Int").isSome = true := by decide
  have hrefused : InputSample.schema.coerceVariable [] InputSample.requiredLimit =
      .error (.invalidVariable "limit" .start) :=
    coerceVariable_of_required hl rfl rfl
  refine ⟨InputSample.build_eq_ok, hl, rfl, InputSample.coerceLiteral_three [] true, ?_⟩
  rw [coerceVariables, coerceVariablesInto, hrefused]

end Schema

end GraphQL
