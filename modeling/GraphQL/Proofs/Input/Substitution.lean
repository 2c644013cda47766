import GraphQL.Proofs.Input.Defaults

/-!
# `GraphQL/Proofs/Input/Substitution.lean` — a constant in place of a variable

A variable without a value has that of its default, which has been read once, at the type that the
operation declares. A default that is written in place of the variable is read where it stands. The
two come to the same if the variable stands at places of the declared type only
(`Schema.coerceLiteral_substitute`): the values of a literal are assembled from its places, and a
variable has nothing below it that reading could come to.

One thing can be told apart. A scalar type of the author may look into a literal that it is given,
and there a variable is not its value. So variables must not stand inside of what such a type is
given (`Schema.Replaceable`). The built-in scalar types refuse lists and objects whatever is in
them.
-/

set_option autoImplicit false

namespace GraphQL

/-! ## 1. Substitution -/

namespace Literal

mutual

/-- A literal with a constant in place of a variable. -/
def substitute (name : Name) (literal constant : Literal) : Literal :=
  match literal with
  | .variable other => if other = name then constant else .variable other
  | .list items => .list (substituteItems name items constant)
  | .object fields => .object (substituteFields name fields constant)
  | literal => literal

/-- The items of a list, with a constant in place of a variable. -/
def substituteItems (name : Name) (items : List Literal) (constant : Literal) : List Literal :=
  match items with
  | [] => []
  | item :: rest => substitute name item constant :: substituteItems name rest constant

/-- The fields of an object, with a constant in place of a variable. -/
def substituteFields (name : Name) (fields : List (Name × Literal)) (constant : Literal) :
    List (Name × Literal) :=
  match fields with
  | [] => []
  | (key, value) :: rest =>
    (key, substitute name value constant) :: substituteFields name rest constant

end

variable {name : Name} {constant : Literal}

theorem substituteItems_eq_map (items : List Literal) :
    substituteItems name items constant = items.map (substitute name · constant) := by
  induction items with
  | nil => rfl
  | cons item rest ih => exact congrArg (substitute name item constant :: ·) ih

theorem substituteFields_eq_map (fields : List (Name × Literal)) :
    substituteFields name fields constant =
      fields.map fun field => (field.1, substitute name field.2 constant) := by
  induction fields with
  | nil => rfl
  | cons field rest ih => exact congrArg ((field.1, substitute name field.2 constant) :: ·) ih

theorem isSingle_substitute {literal : Literal} (hs : literal.isSingle = true) :
    (literal.substitute name constant).isSingle = true := by
  cases literal <;> first | rfl | cases hs

theorem get?_substituteFields (fields : List (Name × Literal)) (key : Name) :
    Entries.get? (substituteFields name fields constant) key =
      (Entries.get? fields key).map (substitute name · constant) := by
  rw [substituteFields_eq_map]
  exact Entries.get?_map (substitute name · constant) fields key

/-- Substitution makes no object of what is none, and no null or variable of what is neither. -/
theorem substitute_kind {literal : Literal} (hn : literal ≠ .null)
    (hv : ∀ other, literal ≠ .variable other) :
    literal.substitute name constant ≠ .null ∧
      (∀ other, literal.substitute name constant ≠ .variable other) ∧
      ∀ fields, literal.substitute name constant = .object fields →
        ∃ fields, literal = .object fields := by
  cases literal with
  | null => exact absurd rfl hn
  | «variable» other => exact absurd rfl (hv other)
  | object fields => exact ⟨by simp [substitute], by simp [substitute], fun _ _ => ⟨fields, rfl⟩⟩
  | _ => simp [substitute]

/-- What does not mention the variable stays as it is. -/
theorem substitute_of_not_mentions {literal : Literal} (h : ¬ literal.Mentions name) :
    literal.substitute name constant = literal := by
  induction literal with
  | var other =>
    have hne : other ≠ name := by
      rintro rfl
      exact h .here
    rw [substitute, if_neg hne]
  | list items ih =>
    rw [substitute, substituteItems_eq_map]
    refine congrArg list ((List.map_congr_left fun item hm => ?_).trans (List.map_id items))
    exact ih item hm fun hn => h (.item hm hn)
  | object fields ih =>
    rw [substitute, substituteFields_eq_map]
    refine congrArg object ((List.map_congr_left fun field hm => ?_).trans (List.map_id fields))
    exact congrArg (field.1, ·) (ih field hm fun hn => h (.field hm hn))
  | _ => rfl

end Literal

/-- An argument with a constant in place of a variable. -/
def Argument.substitute (name : Name) (argument : Argument) (constant : Literal) : Argument :=
  { argument with value := argument.value.substitute name constant }

/-! ## 2. The places of a variable -/

/-- The built-in scalar types refuse lists and objects, whatever is in them. -/
theorem Scalar.coerceLiteral_substitute {type : ScalarType} (hm : type ∈ builtIn)
    {literal : Literal} {name : Name} (hn : literal ≠ .variable name) (constant : Literal) :
    type.coerceLiteral (literal.substitute name constant) = type.coerceLiteral literal := by
  simp only [builtIn, List.mem_cons, List.not_mem_nil, or_false] at hm
  cases literal with
  | «variable» other =>
    have hne : other ≠ name := by
      rintro rfl
      exact hn rfl
    rw [Literal.substitute, if_neg hne]
  | list items => rcases hm with rfl | rfl | rfl | rfl | rfl <;> rfl
  | object fields => rcases hm with rfl | rfl | rfl | rfl | rfl <;> rfl
  | _ => rfl

theorem EnumType.coerceLiteral_substitute (type : EnumType) {literal : Literal} {name : Name}
    (hn : literal ≠ .variable name) (constant : Literal) :
    type.coerceLiteral (literal.substitute name constant) = type.coerceLiteral literal := by
  cases literal with
  | «variable» other =>
    have hne : other ≠ name := by
      rintro rfl
      exact hn rfl
    rw [Literal.substitute, if_neg hne]
  | _ => rfl

namespace Schema

variable {schema : Schema} {name : Name} {declaredType : TypeRef}

/-- At a place, a variable of a nullable type may be replaced: where it stands itself, the type is
that of the variable, or the same made non-null, and what a scalar type of the author is given does
not have the variable inside. -/
structure Replaceable (schema : Schema) (name : Name) (declaredType : TypeRef) (place : Place) :
    Prop where
  type : place.literal = .variable name → place.type.nullable = declaredType
  custom : ∀ scalarName required, place.type = .named scalarName required →
    ∀ type, schema.types.get? scalarName = some (.scalar type) → type ∉ Scalar.builtIn →
      place.literal.Mentions name → place.literal = .variable name

theorem coerceLeafLiteral_substitute {literal : Literal} {leafName : Name} {required : Bool}
    (h : schema.Replaceable name declaredType ⟨literal, .named leafName required⟩)
    (hn : literal ≠ .variable name) (constant : Literal) :
    schema.coerceLeafLiteral (literal.substitute name constant) leafName =
      schema.coerceLeafLiteral literal leafName := by
  unfold coerceLeafLiteral
  cases ht : schema.types.get? leafName with
  | none => rfl
  | some type =>
    cases type with
    | scalar type =>
      dsimp only
      by_cases hm : type ∈ Scalar.builtIn
      · rw [Scalar.coerceLiteral_substitute hm hn]
      · have hmentions : ¬ literal.Mentions name := fun hmentions =>
          hn (h.custom leafName required rfl type ht hm hmentions)
        rw [Literal.substitute_of_not_mentions hmentions]
    | enum type => exact congrArg (Option.getD · .null) (type.coerceLiteral_substitute hn constant)
    | _ => rfl

/-- A literal with a constant in place of a variable is read like the literal, if the variable has
the value of the constant at its type and stands at places of this type. -/
theorem coerceLiteral_substitute {values : Entries Value} {constant : Literal}
    (hc : constant.Constant)
    (hv : values.get? name = some (schema.coerceLiteral [] constant declaredType))
    {literal : Literal} {type : TypeRef}
    (h : schema.Everywhere (schema.Replaceable name declaredType) literal type) :
    schema.coerceLiteral values (literal.substitute name constant) type =
      schema.coerceLiteral values literal type := by
  induction literal, type using Literal.readInduct with
  | null type => rfl
  | var other type =>
    rw [Literal.substitute]
    split
    · next hname =>
      subst hname
      -- The place may exclude null where the declared type does not, which reading does not see.
      rw [coerceLiteral_of_constant hc, ← coerceLiteral_nullable, h.here.type rfl, coerceLiteral,
        hv, Option.getD_some]
    · rfl
  | items items item required ih =>
    rw [Literal.substitute, Literal.substituteItems_eq_map, coerceLiteral_list, coerceLiteral_list,
      List.map_map]
    exact congrArg Value.list
      (List.map_congr_left fun literal hm => ih literal hm (h.step (.item hm)))
  | single literal item required hs ih =>
    rw [coerceLiteral_single values (Literal.isSingle_substitute hs),
      coerceLiteral_single values hs, ih (h.step (.single hs))]
  | named literal leafName required hn hv' ih =>
    rcases schema.object_or_leaf Literal.object literal leafName with ⟨fields, type, rfl, ht⟩ | hl
    · rw [Literal.substitute, coerceLiteral_object values _ ht,
        coerceLiteral_object values fields ht]
      refine InputObjectType.assemble_congr fun input hm => ?_
      have hfield := h.step (.field ht hm)
      rw [Literal.get?_substituteFields]
      cases hg : Entries.get? fields input.name with
      | none => rfl
      | some literal =>
        rw [hg] at hfield
        exact ih input.name literal hg input.type hfield
    · obtain ⟨hn', hv'', ho⟩ := @Literal.substitute_kind name constant literal hn hv'
      have hl' : (∀ fields, literal.substitute name constant ≠ .object fields) ∨
          ∀ type, schema.types.get? leafName ≠ some (.input type) :=
        hl.imp_left fun hobject fields hfields =>
          (ho fields hfields).elim fun fields hfields => hobject fields hfields
      rw [coerceLiteral_leaf values hn' hv'' hl', coerceLiteral_leaf values hn hv' hl,
        coerceLeafLiteral_substitute h.here (hv' name)]

/-! ## 3. Arguments -/

/-- The arguments that are read have a variable at replaceable places only. -/
def ArgumentsReplaceable (schema : Schema) (name : Name) (declaredType : TypeRef)
    (declared : List InputValueDefinition) (given : List Argument) : Prop :=
  ∀ input ∈ declared, ∀ argument,
    (given.find? fun argument => argument.name = input.name) = some argument →
      schema.Everywhere (schema.Replaceable name declaredType) argument.value input.type

theorem coerceArguments_substitute {values : Entries Value} {constant : Literal}
    (hc : constant.Constant)
    (hv : values.get? name = some (schema.coerceLiteral [] constant declaredType))
    {declared : List InputValueDefinition} {given : List Argument}
    (h : schema.ArgumentsReplaceable name declaredType declared given) :
    schema.coerceArguments values declared (given.map (·.substitute name constant)) =
      schema.coerceArguments values declared given := by
  unfold coerceArguments
  refine congrArg Entries.ofList (List.map_congr_left fun input hm => ?_)
  have hname : ((fun argument : Argument => decide (argument.name = input.name)) ∘
      fun argument : Argument => argument.substitute name constant) =
        fun argument : Argument => decide (argument.name = input.name) := rfl
  rw [List.find?_map, hname]
  cases hg : given.find? fun argument => argument.name = input.name with
  | none => rfl
  | some argument =>
    have hvalue := coerceLiteral_substitute hc hv (h input hm argument hg)
    simp only [Option.map_some, Argument.substitute, hvalue]

end Schema

end GraphQL
