import GraphQL.Proofs.Input.Defaults

/-!
# `GraphQL/Proofs/Input/EnumNames.lean` — names of enum values as input

In a document an enum value is its name. With a request it comes as a text, and a text is looked up
among the internal values, like whatever a resolver returns. So the name of an enum value can be
supplied as a text only if it owns that text (`EnumType.Owns`): it is the internal value of the
value of that name, and of no value in front of it. That is so for all names where internal values
are left to be the names themselves. Otherwise the text is refused, or it stands for another value.

Names can stand deep inside lists and input objects, and nothing on the way makes up for them: what
is supplied comes to the same as the literal if and only if, at every place that reading comes to,
the name that is given there owns its text (`Schema.ownNamed_iff`).
-/

set_option autoImplicit false

namespace GraphQL

theorem Value.equals_string_iff {value : Value} {text : String} :
    value.equals (.string text) = true ↔ value = .string text := by
  cases value <;> simp [Value.equals]

namespace EnumType

variable {type : EnumType} {name : Name}

/-- The text of a name is the internal value of the value of that name, and of none before it. -/
def Owns (type : EnumType) (name : Name) : Prop :=
  ∃ before entry after, type.values.entries = before ++ entry :: after ∧ entry.name = name ∧
    entry.value = .string name ∧ ∀ other ∈ before, other.value ≠ .string name

/-- A text stands for the first value that has it as its internal value. -/
theorem coerce_string_eq_some_iff {text : String} {value : Value} :
    type.coerce (.string text) = some value ↔
      ∃ before entry after, type.values.entries = before ++ entry :: after ∧
        value = .string entry.name ∧ entry.value = .string text ∧
        ∀ other ∈ before, other.value ≠ .string text := by
  rw [coerce, Option.map_eq_some_iff]
  simp only [List.find?_eq_some_iff_append, Value.equals_string_iff, Bool.not_eq_true',
    Bool.eq_false_iff, ne_eq]
  constructor
  · rintro ⟨entry, ⟨hvalue, before, after, he, hb⟩, rfl⟩
    exact ⟨before, entry, after, he, rfl, hvalue, hb⟩
  · rintro ⟨before, entry, after, he, rfl, hvalue, hb⟩
    exact ⟨entry, ⟨hvalue, before, after, he, hb⟩, rfl⟩

theorem isSome_coerce_string_iff {text : String} :
    (type.coerce (.string text)).isSome = true ↔
      ∃ entry ∈ type.values.entries, entry.value = .string text := by
  rw [coerce, Option.isSome_map, List.find?_isSome]
  simp only [Value.equals_string_iff]

theorem owns_iff : type.Owns name ↔ type.coerce (.string name) = some (.string name) := by
  simp only [coerce_string_eq_some_iff, Owns, Value.string.injEq, eq_comm (a := name)]

theorem get?_values {entry : EnumValueDefinition} (hm : entry ∈ type.values.entries) :
    type.values.get? entry.name = some entry :=
  Table.get?_eq_some_iff.mpr ⟨hm, rfl⟩

theorem coerceLiteral_enum {entry : EnumValueDefinition} (hm : entry ∈ type.values.entries) :
    type.coerceLiteral (.enum entry.name) = some (.string entry.name) := by
  rw [coerceLiteral, get?_values hm, Option.map_some]

/-- Where every value stands for itself, every name owns its text. -/
theorem SelfNamed.owns (hs : type.SelfNamed) {entry : EnumValueDefinition}
    (hm : entry ∈ type.values.entries) : type.Owns entry.name := by
  rw [owns_iff, hs.coerce_string, get?_values hm, Option.map_some]

end EnumType

namespace Schema

variable {schema : Schema}

/-! ## 2. Places that differ in the names of enum values at most -/

/-- What stands at a place is accepted there as a literal, and it comes to the same when it is
supplied; of an enum type it is only said that it has a value of the name that is given. -/
inductive Fits (schema : Schema) : Place → Prop where
  | null {type : TypeRef} (hr : type.required = false) : Fits schema ⟨.null, type⟩
  | list {items : List Literal} {item : TypeRef} {required : Bool} :
    Fits schema ⟨.list items, .list item required⟩
  | single {literal : Literal} {item : TypeRef} {required : Bool} (hs : literal.isSingle = true) :
    Fits schema ⟨literal, .list item required⟩
  | object {fields : Entries Literal} {name : Name} {required : Bool} {type : InputObjectType}
    (ht : schema.types.get? name = some (.input type)) :
    Fits schema ⟨.object fields, .named name required⟩
  | enum {entry : EnumValueDefinition} {name : Name} {required : Bool} {type : EnumType}
    (ht : schema.types.get? name = some (.enum type)) (hm : entry ∈ type.values.entries) :
    Fits schema ⟨.enum entry.name, .named name required⟩
  | scalar {literal : Literal} {name : Name} {required : Bool} {type : ScalarType} {value : Value}
    (ht : schema.types.get? name = some (.scalar type)) (hn : literal ≠ .null)
    (hv : ∀ name, literal ≠ .variable name) (hnull : literal.toJson.isNull = false)
    (hliteral : type.coerceLiteral literal = some value)
    (hjson : type.coerce (.ofJson literal.toJson) = some value) (hvalue : value.isNull = false) :
    Fits schema ⟨literal, .named name required⟩

/-- The built-in scalar types read plain literals and their JSON forms alike. -/
theorem Fits.builtIn {literal : Literal} {name : Name} {required : Bool} {type : ScalarType}
    (ht : schema.types.get? name = some (.scalar type)) (hm : type ∈ Scalar.builtIn)
    (hn : literal ≠ .null) (hp : literal.Plain) {value : Value}
    (hliteral : type.coerceLiteral literal = some value) :
    schema.Fits ⟨literal, .named name required⟩ := by
  have hjson := Scalar.coerce_toJson hm hp hliteral
  refine .scalar ht hn ?_ (isNull_toJson_of_coerce (Scalar.coerce_null hm) hjson) hliteral hjson ?_
  · rintro other rfl
    cases hp
  · refine Bool.eq_false_iff.mpr fun hvalue => ?_
    exact Scalar.coerce_ne_null hm _ (Value.isNull_iff.mp hvalue ▸ hjson)

/-- Where the name of an enum value stands, it owns its text. -/
def OwnNamed (schema : Schema) (place : Place) : Prop :=
  ∀ text, place.literal = .enum text → ∀ name required, place.type = .named name required →
    ∀ type, schema.types.get? name = some (.enum type) → type.Owns text

section Place

variable {literal next : Literal} {type nextType : TypeRef}

/-- A single value keeps to the item types of a list, so the JSON form is that of a leaf at last. -/
theorem isNull_toJson_of_fits (h : schema.Everywhere schema.Fits literal type)
    (hn : literal ≠ .null) : literal.toJson.isNull = false := by
  induction type with
  | named name required =>
    cases h.here with
    | null => exact absurd rfl hn
    | object =>
      rw [Literal.toJson]
      rfl
    | enum =>
      rw [Literal.toJson]
      rfl
    | scalar _ _ _ hnull => exact hnull
  | list item required ih =>
    cases h.here with
    | null => exact absurd rfl hn
    | list =>
      rw [Literal.toJson]
      rfl
    | single hs => exact ih (h.step (.single hs))

theorem Fits.agrees_null (h : schema.Fits ⟨.null, type⟩) : schema.Agrees .null type := by
  cases h with
  | null hr =>
    refine ⟨?_, fun values => ?_, fun hn => absurd rfl hn⟩
    · rw [Literal.toJson, isValid_ofJson_null, hr, Bool.not_false]
    · rw [Literal.toJson, coerceSupplied_ofJson_null, coerceLiteral_null]
  | single hs => cases hs
  | scalar _ hn => exact absurd rfl hn

/-- Where all names of enum values own their texts, both forms agree. -/
theorem agrees_of_ownNamed (h : schema.Everywhere schema.Fits literal type)
    (ho : schema.Everywhere schema.OwnNamed literal type) : schema.Agrees literal type := by
  induction literal, type using Literal.readInduct with
  | null type => exact h.here.agrees_null
  | var name type =>
    cases h.here with
    | scalar _ _ hv => exact absurd rfl (hv name)
    | single hs => cases hs
  | items items item required ih =>
    exact agrees_list fun literal hm => ih literal hm (h.step (.item hm)) (ho.step (.item hm))
  | single literal item required hs ih =>
    exact (ih (h.step (.single hs)) (ho.step (.single hs))).single hs
  | named literal name required hn hv ih =>
    cases h.here with
    | null => exact absurd rfl hn
    | enum ht hm =>
      have hjson := EnumType.owns_iff.mp (ho.here _ rfl _ _ rfl _ ht)
      exact agrees_enum hn hv ht rfl (EnumType.coerceLiteral_enum hm) hjson
    | scalar ht _ _ hnull hliteral hjson => exact agrees_scalar hn hv ht hnull hliteral hjson
    | @object fields _ _ type ht =>
      refine agrees_object ht fun input hm => ?_
      have hfit := h.step (.field ht hm)
      have hown := ho.step (.field ht hm)
      cases hg : Entries.get? fields input.name with
      | none =>
        rw [hg] at hfit
        exact hfit.here.agrees_null
      | some literal =>
        rw [hg] at hfit hown
        exact ih input.name literal hg input.type hfit hown

theorem isNull_coerceLiteral_of_fits (h : schema.Fits ⟨literal, type⟩) (hn : literal ≠ .null)
    (values : Entries Value) : (schema.coerceLiteral values literal type).isNull = false := by
  cases h with
  | null => exact absurd rfl hn
  | list =>
    rw [coerceLiteral_list]
    rfl
  | single hs =>
    rw [coerceLiteral_single values hs]
    rfl
  | object ht =>
    rw [coerceLiteral_object values _ ht]
    rfl
  | enum ht hm =>
    rw [coerceLiteral_leaf values (by simp) (by simp) (Or.inl (by simp)), coerceLeafLiteral, ht]
    simp only [EnumType.coerceLiteral_enum hm]
    rfl
  | scalar ht hn hv hnull hliteral hjson hvalue =>
    rw [coerceLiteral_leaf values hn hv (Or.inr (by simp [ht])), coerceLeafLiteral, ht]
    simpa only [hliteral, Option.getD_some] using hvalue

/-- What is valid is read as null for null alone. -/
theorem isNull_coerceSupplied_of_fits (h : schema.Everywhere schema.Fits literal type)
    (hn : literal ≠ .null) (hvalid : schema.isValid (.ofJson literal.toJson) type = true) :
    (schema.coerceSupplied (.ofJson literal.toJson) type).isNull = false := by
  cases h.here with
  | null => exact absurd rfl hn
  | list =>
    rw [Literal.toJson, coerceSupplied_ofJson_array]
    rfl
  | single hs =>
    rw [coerceSupplied_ofJson_single (Literal.isSingle_toJson hs (isNull_toJson_of_fits h hn))]
    rfl
  | object ht =>
    rw [Literal.toJson, coerceSupplied_ofJson_object _ ht]
    rfl
  | enum ht hm =>
    rw [Literal.toJson, isValid_ofJson_leaf rfl (Or.inl (by simp)), isValidLeaf, ht] at hvalid
    rw [Literal.toJson, coerceSupplied_ofJson_leaf rfl (Or.inl (by simp)), coerceLeaf, ht]
    obtain ⟨value, hvalue⟩ := Option.isSome_iff_exists.mp hvalid
    simp only [hvalue]
    exact EnumType.isNull_of_coerce hvalue
  | scalar ht _ _ hnull _ hjson hvalue =>
    rw [coerceSupplied_ofJson_leaf hnull (Or.inr (by simp [ht])), coerceLeaf, ht]
    simpa only [hjson, Option.getD_some] using hvalue

theorem withDefault_eq_of_assemble_eq {type : InputObjectType}
    {field field' : InputValueDefinition → Value} (h : type.assemble field' = type.assemble field)
    {input : InputValueDefinition} (hm : input ∈ type.fields.entries) :
    input.withDefault (field' input) = input.withDefault (field input) := by
  unfold InputObjectType.assemble at h
  exact (Prod.mk.inj (List.map_inj_left.mp (Value.map.inj h) input hm)).2

/-- Agreement goes on at the next places. Values that differ there differ here: a default stands in
for null alone, and both are null or neither is. -/
theorem Agrees.step (ha : schema.Agrees literal type)
    (h : schema.Everywhere schema.Fits literal type)
    (hstep : schema.Step ⟨literal, type⟩ ⟨next, nextType⟩) : schema.Agrees next nextType := by
  have hnext := h.step hstep
  cases hstep with
  | item hm =>
    have hvalid := ha.valid
    rw [Literal.toJson, Literal.itemsToJson_eq_map, isValid_ofJson_array, List.all_map,
      List.all_eq_true] at hvalid
    refine ⟨hvalid next hm, fun values => ?_, isNull_toJson_of_fits hnext⟩
    have hsame := ha.same values
    rw [Literal.toJson, Literal.itemsToJson_eq_map, coerceSupplied_ofJson_array, List.map_map,
      coerceLiteral_list] at hsame
    exact List.map_inj_left.mp (Value.list.inj hsame) next hm
  | single hs =>
    have hn : literal ≠ .null := by
      rintro rfl
      cases hs
    have hjson := Literal.isSingle_toJson hs (ha.isNull hn)
    refine ⟨?_, fun values => ?_, ha.isNull⟩
    · rw [← ha.valid, isValid_ofJson_single hjson]
    · have hsame := ha.same values
      rw [coerceSupplied_ofJson_single hjson, coerceLiteral_single values hs] at hsame
      exact List.head_eq_of_cons_eq (Value.list.inj hsame)
  | @field fields name required type input ht hm =>
    have hvalid := ha.valid
    rw [Literal.toJson, isValid_ofJson_object _ ht, List.all_eq_true] at hvalid
    have hfield := hvalid input hm
    rw [Literal.getD_get?_fieldsToJson] at hfield
    refine ⟨hfield, fun values => ?_, isNull_toJson_of_fits hnext⟩
    by_cases hn : (fields.get? input.name).getD .null = .null
    · rw [hn, coerceLiteral_null, Literal.toJson, coerceSupplied_ofJson_null]
    have hsame := ha.same values
    rw [Literal.toJson, coerceSupplied_ofJson_object _ ht,
      coerceLiteral_object values fields ht] at hsame
    have hdefault := withDefault_eq_of_assemble_eq hsame hm
    rw [Literal.getD_get?_fieldsToJson] at hdefault
    rwa [input.withDefault_of_isNull_eq_false (isNull_coerceSupplied_of_fits hnext hn hfield),
      input.withDefault_of_isNull_eq_false
        (isNull_coerceLiteral_of_fits hnext.here hn values)] at hdefault

/-- At the name of an enum value, both forms agree only if the name owns its text. -/
theorem Agrees.ownNamed (ha : schema.Agrees literal type) (h : schema.Fits ⟨literal, type⟩) :
    schema.OwnNamed ⟨literal, type⟩ := by
  rintro text rfl name required rfl type ht
  cases h with
  | enum ht' hm =>
    cases ht.symm.trans ht'
    have hvalid := ha.valid
    have hsame := ha.same []
    rw [Literal.toJson, isValid_ofJson_leaf rfl (Or.inl (by simp)), isValidLeaf, ht] at hvalid
    rw [Literal.toJson, coerceSupplied_ofJson_leaf rfl (Or.inl (by simp)), coerceLeaf, ht,
      coerceLiteral_leaf [] (by simp) (by simp) (Or.inl (by simp)), coerceLeafLiteral, ht] at hsame
    obtain ⟨value, hvalue⟩ := Option.isSome_iff_exists.mp hvalid
    simp only [hvalue, EnumType.coerceLiteral_enum hm, Option.getD_some] at hsame
    exact EnumType.owns_iff.mpr (hvalue.trans (congrArg some hsame))
  | scalar ht' => cases ht.symm.trans ht'

/-- Both forms agree exactly if the names of enum values own their texts wherever they stand. -/
theorem agrees_iff_ownNamed (h : schema.Everywhere schema.Fits literal type) :
    schema.Agrees literal type ↔ schema.Everywhere schema.OwnNamed literal type := by
  refine ⟨fun ha place hp => ?_, agrees_of_ownNamed h⟩
  suffices hs : schema.Everywhere schema.Fits place.literal place.type ∧
      schema.Agrees place.literal place.type from hs.2.ownNamed hs.1.here
  induction hp with
  | refl => exact ⟨h, ha⟩
  | tail _ hstep ih => exact ⟨ih.1.step hstep, ih.2.step ih.1 hstep⟩

end Place

/-! ## 3. Literal or variable -/

/-- A variable that is given the JSON form of a literal has the value of the literal exactly if the
names of enum values in it own their texts. -/
theorem coerceVariable_toJson_iff {literal : Literal} {definition : VariableDefinition}
    (h : schema.Everywhere schema.Fits literal definition.type)
    (hl : (schema.get? definition.type.innermost).isSome = true)
    (hnull : literal = .null → definition.default = none) {supplied : Json.Members}
    (hg : supplied.get? definition.name = some literal.toJson) :
    (∃ value, schema.coerceVariable supplied definition = .ok value ∧
      ∀ values, schema.coerceLiteral values literal definition.type = value) ↔
      schema.Everywhere schema.OwnNamed literal definition.type := by
  have hdefault : literal.toJson.isNull = true → definition.default = none := by
    intro hjson
    refine hnull (by_contra fun hn => ?_)
    rw [isNull_toJson_of_fits h hn] at hjson
    cases hjson
  rw [← agrees_iff_ownNamed h]
  cases hvalid : schema.isValid (.ofJson literal.toJson) definition.type with
  | false =>
    rw [coerceVariable_of_invalid hl (by rwa [hg])]
    constructor
    · rintro ⟨value, ⟨⟩, -⟩
    · intro ha
      rw [ha.valid] at hvalid
      cases hvalid
  | true =>
    rw [coerceVariable_of_given hl hg hdefault hvalid]
    refine ⟨fun ⟨value, hv, hsame⟩ => ⟨hvalid, fun values => ?_, isNull_toJson_of_fits h⟩,
      fun ha => ⟨_, rfl, fun values => (ha.same values).symm⟩⟩
    rw [hsame values, Except.ok.inj hv]

/-- An enum value by name and by text. As a literal its name is always accepted and stands for
itself. As a text that is supplied it is accepted exactly if it is the internal value of some value,
and then it stands for the first such value. So, anywhere in lists and input objects, it is the same
input in both ways if and only if the name owns its text; and an argument is then the same, whether
the literal is written for it, or a variable of its type that is given the JSON form. -/
theorem enumInput_agrees_iff (schema : Schema) :
    (∀ name required type, schema.types.get? name = some (.enum type) →
      ∀ entry ∈ type.values.entries,
        (∀ values, schema.coerceLiteral values (.enum entry.name) (.named name required) =
          .string entry.name) ∧
        (schema.isValid (.ofJson (.string entry.name)) (.named name required) = true ↔
          ∃ other ∈ type.values.entries, other.value = .string entry.name) ∧
        ∀ before first after, type.values.entries = before ++ first :: after →
          first.value = .string entry.name →
          (∀ other ∈ before, other.value ≠ .string entry.name) →
          schema.coerceSupplied (.ofJson (.string entry.name)) (.named name required) =
            .string first.name) ∧
    ∀ (literal : Literal) (definition : VariableDefinition) (supplied : Json.Members),
      schema.Everywhere schema.Fits literal definition.type →
      (schema.get? definition.type.innermost).isSome = true →
      (literal = .null → definition.default = none) →
      supplied.get? definition.name = some literal.toJson →
      ((∃ value, schema.coerceVariable supplied definition = .ok value ∧
          ∀ values, schema.coerceLiteral values literal definition.type = value) ↔
        schema.Everywhere schema.OwnNamed literal definition.type) ∧
      (schema.Everywhere schema.OwnNamed literal definition.type →
        ∀ before after values, (∀ other ∈ after, other.name ≠ definition.name) →
          schema.coerceVariables (before ++ definition :: after) supplied = .ok values →
          ∀ inputs name, (∀ input ∈ inputs, input.name = name →
            input.type.nullable = definition.type.nullable) →
          ∀ front back,
            schema.coerceArguments values inputs
                (front ++ ⟨name, .variable definition.name⟩ :: back) =
              schema.coerceArguments values inputs (front ++ ⟨name, literal⟩ :: back)) := by
  constructor
  · intro name required type ht entry hm
    refine ⟨fun values => ?_, ?_, fun before first after he hvalue hb => ?_⟩
    · rw [coerceLiteral_leaf values (by simp) (by simp) (Or.inl (by simp)), coerceLeafLiteral, ht]
      simp only [EnumType.coerceLiteral_enum hm, Option.getD_some]
    · rw [isValid_ofJson_leaf rfl (Or.inl (by simp)), isValidLeaf, ht]
      exact EnumType.isSome_coerce_string_iff
    · have hcoerce := EnumType.coerce_string_eq_some_iff.mpr ⟨_, _, _, he, rfl, hvalue, hb⟩
      rw [coerceSupplied_ofJson_leaf rfl (Or.inl (by simp)), coerceLeaf, ht]
      exact congrArg (Option.getD · .null) hcoerce
  · intro literal definition supplied h hl hnull hg
    have hiff := coerceVariable_toJson_iff h hl hnull hg
    refine ⟨hiff, fun ho before after values ha hv inputs name hinputs front back => ?_⟩
    obtain ⟨value, hvalue, hsame⟩ := hiff.mpr ho
    obtain ⟨value', hget, hvalue'⟩ := get?_of_coerceVariablesInto_of_last ha hv
    cases hvalue.symm.trans hvalue'
    refine coerceArguments_congr values (fun input hi hname => ?_) front back
    rw [coerceLiteral, hget, Option.getD_some,
      coerceLiteral_congr_nullable values literal (hinputs input hi hname), hsame]

end Schema

/-! ## 4. Samples -/

namespace EnumSample

def red : EnumValueDefinition where
  name := "RED"
  value := .int 0

def green : EnumValueDefinition where
  name := "GREEN"
  value := .string "BLUE"

def blue : EnumValueDefinition where
  name := "BLUE"

def cyan : EnumValueDefinition where
  name := "CYAN"

/-- The value of `RED` is no text, and the text of `BLUE` belongs to `GREEN`. -/
def color : EnumType where
  name := "Color"
  values := .ofList [red, green, blue, cyan]

def palette : InputObjectType where
  name := "Palette"
  fields := .ofList
    [{ name := "main", type := .named "Color" true, default := some (.string "RED") },
      { name := "others", type := .list (.named "Color" true) false }]

def description : SchemaDescription where
  query := some "Query"
  types :=
    [.object
      { name := "Query"
        fields := .ofList
          [{ name := "paint"
             type := .named "String" false
             arguments := [{ name := "palette", type := .named "Palette" false }] }] },
      .input palette,
      .enum color]

theorem isSome_build : description.build.toOption.isSome = true := by decide

def schema : Schema :=
  description.build.toOption.get isSome_build

theorem build_eq_ok : description.build = .ok schema :=
  Except.eq_ok_get isSome_build

theorem get?_color : schema.types.get? "Color" = some (.enum color) := by
  have hm : .enum color ∈ description.types := by simp [description]
  exact (SchemaDescription.builds build_eq_ok).get?_eq_some_iff.mpr
    ⟨List.mem_append_left _ (List.mem_append_left _ hm), rfl⟩

theorem get?_palette : schema.types.get? "Palette" = some (.input palette) := by
  have hm : .input palette ∈ description.types := by simp [description]
  exact (SchemaDescription.builds build_eq_ok).get?_eq_some_iff.mpr
    ⟨List.mem_append_left _ (List.mem_append_left _ hm), rfl⟩

theorem cyan_mem : cyan ∈ color.values.entries := by
  show cyan ∈ [red, green, blue, cyan]
  simp

theorem owns_cyan : color.Owns "CYAN" := by
  refine ⟨[red, green, blue], cyan, [], rfl, rfl, rfl, ?_⟩
  simp [red, green, blue]

/-- An enum value in an input object, and the only item of a list in it. -/
def literal : Literal :=
  .object [("main", .enum "CYAN"), ("others", .enum "CYAN")]

/-- The places that reading `literal` comes to. -/
theorem everywhere_literal {P : Schema.Place → Prop} (hpalette : P ⟨literal, .named "Palette" true⟩)
    (hothers : P ⟨.enum "CYAN", .list (.named "Color" true) false⟩)
    (hcolor : P ⟨.enum "CYAN", .named "Color" true⟩) :
    schema.Everywhere P literal (.named "Palette" true) := by
  have hleaf : schema.Everywhere P (.enum "CYAN") (.named "Color" true) :=
    .of_steps hcolor fun _ hstep => by cases hstep
  have hlist : schema.Everywhere P (.enum "CYAN") (.list (.named "Color" true) false) :=
    .of_steps hothers fun _ hstep => by
      cases hstep with
      | single => exact hleaf
  refine .of_steps hpalette fun _ hstep => ?_
  cases hstep with
  | field ht hm =>
    cases get?_palette.symm.trans ht
    have hfields : ∀ input ∈ palette.fields.entries, schema.Everywhere P
        ((Entries.get? literal.fields input.name).getD .null) input.type :=
      List.forall_mem_cons.mpr ⟨hleaf, List.forall_mem_singleton.mpr hlist⟩
    exact hfields _ hm

theorem fits_literal : schema.Everywhere schema.Fits literal (.named "Palette" true) :=
  everywhere_literal (.object get?_palette) (.single rfl) (.enum get?_color cyan_mem)

theorem ownNamed_literal : schema.Everywhere schema.OwnNamed literal (.named "Palette" true) := by
  have hcolor : schema.OwnNamed ⟨.enum "CYAN", .named "Color" true⟩ := by
    rintro text ⟨⟩ name required ⟨⟩ type ht
    cases get?_color.symm.trans ht
    exact owns_cyan
  refine everywhere_literal ?_ ?_ hcolor
  · rintro text ⟨⟩
  · rintro text - name required ⟨⟩

def paletteVariable : VariableDefinition where
  location := .start
  name := "palette"
  type := .named "Palette" true
  default := none
  directives := []

def colorVariable : VariableDefinition where
  location := .start
  name := "color"
  type := .named "Color" false
  default := none
  directives := []

end EnumSample

namespace Schema

theorem enumInput_agrees_iff_sample :
    ∃ values, EnumSample.schema.coerceVariables [EnumSample.paletteVariable]
        [("palette", EnumSample.literal.toJson)] = .ok values ∧
      EnumSample.schema.coerceArguments values
          [{ name := "palette", type := .named "Palette" false }]
          [⟨"palette", .variable "palette"⟩] =
        EnumSample.schema.coerceArguments values
          [{ name := "palette", type := .named "Palette" false }]
          [⟨"palette", EnumSample.literal⟩] := by
  have hl : (EnumSample.schema.get? "Palette").isSome = true := by decide
  obtain ⟨hiff, harguments⟩ := (enumInput_agrees_iff EnumSample.schema).2 EnumSample.literal
    EnumSample.paletteVariable [("palette", EnumSample.literal.toJson)] EnumSample.fits_literal hl
    (fun h => by cases h) rfl
  obtain ⟨value, hvalue, -⟩ := hiff.mpr EnumSample.ownNamed_literal
  have hv : EnumSample.schema.coerceVariables [EnumSample.paletteVariable]
      [("palette", EnumSample.literal.toJson)] = .ok [("palette", value)] := by
    rw [coerceVariables, coerceVariablesInto, hvalue]
    rfl
  refine ⟨_, hv, harguments EnumSample.ownNamed_literal [] [] _ (List.forall_mem_nil _) hv _
    "palette" (List.forall_mem_singleton.mpr fun _ => rfl) [] []⟩

/-- A name that does not own its text: as a literal it stands for itself; as a text it is refused,
or it stands for another value. And with a type that is not listed, even a text that a name owns is
null when it is supplied. -/
theorem not_enumInput_agrees :
    (EnumSample.description.build = .ok EnumSample.schema ∧
      EnumSample.schema.types.get? "Color" = some (.enum EnumSample.color) ∧
      (EnumSample.schema.get? "Color").isSome = true) ∧
    (EnumSample.schema.coerceLiteral [] (.enum "RED") (.named "Color" false) = .string "RED" ∧
      EnumSample.schema.coerceVariables [EnumSample.colorVariable] [("color", .string "RED")] =
        .error (.invalidVariable "color" .start)) ∧
    (EnumSample.schema.coerceLiteral [] (.enum "BLUE") (.named "Color" false) = .string "BLUE" ∧
      EnumSample.schema.coerceVariables [EnumSample.colorVariable] [("color", .string "BLUE")] =
        .ok [("color", .string "GREEN")]) ∧
    (UnlistedSample.description.build = .ok UnlistedSample.schema ∧
      UnlistedSample.level.Owns "LOW" ∧
      UnlistedSample.schema.coerceLiteral [] (.enum "LOW") (.named "Level" false) =
        .string "LOW" ∧
      UnlistedSample.schema.coerceVariables [UnlistedSample.variableDefinition]
          [("level", .string "LOW")] =
        .ok [("level", .null)]) := by
  have hl : (EnumSample.schema.get? "Color").isSome = true := by decide
  have hrefused : EnumSample.schema.coerceVariable [("color", .string "RED")]
      EnumSample.colorVariable = .error (.invalidVariable "color" .start) := by
    refine coerceVariable_of_invalid hl ?_
    rw [EnumSample.colorVariable]
    refine (isValid_ofJson_leaf rfl (Or.inl (by simp [Entries.get?]))).trans ?_
    rw [isValidLeaf, EnumSample.get?_color]
    rfl
  have hother : EnumSample.schema.coerceVariable [("color", .string "BLUE")]
      EnumSample.colorVariable = .ok (.string "GREEN") := by
    refine (coerceVariable_of_given hl rfl (fun _ => rfl) ?_).trans (congrArg Except.ok ?_)
    · refine (isValid_ofJson_leaf rfl (Or.inl (by simp))).trans ?_
      rw [isValidLeaf, EnumSample.get?_color]
      rfl
    · refine (coerceSupplied_ofJson_leaf rfl (Or.inl (by simp))).trans ?_
      rw [coerceLeaf, EnumSample.get?_color]
      rfl
  have hunlisted : (UnlistedSample.schema.get? "Level").isSome = false := by decide
  refine ⟨⟨EnumSample.build_eq_ok, EnumSample.get?_color, hl⟩, ⟨?_, ?_⟩, ⟨?_, ?_⟩,
    UnlistedSample.build_eq_ok, ⟨[], _, _, rfl, rfl, rfl, List.forall_mem_nil _⟩, ?_, ?_⟩
  · rw [coerceLiteral_leaf [] (by simp) (by simp) (Or.inl (by simp)), coerceLeafLiteral,
      EnumSample.get?_color]
    rfl
  · rw [coerceVariables, coerceVariablesInto, hrefused]
  · rw [coerceLiteral_leaf [] (by simp) (by simp) (Or.inl (by simp)), coerceLeafLiteral,
      EnumSample.get?_color]
    rfl
  · rw [coerceVariables, coerceVariablesInto, hother]
    rfl
  · rw [coerceLiteral_leaf [] (by simp) (by simp) (Or.inl (by simp)), coerceLeafLiteral,
      UnlistedSample.get?_level]
    rfl
  · rw [coerceVariables, coerceVariablesInto, coerceVariable_of_unlisted hunlisted]
    rfl

end Schema

end GraphQL
