import Mathlib.Data.List.Find
import Mathlib.Logic.Relation
import GraphQL.Proofs.Input.LookUps
import GraphQL.Proofs.Input.Numerals
import GraphQL.Proofs.Input.Validity

/-!
# `GraphQL/Proofs/Input/Agreement.lean` — literals and variables agree

A client can write an argument in the document, or supply it with the request for a variable. The
first goes through `coerceLiteral`, the second through `isValid` and `coerceSupplied`, and scalar
and enum types read literals by other rules than values. Where a literal fits, the two ways come to
the same (`Schema.coerceSupplied_toJson`): list promotion, defaults, missing and unknown keys and
null line up layer by layer, and at the leaves so do the numbers, minus zero included.

That a literal fits is said of the places that reading it comes to (`Schema.Everywhere`): leaves are
accepted there, and null is allowed where it stands (`Schema.Suits`). One more condition has no
counterpart in the leaves: an input object type must be given an object (`Schema.Structured`). An
empty list at such a type has no leaf that could be refused, and it is null as a literal, but an
error as the value of a variable (`Schema.supplied_ne_literal`).
-/

set_option autoImplicit false

namespace GraphQL

/-! ## 1. The JSON form of a literal -/

/-- The floating-point number that is zero with a sign. -/
def Binary64.minusZero : Float :=
  nearest true 0 1

/-- An integer token as a JSON number. Minus zero is no integer there: it is the floating-point
number of that name. -/
def Json.ofIntToken (text : String) : Json :=
  if text = "-0" then .ofFloat Binary64.minusZero
  else (Scalar.integer? text).elim .null .ofInt

/-- A float token as a JSON number; null if the number is too large to be one. -/
def Json.ofFloatToken (text : String) : Json :=
  (Binary64.read? text.toList).elim .null .ofFloat

theorem Json.ofFloat_eq (x : Float) : ofFloat x = .null ∨ ∃ n, ofFloat x = .number n := by
  unfold ofFloat
  split
  · exact Or.inr ⟨_, rfl⟩
  · exact Or.inl rfl

theorem Json.ofIntToken_eq (text : String) :
    ofIntToken text = .null ∨ ∃ n, ofIntToken text = .number n := by
  unfold ofIntToken
  split
  · exact ofFloat_eq _
  · cases Scalar.integer? text with
    | none => exact Or.inl rfl
    | some n => exact Or.inr ⟨_, rfl⟩

theorem Json.ofFloatToken_eq (text : String) :
    ofFloatToken text = .null ∨ ∃ n, ofFloatToken text = .number n := by
  unfold ofFloatToken
  cases Binary64.read? text.toList with
  | none => exact Or.inl rfl
  | some x => exact ofFloat_eq x

namespace Literal

mutual

/-- The JSON form of a literal, in which enum values are their names. A variable has none. -/
def toJson : Literal → Json
  | .null | .variable _ => .null
  | .boolean b => .boolean b
  | .int text => .ofIntToken text
  | .float text => .ofFloatToken text
  | .string s | .enum s => .string s
  | .list items => .array (itemsToJson items)
  | .object fields => .object (fieldsToJson fields)

/-- The JSON forms of the items of a list. -/
def itemsToJson : List Literal → List Json
  | [] => []
  | item :: rest => toJson item :: itemsToJson rest

/-- The JSON forms of the fields of an object. -/
def fieldsToJson : List (Name × Literal) → List (String × Json)
  | [] => []
  | (key, value) :: rest => (key, toJson value) :: fieldsToJson rest

end

/-- A literal without variables and repeated keys, with integers that fit 64 bits. -/
inductive Plain : Literal → Prop where
  | null : Plain .null
  | boolean (b : Bool) : Plain (.boolean b)
  | int (n : Int64) : Plain (.int (toString n.toInt))
  | minusZero : Plain (.int "-0")
  | float (text : String) : Plain (.float text)
  | string (s : String) : Plain (.string s)
  | enum (name : Name) : Plain (.enum name)
  | list {items : List Literal} (h : ∀ item ∈ items, Plain item) : Plain (.list items)
  | object {fields : List (Name × Literal)} (hk : (fields.map (·.1)).Nodup)
    (h : ∀ field ∈ fields, Plain field.2) : Plain (.object fields)

theorem itemsToJson_eq_map (items : List Literal) : itemsToJson items = items.map toJson := by
  induction items with
  | nil => rfl
  | cons item rest ih => exact congrArg (toJson item :: ·) ih

theorem fieldsToJson_eq_map (fields : List (Name × Literal)) :
    fieldsToJson fields = fields.map fun field => (field.1, toJson field.2) := by
  induction fields with
  | nil => rfl
  | cons field rest ih => exact congrArg ((field.1, toJson field.2) :: ·) ih

/-- A field that is not there has the JSON form of null. -/
theorem getD_get?_fieldsToJson (fields : List (Name × Literal)) (key : Name) :
    (Entries.get? (fieldsToJson fields) key).getD .null =
      ((Entries.get? fields key).getD .null).toJson := by
  rw [fieldsToJson_eq_map, Entries.get?_map]
  cases Entries.get? fields key with
  | none => rfl
  | some literal => rfl

/-- What is no list has no array for its JSON form. -/
theorem isSingle_toJson {literal : Literal} (hs : literal.isSingle = true)
    (hn : literal.toJson.isNull = false) : literal.toJson.isSingle = true := by
  cases literal with
  | null => cases hs
  | «variable» name => cases hs
  | list items => cases hs
  | int text =>
    change (Json.ofIntToken text).isNull = false at hn
    show (Json.ofIntToken text).isSingle = true
    rcases Json.ofIntToken_eq text with h | ⟨n, h⟩
    · rw [h] at hn
      cases hn
    · rw [h]
      rfl
  | float text =>
    change (Json.ofFloatToken text).isNull = false at hn
    show (Json.ofFloatToken text).isSingle = true
    rcases Json.ofFloatToken_eq text with h | ⟨n, h⟩
    · rw [h] at hn
      cases hn
    · rw [h]
      rfl
  | _ => rfl

end Literal

/-! ## 2. Numbers -/

namespace Value

theorem ofJson_int (n : Int64) :
    ofJson (Literal.int (toString n.toInt)).toJson = .int n := by
  have hne : toString n.toInt ≠ "-0" := by
    intro h
    have hzero := Scalar.integer?_toString n.toInt
    rw [h] at hzero
    have hn : n.toInt = 0 := (Option.some.inj hzero).symm
    rw [hn] at h
    exact absurd h (by decide)
  rw [Literal.toJson, Json.ofIntToken, if_neg hne, Scalar.integer?_toString, Option.elim,
    Json.ofInt, ofJson, ofNumber, int64?_toInt]

theorem ofJson_minusZero : ofJson (Literal.int "-0").toJson = .float Binary64.minusZero := by
  rw [Literal.toJson, Json.ofIntToken, if_pos rfl, ofJson_ofFloat (by decide)]

theorem ofJson_float {text : String} {x : Float} (hr : Binary64.read? text.toList = some x)
    (hx : Binary64.isFinite x = true) : ofJson (Literal.float text).toJson = .float x := by
  rw [Literal.toJson, Json.ofFloatToken, hr, Option.elim, ofJson_ofFloat hx]

end Value

/-! ## 3. Leaves -/

namespace Scalar

theorem finite?_eq_some {x : Float} {value : Value} (h : finite? x = some value) :
    Binary64.isFinite x = true ∧ value = .float x := by
  unfold finite? at h
  split at h
  · next hx => exact ⟨hx, (Option.some.inj h).symm⟩
  · cases h

theorem toInt?_minusZero : toInt? (.float Binary64.minusZero) = some 0 := by decide

theorem floatText_minusZero : floatText Binary64.minusZero = "-0" := by decide

/-- A built-in scalar type reads the JSON form of a literal that it accepts as the same value. -/
theorem coerce_toJson {type : ScalarType} (hm : type ∈ builtIn) {literal : Literal}
    (hp : literal.Plain) {value : Value} (h : type.coerceLiteral literal = some value) :
    type.coerce (.ofJson literal.toJson) = some value := by
  simp only [builtIn, List.mem_cons, List.not_mem_nil, or_false] at hm
  rcases hm with rfl | rfl | rfl | rfl | rfl
  · cases hp with
    | int n =>
      simp only [int, int64?_toString, Value.ofJson_int] at h ⊢
      exact h
    | minusZero =>
      simp only [int, Value.ofJson_minusZero, toInt?_minusZero] at h ⊢
      exact h
    | _ => cases h
  · cases hp with
    | int n =>
      simp only [float, Binary64.read?_toString, Option.bind_some, Value.ofJson_int,
        toFloat?] at h ⊢
      exact h
    | minusZero =>
      rw [Value.ofJson_minusZero]
      exact h
    | float text =>
      simp only [float, Option.bind_eq_some_iff] at h
      obtain ⟨x, hr, hx⟩ := h
      rw [Value.ofJson_float hr (finite?_eq_some hx).1]
      exact hx
    | _ => cases h
  · cases hp with
    | string s => exact h
    | _ => cases h
  · cases hp with
    | boolean b => exact h
    | _ => cases h
  · cases hp with
    | string s => exact h
    | int n =>
      simp only [id, Value.ofJson_int] at h ⊢
      exact h
    | minusZero =>
      simp only [id, Value.ofJson_minusZero, floatText_minusZero] at h ⊢
      exact h
    | _ => cases h

theorem coerce_null {type : ScalarType} (hm : type ∈ builtIn) : type.coerce .null = none := by
  simp only [builtIn, List.mem_cons, List.not_mem_nil, or_false] at hm
  rcases hm with rfl | rfl | rfl | rfl | rfl <;> rfl

end Scalar

namespace EnumType

/-- Every value of an enum type stands for itself. -/
def SelfNamed (type : EnumType) : Prop :=
  ∀ entry ∈ type.values.entries, entry.value = .string entry.name

variable {type : EnumType} (hs : type.SelfNamed)

include hs

theorem SelfNamed.coerce_string (name : Name) :
    type.coerce (.string name) = (type.values.get? name).map fun entry => .string entry.name := by
  have hcheck : ∀ entry ∈ type.values.entries,
      entry.value.equals (.string name) = decide (Named.name entry = name) := by
    intro entry hm
    rw [hs entry hm, Value.equals]
    rfl
  rw [coerce, Table.get?, List.find?_congr hcheck]

theorem SelfNamed.coerce_null : type.coerce .null = none := by
  rw [coerce, List.find?_eq_none.mpr, Option.map_none]
  intro entry hm
  simp [hs entry hm, Value.equals]

theorem SelfNamed.coerce_toJson {literal : Literal} {value : Value}
    (h : type.coerceLiteral literal = some value) :
    type.coerce (.ofJson literal.toJson) = some value := by
  cases literal with
  | enum name =>
    rw [Literal.toJson, Value.ofJson, hs.coerce_string]
    exact h
  | _ => cases h

end EnumType

namespace Schema

variable {schema : Schema}

/-! ## 4. Standard types -/

/-- A name that belongs to a built-in scalar type, to an enum type whose values stand for
themselves, or to an input object type. -/
inductive StandardName (schema : Schema) (name : Name) : Prop where
  | scalar {type : ScalarType} (ht : schema.types.get? name = some (.scalar type))
    (hm : type ∈ Scalar.builtIn)
  | enum {type : EnumType} (ht : schema.types.get? name = some (.enum type)) (hs : type.SelfNamed)
  | input {type : InputObjectType} (ht : schema.types.get? name = some (.input type))

/-- A type whose name is standard, and so are all names inside the fields of its input object types,
at any depth. -/
def Standard (schema : Schema) (type : TypeRef) : Prop :=
  ∀ name, schema.Consults type name → schema.StandardName name

theorem Standard.named {name : Name} {required : Bool}
    (h : schema.Standard (.named name required)) : schema.StandardName name :=
  h name .refl

/-! ## 5. The places of a literal -/

/-- A literal, and the type that it is read at. -/
structure Place where
  literal : Literal
  type : TypeRef

/-- Reading at one place goes on at another. A field that is left out is read like null. -/
inductive Step (schema : Schema) : Place → Place → Prop where
  | item {items : List Literal} {literal : Literal} {item : TypeRef} {required : Bool}
    (hm : literal ∈ items) : Step schema ⟨.list items, .list item required⟩ ⟨literal, item⟩
  | single {literal : Literal} {item : TypeRef} {required : Bool} (hs : literal.isSingle = true) :
    Step schema ⟨literal, .list item required⟩ ⟨literal, item⟩
  | field {fields : Entries Literal} {name : Name} {required : Bool} {type : InputObjectType}
    {input : InputValueDefinition} (ht : schema.types.get? name = some (.input type))
    (hm : input ∈ type.fields.entries) :
    Step schema ⟨.object fields, .named name required⟩
      ⟨(fields.get? input.name).getD .null, input.type⟩

/-- At all places that reading a literal at a type comes to. -/
def Everywhere (schema : Schema) (P : Place → Prop) (literal : Literal) (type : TypeRef) : Prop :=
  ∀ place, Relation.ReflTransGen schema.Step ⟨literal, type⟩ place → P place

namespace Everywhere

variable {P : Place → Prop} {literal : Literal} {type : TypeRef}

theorem here (h : schema.Everywhere P literal type) : P ⟨literal, type⟩ :=
  h _ .refl

theorem step (h : schema.Everywhere P literal type) {next : Literal} {nextType : TypeRef}
    (hstep : schema.Step ⟨literal, type⟩ ⟨next, nextType⟩) : schema.Everywhere P next nextType :=
  fun place hp => h place (.head hstep hp)

/-- What holds at a place and everywhere from the next ones on holds everywhere. -/
theorem of_steps (h : P ⟨literal, type⟩)
    (hnext : ∀ next, schema.Step ⟨literal, type⟩ next →
      schema.Everywhere P next.literal next.type) :
    schema.Everywhere P literal type := by
  intro place hp
  rcases hp.cases_head with rfl | ⟨next, hstep, hp⟩
  · exact h
  · exact hnext next hstep place hp

end Everywhere

/-- What a scalar or enum type is given here is null or a literal that it accepts. -/
def Accepted (schema : Schema) (place : Place) : Prop :=
  place.literal ≠ .null → ∀ name required, place.type = .named name required →
    (∀ type, schema.types.get? name = some (.scalar type) →
      (type.coerceLiteral place.literal).isSome = true) ∧
    ∀ type, schema.types.get? name = some (.enum type) →
      (type.coerceLiteral place.literal).isSome = true

/-- What excludes null is not given null here, and is not left out. -/
def Place.Given (place : Place) : Prop :=
  place.type.required = true → place.literal ≠ .null

/-- What an input object type is given here is null or an object. -/
def Structured (schema : Schema) (place : Place) : Prop :=
  place.literal ≠ .null → ∀ name required, place.type = .named name required →
    ∀ type, schema.types.get? name = some (.input type) → ∃ fields, place.literal = .object fields

section Step

variable {literal next : Literal} {type nextType : TypeRef}

theorem Standard.step (h : schema.Standard type)
    (hstep : schema.Step ⟨literal, type⟩ ⟨next, nextType⟩) : schema.Standard nextType := by
  cases hstep with
  | item => exact h
  | single => exact h
  | field ht hm => exact fun _ hc => h _ (.field ht hm hc)

theorem plain_of_step (h : literal.Plain) (hstep : schema.Step ⟨literal, type⟩ ⟨next, nextType⟩) :
    next.Plain := by
  cases hstep with
  | item hm =>
    cases h with
    | list hitems => exact hitems _ hm
  | single => exact h
  | @field fields _ _ _ input ht hm =>
    cases hg : fields.get? input.name with
    | none => exact .null
    | some literal =>
      cases h with
      | object _ hfields => exact hfields _ (Entries.mem_of_get? hg)

end Step

/-! ## 6. Agreement -/

/-- A literal suits a type: the type is standard, the literal is plain, its leaves are accepted and
null stands, or is left to stand, only where the type allows it. -/
structure Suits (schema : Schema) (literal : Literal) (type : TypeRef) : Prop where
  standard : schema.Standard type
  plain : literal.Plain
  accepted : schema.Everywhere schema.Accepted literal type
  given : schema.Everywhere Place.Given literal type

theorem Suits.step {literal next : Literal} {type nextType : TypeRef}
    (h : schema.Suits literal type) (hstep : schema.Step ⟨literal, type⟩ ⟨next, nextType⟩) :
    schema.Suits next nextType :=
  ⟨h.standard.step hstep, plain_of_step h.plain hstep, h.accepted.step hstep, h.given.step hstep⟩

/-- The JSON form of a literal is valid where the literal stands, and read as the same value; and
it is null for null alone. -/
structure Agrees (schema : Schema) (literal : Literal) (type : TypeRef) : Prop where
  valid : schema.isValid (.ofJson literal.toJson) type = true
  same : ∀ values,
    schema.coerceSupplied (.ofJson literal.toJson) type = schema.coerceLiteral values literal type
  isNull : literal ≠ .null → literal.toJson.isNull = false

section Layers

variable {literal : Literal} {itemType : TypeRef} {name : Name} {required : Bool}

theorem Suits.agrees_null {type : TypeRef} (h : schema.Suits .null type) :
    schema.Agrees .null type where
  valid := by
    have hr : type.required = false :=
      Bool.eq_false_iff.mpr fun hr => h.given.here hr rfl
    rw [Literal.toJson, isValid_ofJson_null, hr, Bool.not_false]
  same values := by
    rw [Literal.toJson, coerceSupplied_ofJson_null, coerceLiteral_null]
  isNull hn := absurd rfl hn

theorem agrees_list {items : List Literal}
    (h : ∀ literal ∈ items, schema.Agrees literal itemType) :
    schema.Agrees (.list items) (.list itemType required) where
  valid := by
    rw [Literal.toJson, Literal.itemsToJson_eq_map, isValid_ofJson_array, List.all_map,
      List.all_eq_true]
    exact fun literal hm => (h literal hm).valid
  same values := by
    rw [Literal.toJson, Literal.itemsToJson_eq_map, coerceSupplied_ofJson_array, List.map_map,
      coerceLiteral_list]
    exact congrArg Value.list (List.map_congr_left fun literal hm => (h literal hm).same values)
  isNull _ := by
    rw [Literal.toJson]
    rfl

theorem Agrees.single (h : schema.Agrees literal itemType) (hs : literal.isSingle = true) :
    schema.Agrees literal (.list itemType required) := by
  have hn : literal ≠ .null := by
    rintro rfl
    cases hs
  have hjson := Literal.isSingle_toJson hs (h.isNull hn)
  refine ⟨?_, fun values => ?_, h.isNull⟩
  · rw [isValid_ofJson_single hjson, h.valid]
  · rw [coerceSupplied_ofJson_single hjson, coerceLiteral_single values hs, h.same]

theorem agrees_object {fields : Entries Literal} {type : InputObjectType}
    (ht : schema.types.get? name = some (.input type))
    (h : ∀ input ∈ type.fields.entries,
      schema.Agrees ((fields.get? input.name).getD .null) input.type) :
    schema.Agrees (.object fields) (.named name required) where
  valid := by
    rw [Literal.toJson, isValid_ofJson_object _ ht, List.all_eq_true]
    intro input hm
    rw [Literal.getD_get?_fieldsToJson]
    exact (h input hm).valid
  same values := by
    rw [Literal.toJson, coerceSupplied_ofJson_object _ ht, coerceLiteral_object values fields ht]
    refine InputObjectType.assemble_congr fun input hm => ?_
    rw [Literal.getD_get?_fieldsToJson]
    exact (h input hm).same values
  isNull _ := by
    rw [Literal.toJson]
    rfl

/-- A leaf agrees if its type makes the same of both forms. -/
theorem agrees_leaf (hn : literal ≠ .null) (hv : ∀ name, literal ≠ .variable name)
    (hl : ∀ type, schema.types.get? name ≠ some (.input type))
    (hjson : literal.toJson.isNull = false)
    (hvalid : schema.isValidLeaf (.ofJson literal.toJson) name = true)
    (hsame : schema.coerceLeaf (.ofJson literal.toJson) name =
      schema.coerceLeafLiteral literal name) :
    schema.Agrees literal (.named name required) where
  valid := by rw [isValid_ofJson_leaf hjson (Or.inr hl), hvalid]
  same values := by
    rw [coerceSupplied_ofJson_leaf hjson (Or.inr hl),
      coerceLiteral_leaf values hn hv (Or.inr hl), hsame]
  isNull _ := hjson

/-- What is not read as null does not have null for its JSON form. -/
theorem isNull_toJson_of_coerce {coerce : Value → Option Value} (hnull : coerce .null = none)
    {value : Value} (h : coerce (.ofJson literal.toJson) = some value) :
    literal.toJson.isNull = false := by
  refine Bool.eq_false_iff.mpr fun hjson => ?_
  rw [Json.isNull_iff.mp hjson, Value.ofJson, hnull] at h
  cases h

/-- A scalar type that makes the same of both forms. -/
theorem agrees_scalar {type : ScalarType} (hn : literal ≠ .null)
    (hv : ∀ name, literal ≠ .variable name) (ht : schema.types.get? name = some (.scalar type))
    (hnull : literal.toJson.isNull = false) {value : Value}
    (hliteral : type.coerceLiteral literal = some value)
    (hjson : type.coerce (.ofJson literal.toJson) = some value) :
    schema.Agrees literal (.named name required) := by
  refine agrees_leaf hn hv (by simp [ht]) hnull ?_ ?_
  · simp only [isValidLeaf, ht, hjson, Option.isSome_some]
  · simp only [coerceLeaf, coerceLeafLiteral, ht, hjson, hliteral]

/-- An enum type that makes the same of both forms. -/
theorem agrees_enum {type : EnumType} (hn : literal ≠ .null)
    (hv : ∀ name, literal ≠ .variable name) (ht : schema.types.get? name = some (.enum type))
    (hnull : literal.toJson.isNull = false) {value : Value}
    (hliteral : type.coerceLiteral literal = some value)
    (hjson : type.coerce (.ofJson literal.toJson) = some value) :
    schema.Agrees literal (.named name required) := by
  refine agrees_leaf hn hv (by simp [ht]) hnull ?_ ?_
  · simp only [isValidLeaf, ht, hjson, Option.isSome_some]
  · simp only [coerceLeaf, coerceLeafLiteral, ht, hjson, hliteral]

/-- At a name, the fields of an object agree in turn, or the type is that of a leaf. -/
theorem Suits.agrees_named (h : schema.Suits literal (.named name required))
    (ho : schema.Everywhere schema.Structured literal (.named name required))
    (hn : literal ≠ .null) (hv : ∀ name, literal ≠ .variable name)
    (hfield : ∀ fields, literal = .object fields → ∀ type,
      schema.types.get? name = some (.input type) → ∀ input ∈ type.fields.entries,
        schema.Agrees ((Entries.get? fields input.name).getD .null) input.type) :
    schema.Agrees literal (.named name required) := by
  have haccepted := h.accepted.here hn name required rfl
  cases h.standard.named with
  | input ht =>
    obtain ⟨fields, rfl⟩ := ho.here hn name required rfl _ ht
    exact agrees_object ht (hfield fields rfl _ ht)
  | scalar ht hm =>
    obtain ⟨value, hvalue⟩ := Option.isSome_iff_exists.mp (haccepted.1 _ ht)
    have hcoerce := Scalar.coerce_toJson hm h.plain hvalue
    exact agrees_scalar hn hv ht (isNull_toJson_of_coerce (Scalar.coerce_null hm) hcoerce) hvalue
      hcoerce
  | enum ht hs =>
    obtain ⟨value, hvalue⟩ := Option.isSome_iff_exists.mp (haccepted.2 _ ht)
    have hcoerce := hs.coerce_toJson hvalue
    exact agrees_enum hn hv ht (isNull_toJson_of_coerce hs.coerce_null hcoerce) hvalue hcoerce

end Layers

/-- A literal and its JSON form agree, if it suits its type and every input object type is given an
object. The induction is along the reading; what it needs of the places is kept by every step. -/
theorem Suits.agrees {literal : Literal} {type : TypeRef} (h : schema.Suits literal type)
    (ho : schema.Everywhere schema.Structured literal type) : schema.Agrees literal type := by
  induction literal, type using Literal.readInduct with
  | null type => exact h.agrees_null
  | var name type => cases h.plain
  | items items item required ih =>
    exact agrees_list fun literal hm => ih literal hm (h.step (.item hm)) (ho.step (.item hm))
  | single literal item required hs ih =>
    exact (ih (h.step (.single hs)) (ho.step (.single hs))).single hs
  | named literal name required hn hv ih =>
    refine h.agrees_named ho hn hv fun fields hf type ht input hm => ?_
    subst hf
    have hfield := h.step (.field ht hm)
    have hobject := ho.step (.field ht hm)
    cases hg : Entries.get? fields input.name with
    | none =>
      -- The null in place of a field that is left out is no part of the literal.
      rw [hg] at hfield
      exact hfield.agrees_null
    | some literal =>
      rw [hg] at hfield hobject
      exact ih input.name literal hg input.type hfield hobject

/-! ## 7. Arguments -/

theorem coerceArguments_congr (values : Entries Value) {inputs : List InputValueDefinition}
    {name : Name} {one other : Literal}
    (h : ∀ input ∈ inputs, input.name = name →
      schema.coerceLiteral values one input.type = schema.coerceLiteral values other input.type)
    (before after : List Argument) :
    schema.coerceArguments values inputs (before ++ ⟨name, one⟩ :: after) =
      schema.coerceArguments values inputs (before ++ ⟨name, other⟩ :: after) := by
  unfold coerceArguments
  refine congrArg Entries.ofList (List.map_congr_left fun input hm => ?_)
  dsimp only
  rw [List.find?_append, List.find?_append]
  cases List.find? _ before with
  | some argument => rfl
  | none =>
    by_cases hname : name = input.name
    · simp only [Option.none_or, List.find?_cons, decide_eq_true hname]
      rw [h input hm hname.symm]
    · simp only [Option.none_or, List.find?_cons, decide_eq_false hname]

/-- A variable that is given the JSON form of a literal has the value of the literal. -/
theorem Agrees.get?_variable {literal : Literal} {declared : List VariableDefinition}
    {definition : VariableDefinition} (h : schema.Agrees literal definition.type)
    (hd : (declared.map (·.name)).Nodup) (hm : definition ∈ declared)
    (hl : (schema.get? definition.type.innermost).isSome = true)
    (hnull : literal = .null → definition.default = none) {supplied : Json.Members}
    (hg : supplied.get? definition.name = some literal.toJson) {values : Entries Value}
    (hv : schema.coerceVariables declared supplied = .ok values) :
    values.get? definition.name = some (schema.coerceLiteral values literal definition.type) := by
  obtain ⟨value, hvalue, hc⟩ := (get?_of_coerceVariables hd hv).2 definition hm
  have hdefault : literal.toJson.isNull = true → definition.default = none := by
    intro hjson
    refine hnull (by_contra fun hn => ?_)
    rw [h.isNull hn] at hjson
    cases hjson
  rw [coerceVariable_of_given hl hg hdefault h.valid, h.same values] at hc
  rw [hvalue, Except.ok.inj hc]

/-- A literal that suits its type may as well be supplied, if every input object type is given an
object. Its JSON form is valid and read as the same value, and so an argument is the same whether
the literal is written for it, or a variable of its type that is given the JSON form. -/
theorem coerceSupplied_toJson {literal : Literal} {type : TypeRef} (h : schema.Suits literal type)
    (ho : schema.Everywhere schema.Structured literal type) :
    schema.isValid (.ofJson literal.toJson) type = true ∧
    (∀ values, schema.coerceSupplied (.ofJson literal.toJson) type =
      schema.coerceLiteral values literal type) ∧
    ∀ declared supplied values, (declared.map (·.name)).Nodup →
      schema.coerceVariables declared supplied = .ok values →
      ∀ definition ∈ declared, definition.type = type →
        (schema.get? type.innermost).isSome = true →
        (literal = .null → definition.default = none) →
        supplied.get? definition.name = some literal.toJson →
        ∀ inputs name, (∀ input ∈ inputs, input.name = name → input.type = type) →
        ∀ before after,
          schema.coerceArguments values inputs
              (before ++ ⟨name, .variable definition.name⟩ :: after) =
            schema.coerceArguments values inputs (before ++ ⟨name, literal⟩ :: after) := by
  have hagrees := h.agrees ho
  refine ⟨hagrees.valid, hagrees.same, ?_⟩
  rintro declared supplied values hd hv definition hm rfl hl hnull hgiven inputs name hinputs
  refine coerceArguments_congr values fun input hi hname => ?_
  rw [coerceLiteral, hagrees.get?_variable hd hm hl hnull hgiven hv, Option.getD_some,
    hinputs input hi hname]

end Schema

/-! ## 8. Samples -/

namespace InputSample

theorem get?_order : schema.types.get? "Order" = some (.enum order) := by
  have hm : .enum order ∈ description.types := by simp [description]
  exact (SchemaDescription.builds build_eq_ok).get?_eq_some_iff.mpr
    ⟨List.mem_append_left _ (List.mem_append_left _ hm), rfl⟩

theorem get?_string : schema.types.get? "String" = some (.scalar Scalar.string) := by
  have hm : Scalar.string ∈ Scalar.builtIn := by simp [Scalar.builtIn]
  have h := (SchemaDescription.builds build_eq_ok).get?_builtIn hm (by decide)
  exact h

theorem get?_int : schema.types.get? "Int" = some (.scalar Scalar.int) := by
  have hm : Scalar.int ∈ Scalar.builtIn := by simp [Scalar.builtIn]
  have h := (SchemaDescription.builds build_eq_ok).get?_builtIn hm (by decide)
  exact h

theorem standard_filter : schema.Standard (.named "Filter" false) := by
  have hnames : ∀ name, schema.Consults (.named "Filter" false) name →
      name = "Filter" ∨ name ∈ ["String", "Int", "Order"] := by
    intro name h
    induction h with
    | refl => exact Or.inl rfl
    | tail _ hstep ih =>
      obtain ⟨type, ht, input, hm, rfl⟩ := hstep
      rcases ih with rfl | ih
      · cases get?_filter.symm.trans ht
        have hall : ∀ input ∈ filter.fields.entries, input.type.innermost = "Filter" ∨
            input.type.innermost ∈ ["String", "Int", "Order"] := by decide
        exact hall input hm
      · simp only [List.mem_cons, List.not_mem_nil, or_false] at ih
        rcases ih with rfl | rfl | rfl
        · cases get?_string.symm.trans ht
        · cases get?_int.symm.trans ht
        · cases get?_order.symm.trans ht
  intro name h
  rcases hnames name h with rfl | hm
  · exact .input get?_filter
  · simp only [List.mem_cons, List.not_mem_nil, or_false] at hm
    rcases hm with rfl | rfl | rfl
    · exact .scalar get?_string (by simp [Scalar.builtIn])
    · exact .scalar get?_int (by simp [Scalar.builtIn])
    · exact .enum get?_order (List.forall_mem_cons.mpr ⟨rfl, List.forall_mem_singleton.mpr rfl⟩)

/-- The literal whose JSON form is `outer`. -/
def literal : Literal :=
  .object [("other", .null), ("tags", .string "tag"), ("name", .string "outer")]

theorem toJson_literal : literal.toJson = outer := by
  simp [literal, outer, Literal.toJson, Literal.fieldsToJson]

/-- The places that reading `literal` comes to. -/
theorem everywhere_literal {P : Schema.Place → Prop} (hfilter : P ⟨literal, .named "Filter" false⟩)
    (hname : P ⟨.string "outer", .named "String" true⟩)
    (htags : P ⟨.string "tag", .list (.named "String" true) false⟩)
    (htag : P ⟨.string "tag", .named "String" true⟩)
    (hrest : ∀ type : TypeRef, type.required = false → P ⟨.null, type⟩) :
    schema.Everywhere P literal (.named "Filter" false) := by
  have hnull : ∀ type : TypeRef, type.required = false → schema.Everywhere P .null type :=
    fun type hr => .of_steps (hrest type hr) fun _ hstep => by
      cases hstep with
      | single hs => cases hs
  have hleaf : ∀ text, P ⟨.string text, .named "String" true⟩ →
      schema.Everywhere P (.string text) (.named "String" true) :=
    fun text h => .of_steps h fun _ hstep => by cases hstep
  have hlist : schema.Everywhere P (.string "tag") (.list (.named "String" true) false) :=
    .of_steps htags fun _ hstep => by
      cases hstep with
      | single => exact hleaf _ htag
  refine .of_steps hfilter fun _ hstep => ?_
  cases hstep with
  | field ht hm =>
    cases get?_filter.symm.trans ht
    have hfields : ∀ input ∈ filter.fields.entries, schema.Everywhere P
        ((Entries.get? literal.fields input.name).getD .null) input.type :=
      List.forall_mem_cons.mpr ⟨hleaf _ hname, List.forall_mem_cons.mpr ⟨hnull _ rfl,
        List.forall_mem_cons.mpr ⟨hnull _ rfl, List.forall_mem_cons.mpr ⟨hnull _ rfl,
          List.forall_mem_singleton.mpr hlist⟩⟩⟩⟩
    exact hfields _ hm

theorem accepted_literal : schema.Everywhere schema.Accepted literal (.named "Filter" false) := by
  have hstring : ∀ text, schema.Accepted ⟨.string text, .named "String" true⟩ := by
    rintro text - name required ⟨⟩
    refine ⟨fun type ht => ?_, fun type ht => by cases get?_string.symm.trans ht⟩
    cases get?_string.symm.trans ht
    rfl
  refine everywhere_literal ?_ (hstring _) ?_ (hstring _) fun type _ hn => absurd rfl hn
  · rintro - name required ⟨⟩
    constructor <;> intro type ht <;> cases get?_filter.symm.trans ht
  · rintro - name required ⟨⟩

theorem given_literal : schema.Everywhere Schema.Place.Given literal (.named "Filter" false) := by
  refine everywhere_literal ?_ ?_ ?_ ?_ fun type hr hrequired => ?_
  · rintro ⟨⟩
  · rintro - ⟨⟩
  · rintro ⟨⟩
  · rintro - ⟨⟩
  · cases hr.symm.trans hrequired

theorem structured_literal :
    schema.Everywhere schema.Structured literal (.named "Filter" false) := by
  have hstring : ∀ text, schema.Structured ⟨.string text, .named "String" true⟩ := by
    rintro text - name required ⟨⟩ type ht
    cases get?_string.symm.trans ht
  refine everywhere_literal ?_ (hstring _) ?_ (hstring _) fun type _ hn => absurd rfl hn
  · exact fun _ _ _ _ _ _ => ⟨_, rfl⟩
  · rintro - name required ⟨⟩

theorem plain_literal : literal.Plain := by
  refine .object (by decide) (List.forall_mem_cons.mpr ⟨.null, ?_⟩)
  exact List.forall_mem_cons.mpr ⟨.string _, List.forall_mem_singleton.mpr (.string _)⟩

theorem suits_literal : schema.Suits literal (.named "Filter" false) :=
  ⟨standard_filter, plain_literal, accepted_literal, given_literal⟩

theorem suits_emptyList : schema.Suits (.list []) (.named "Filter" false) where
  standard := standard_filter
  plain := .list (List.forall_mem_nil _)
  accepted := by
    refine .of_steps ?_ fun _ hstep => by cases hstep
    rintro - name required ⟨⟩
    constructor <;> intro type ht <;> cases get?_filter.symm.trans ht
  given := .of_steps (by rintro ⟨⟩) fun _ hstep => by cases hstep

theorem suits_null : schema.Suits .null (.named "Int" false) where
  standard := by
    intro name h
    rcases h.cases_head with rfl | ⟨next, ⟨type, ht, -⟩, -⟩
    · exact .scalar get?_int (by simp [Scalar.builtIn])
    · cases get?_int.symm.trans ht
  plain := .null
  accepted := .of_steps (fun hn => absurd rfl hn) fun _ hstep => by cases hstep
  given := .of_steps (by rintro ⟨⟩) fun _ hstep => by cases hstep

/-- A variable with a default. -/
def limited : VariableDefinition where
  location := .start
  name := "limit"
  type := .named "Int" false
  default := some (.int "3")
  directives := []

end InputSample

namespace Schema

theorem coerceSupplied_toJson_sample :
    InputSample.schema.isValid (.ofJson InputSample.outer) (.named "Filter" false) = true ∧
    InputSample.schema.coerceSupplied (.ofJson InputSample.outer) (.named "Filter" false) =
      InputSample.schema.coerceLiteral [] InputSample.literal (.named "Filter" false) ∧
    ∃ values, InputSample.schema.coerceVariables [InputSample.variableDefinition]
        InputSample.complete = .ok values ∧
      InputSample.schema.coerceArguments values
          [{ name := "filter", type := .named "Filter" false }] [⟨"filter", .variable "filter"⟩] =
        InputSample.schema.coerceArguments values
          [{ name := "filter", type := .named "Filter" false }]
          [⟨"filter", InputSample.literal⟩] := by
  obtain ⟨hvalid, hsame, harguments⟩ :=
    coerceSupplied_toJson InputSample.suits_literal InputSample.structured_literal
  rw [InputSample.toJson_literal] at hvalid hsame harguments
  have hv := Except.eq_ok_get InputSample.isSome_coerceVariables
  refine ⟨hvalid, hsame [], _, hv, ?_⟩
  have hl : (InputSample.schema.get? "Filter").isSome = true := by decide
  exact harguments [InputSample.variableDefinition] _ _ (List.nodup_singleton _) hv _
    (List.mem_singleton_self _) rfl hl (fun h => by cases h) rfl _ "filter"
    (List.forall_mem_singleton.mpr fun _ => rfl) [] []

end Schema

/-! An argument of an enum type that the roots do not lead to: `Node` has no object types, so only a
type resolver of the application could come to `Audit`. -/

namespace UnlistedSample

def argument : InputValueDefinition where
  name := "level"
  type := .named "Level" false

def level : EnumType where
  name := "Level"
  values := .ofList [{ name := "LOW" }, { name := "HIGH" }]

def description : SchemaDescription where
  query := some "Query"
  types :=
    [.object
      { name := "Query"
        fields := .ofList [{ name := "node", type := .named "Node" false }] },
      .interface { name := "Node" },
      .object
        { name := "Audit"
          fields := .ofList
            [{ name := "log", type := .named "String" false, arguments := [argument] }] },
      .enum level]

theorem isSome_build : description.build.toOption.isSome = true := by decide

def schema : Schema :=
  description.build.toOption.get isSome_build

theorem build_eq_ok : description.build = .ok schema :=
  Except.eq_ok_get isSome_build

theorem get?_level : schema.types.get? "Level" = some (.enum level) := by
  have hm : .enum level ∈ description.types := by simp [description]
  exact (SchemaDescription.builds build_eq_ok).get?_eq_some_iff.mpr
    ⟨List.mem_append_left _ (List.mem_append_left _ hm), rfl⟩

theorem standard_level : schema.Standard (.named "Level" false) := by
  intro name h
  rcases h.cases_head with rfl | ⟨next, hstep, -⟩
  · exact .enum get?_level (List.forall_mem_cons.mpr ⟨rfl, List.forall_mem_singleton.mpr rfl⟩)
  · obtain ⟨type, ht, -⟩ := hstep
    cases get?_level.symm.trans ht

theorem accepted_low : schema.Everywhere schema.Accepted (.enum "LOW") (.named "Level" false) := by
  refine .of_steps ?_ fun _ hstep => by cases hstep
  rintro - name required ⟨⟩
  refine ⟨fun type ht => (by cases get?_level.symm.trans ht), fun type ht => ?_⟩
  cases get?_level.symm.trans ht
  rfl

theorem suits_low : schema.Suits (.enum "LOW") (.named "Level" false) where
  standard := standard_level
  plain := .enum "LOW"
  accepted := accepted_low
  given := .of_steps (by rintro ⟨⟩) fun _ hstep => by cases hstep

def variableDefinition : VariableDefinition where
  location := .start
  name := "level"
  type := .named "Level" false
  default := none
  directives := []

end UnlistedSample

namespace Schema

/-- What agreement depends on. An empty list at an input object type reaches no leaf that could
refuse it, and it is not valid as a supplied value. A variable of a type that is not listed is null,
and the literal is not. And null that is supplied gives way to the default of the variable, while
null in the document does not look at any variable. -/
theorem supplied_ne_literal :
    (InputSample.description.build = .ok InputSample.schema ∧
      InputSample.schema.Suits (.list []) (.named "Filter" false) ∧
      InputSample.schema.isValid (.ofJson (Literal.list []).toJson) (.named "Filter" false) =
        false) ∧
    (UnlistedSample.description.build = .ok UnlistedSample.schema ∧
      UnlistedSample.schema.Suits (.enum "LOW") (.named "Level" false) ∧
      ∃ values, UnlistedSample.schema.coerceVariables [UnlistedSample.variableDefinition]
          [("level", (Literal.enum "LOW").toJson)] = .ok values ∧
        UnlistedSample.schema.coerceArguments values [UnlistedSample.argument]
            [⟨"level", .variable "level"⟩] = [("level", .null)] ∧
        UnlistedSample.schema.coerceArguments values [UnlistedSample.argument]
            [⟨"level", .enum "LOW"⟩] = [("level", .string "LOW")]) ∧
    (InputSample.schema.Suits .null (.named "Int" false) ∧
      ∃ values, InputSample.schema.coerceVariables [InputSample.limited]
          [("limit", Literal.null.toJson)] = .ok values ∧
        InputSample.schema.coerceArguments values
            [{ name := "limit", type := .named "Int" false }] [⟨"limit", .variable "limit"⟩] =
          [("limit", .int 3)] ∧
        InputSample.schema.coerceArguments values
            [{ name := "limit", type := .named "Int" false }] [⟨"limit", .null⟩] =
          [("limit", .null)]) := by
  refine ⟨⟨InputSample.build_eq_ok, InputSample.suits_emptyList, by decide⟩,
    ⟨UnlistedSample.build_eq_ok, UnlistedSample.suits_low, ?_⟩, InputSample.suits_null, ?_⟩
  · have hl : (UnlistedSample.schema.get? "Level").isSome = false := by decide
    refine ⟨[("level", .null)], ?_, rfl, rfl⟩
    rw [coerceVariables, coerceVariablesInto, coerceVariable_of_unlisted hl]
    rfl
  · have hl : (InputSample.schema.get? "Int").isSome = true := by decide
    have hthree : InputSample.schema.coerceLiteral [] (.int "3") (.named "Int" false) = .int 3 := by
      rw [coerceLiteral_leaf [] (by simp) (by simp) (Or.inl (by simp)), coerceLeafLiteral,
        InputSample.get?_int]
      rfl
    refine ⟨[("limit", .int 3)], ?_, rfl, rfl⟩
    rw [coerceVariables, coerceVariablesInto, coerceVariable_of_default hl rfl rfl rfl]
    exact congrArg (fun value => Except.ok [("limit", value)]) hthree

end Schema

end GraphQL
