import Mathlib.Logic.Relation
import GraphQL.Proofs.Input.Reading
import GraphQL.Proofs.Schema.Reachability

/-!
# `GraphQL/Proofs/Input/LookUps.lean` — which names a reading looks up

Reading at a type looks up the name inside the type, and from there the names inside the types of
input fields (`Schema.Consults`). It looks up no others, and that is proved by changing the
registry: two schemas that agree on the consulted names read everything alike
(`Schema.coerceLiteral_congr` and its companions). In a built schema all names that are consulted
from a registered one are registered, so there is nothing that such a reading could miss.
-/

set_option autoImplicit false

namespace GraphQL

namespace Schema

variable {schema other : Schema}

/-- From the name of an input object type to the name inside the type of one of its fields. -/
def InputEdge (schema : Schema) (name next : Name) : Prop :=
  ∃ type, schema.types.get? name = some (.input type) ∧
    ∃ input ∈ type.fields.entries, input.type.innermost = next

/-- Reading at a type can come to look up a name. -/
def Consults (schema : Schema) (type : TypeRef) (name : Name) : Prop :=
  Relation.ReflTransGen schema.InputEdge type.innermost name

theorem Consults.field {inner : Name} {required : Bool} {type : InputObjectType}
    (ht : schema.types.get? inner = some (.input type)) {input : InputValueDefinition}
    (hm : input ∈ type.fields.entries) {name : Name} (h : schema.Consults input.type name) :
    schema.Consults (.named inner required) name :=
  .head ⟨type, ht, input, hm, rfl⟩ h

/-- Two schemas have the same types under all names that reading at a type looks up. -/
def AgreeAt (schema other : Schema) (type : TypeRef) : Prop :=
  ∀ name, schema.Consults type name → other.types.get? name = schema.types.get? name

theorem AgreeAt.named {name : Name} {required : Bool}
    (h : schema.AgreeAt other (.named name required)) :
    other.types.get? name = schema.types.get? name :=
  h name .refl

theorem AgreeAt.field {name : Name} {required : Bool} {type : InputObjectType}
    (h : schema.AgreeAt other (.named name required))
    (ht : schema.types.get? name = some (.input type)) {input : InputValueDefinition}
    (hm : input ∈ type.fields.entries) : schema.AgreeAt other input.type :=
  fun _ hc => h _ (.field ht hm hc)

theorem all_congr_of_mem {α : Type} {items : List α} {check check' : α → Bool}
    (h : ∀ item ∈ items, check' item = check item) : items.all check' = items.all check := by
  rw [Bool.eq_iff_iff, List.all_eq_true, List.all_eq_true]
  exact forall₂_congr fun item hm => by rw [h item hm]

theorem InputObjectType.assemble_congr {type : InputObjectType}
    {field field' : InputValueDefinition → Value}
    (h : ∀ input ∈ type.fields.entries, field' input = field input) :
    type.assemble field' = type.assemble field := by
  unfold InputObjectType.assemble
  refine congrArg Value.map (List.map_congr_left fun input hm => ?_)
  rw [h input hm]

theorem coerceLiteral_congr (values : Entries Value) {literal : Literal} {type : TypeRef}
    (h : schema.AgreeAt other type) :
    other.coerceLiteral values literal type = schema.coerceLiteral values literal type := by
  induction literal, type using Literal.readInduct with
  | null type => simp only [coerceLiteral_null]
  | var name type => simp only [coerceLiteral]
  | items items item required ih =>
    rw [coerceLiteral_list, coerceLiteral_list]
    exact congrArg Value.list (List.map_congr_left fun literal hm => ih literal hm h)
  | single literal item required hs ih =>
    rw [coerceLiteral_single values hs, coerceLiteral_single values hs, ih h]
  | named literal name required hn hv ih =>
    rcases schema.object_or_leaf Literal.object literal name with ⟨fields, type, rfl, ht⟩ | hl
    · rw [coerceLiteral_object values fields ht,
        coerceLiteral_object values fields (h.named.trans ht)]
      refine InputObjectType.assemble_congr fun input hm => ?_
      cases hg : Entries.get? fields input.name with
      | none => simp only [Option.getD_none, coerceLiteral_null]
      | some literal => exact ih input.name literal hg input.type (h.field ht hm)
    · rw [coerceLiteral_leaf values hn hv hl,
        coerceLiteral_leaf values hn hv (h.named ▸ hl), coerceLeafLiteral, coerceLeafLiteral,
        h.named]

theorem isValid_congr {json : Json} {type : TypeRef} (h : schema.AgreeAt other type) :
    other.isValid (.ofJson json) type = schema.isValid (.ofJson json) type := by
  induction json, type using Json.readInduct with
  | null type => simp only [isValid_ofJson_null]
  | items items item required ih =>
    rw [isValid_ofJson_array, isValid_ofJson_array]
    exact all_congr_of_mem fun json hm => ih json hm h
  | single json item required hs ih =>
    rw [isValid_ofJson_single hs, isValid_ofJson_single hs, ih h]
  | named json name required hn ih =>
    rcases schema.object_or_leaf Json.object json name with ⟨members, type, rfl, ht⟩ | hl
    · rw [isValid_ofJson_object members ht, isValid_ofJson_object members (h.named.trans ht)]
      refine all_congr_of_mem fun input hm => ?_
      cases hg : Entries.get? members input.name with
      | none => simp only [Option.getD_none, isValid_ofJson_null]
      | some json => exact ih input.name json hg input.type (h.field ht hm)
    · rw [isValid_ofJson_leaf hn hl, isValid_ofJson_leaf hn (h.named ▸ hl), isValidLeaf,
        isValidLeaf, h.named]

theorem coerceSupplied_congr {json : Json} {type : TypeRef} (h : schema.AgreeAt other type) :
    other.coerceSupplied (.ofJson json) type = schema.coerceSupplied (.ofJson json) type := by
  induction json, type using Json.readInduct with
  | null type => simp only [coerceSupplied_ofJson_null]
  | items items item required ih =>
    rw [coerceSupplied_ofJson_array, coerceSupplied_ofJson_array]
    exact congrArg Value.list (List.map_congr_left fun json hm => ih json hm h)
  | single json item required hs ih =>
    rw [coerceSupplied_ofJson_single hs, coerceSupplied_ofJson_single hs, ih h]
  | named json name required hn ih =>
    rcases schema.object_or_leaf Json.object json name with ⟨members, type, rfl, ht⟩ | hl
    · rw [coerceSupplied_ofJson_object members ht,
        coerceSupplied_ofJson_object members (h.named.trans ht)]
      refine InputObjectType.assemble_congr fun input hm => ?_
      cases hg : Entries.get? members input.name with
      | none => simp only [Option.getD_none, coerceSupplied_ofJson_null]
      | some json => exact ih input.name json hg input.type (h.field ht hm)
    · rw [coerceSupplied_ofJson_leaf hn hl, coerceSupplied_ofJson_leaf hn (h.named ▸ hl),
        coerceLeaf, coerceLeaf, h.named]

end Schema

/-- From a registered name, reading looks up registered names only. -/
theorem SchemaDescription.Builds.registered_of_consults {description : SchemaDescription}
    {schema : Schema} (hb : description.Builds schema) {type : TypeRef} {name : Name}
    (hr : type.innermost ∈ schema.types.names) (hc : schema.Consults type name) :
    name ∈ schema.types.names := by
  induction hc with
  | refl => exact hr
  | tail _ hstep _ =>
    obtain ⟨type, ht, input, hm, rfl⟩ := hstep
    exact hb.registered_of_edge (Table.get?_eq_some_iff.mp ht).1 (List.mem_map_of_mem hm)

end GraphQL
