import Mathlib.Data.List.Forall2
import GraphQL.Input.Variables
import GraphQL.Proofs.Json.Keyed

/-!
# `GraphQL/Proofs/Input/Reading.lean` — one layer of a reading

Literals and supplied values are read by recursions over what is given, in which the type only gets
shorter: a list at a list type goes on with its items, anything else at a list type with the item
type, an object at an input object type with its fields. The definitions pass all the lists around a
name in one go and keep the fields in a table of functions, so that they are structural; here each
of them gets its equations, one layer at a time, and the induction that belongs to the layers
(`Json.readInduct`, `Literal.readInduct`). No later proof opens the recursions.
-/

set_option autoImplicit false

namespace GraphQL

/-! ## 1. What is given -/

/-- Whether a literal is read on its own: it is no null, no variable and no list. -/
def Literal.isSingle : Literal → Bool
  | .null | .variable _ | .list _ => false
  | _ => true

/-- The fields of an object literal. -/
def Literal.fields : Literal → Entries Literal
  | .object fields => fields
  | _ => []

/-- Whether a value is neither null nor a list. -/
def Value.isSingle : Value → Bool
  | .null | .list _ => false
  | _ => true

/-- Whether a JSON value is neither null nor an array. -/
def Json.isSingle : Json → Bool
  | .null | .array _ => false
  | _ => true

/-- The members of an object; there are none of anything else. -/
def Json.members : Json → Json.Members
  | .object members => members
  | _ => []

theorem Value.ofNumber_eq (n : Json.Number) :
    (∃ m, ofNumber n = .int m) ∨ ∃ x, ofNumber n = .float x := by
  cases n with
  | integer n =>
    unfold ofNumber
    dsimp only
    split
    · next m _ => exact Or.inl ⟨m, rfl⟩
    · exact Or.inr ⟨_, rfl⟩
  | float x => exact Or.inr ⟨x.val, rfl⟩

@[simp] theorem Value.isSingle_ofJson (json : Json) : (ofJson json).isSingle = json.isSingle := by
  cases json with
  | number n =>
    show (ofNumber n).isSingle = true
    rcases ofNumber_eq n with ⟨m, h⟩ | ⟨x, h⟩ <;> rw [h] <;> rfl
  | _ => rfl

@[simp] theorem Value.isNull_ofJson (json : Json) : (ofJson json).isNull = json.isNull := by
  cases json with
  | number n =>
    show (ofNumber n).isNull = false
    rcases ofNumber_eq n with ⟨m, h⟩ | ⟨x, h⟩ <;> rw [h] <;> rfl
  | _ => rfl

theorem Value.ofJson_eq_map {json : Json} {entries : List (String × Value)}
    (h : ofJson json = .map entries) : ∃ members, json = .object members := by
  cases json with
  | object members => exact ⟨members, rfl⟩
  | number n =>
    change ofNumber n = .map entries at h
    rcases ofNumber_eq n with ⟨m, hm⟩ | ⟨x, hx⟩
    · cases hm.symm.trans h
    · cases hx.symm.trans h
  | _ => cases h

/-- Null and nothing are the same value. -/
theorem Value.ofOption_ofJson (json : Option Json) :
    ofOption ofJson json = ofJson (json.getD .null) := by
  cases json with
  | none => simp [ofOption, ofJson]
  | some json => rfl

/-! ## 2. Induction along a reading -/

/-- Induction over a literal: into all parts of it at once. -/
@[induction_eliminator]
theorem Literal.induct {P : Literal → Prop} (null : P .null) (boolean : ∀ b, P (.boolean b))
    (int : ∀ text, P (.int text)) (float : ∀ text, P (.float text))
    (string : ∀ s, P (.string s)) (enum : ∀ name, P (.enum name))
    (var : ∀ name, P (.variable name))
    (list : ∀ items, (∀ item ∈ items, P item) → P (.list items))
    (object : ∀ fields, (∀ field ∈ fields, P field.2) → P (.object fields)) (literal : Literal) :
    P literal := by
  refine @Literal.rec P (fun items => ∀ item ∈ items, P item)
    (fun fields => ∀ field ∈ fields, P field.2) (fun field => P field.2)
    null boolean int float string enum var list object ?_ ?_ ?_ ?_ ?_ literal
  · exact List.forall_mem_nil _
  · exact fun _ _ hHead hRest => List.forall_mem_cons.mpr ⟨hHead, hRest⟩
  · exact List.forall_mem_nil _
  · exact fun _ _ hHead hRest => List.forall_mem_cons.mpr ⟨hHead, hRest⟩
  · exact fun _ _ h => h

/-- Induction along the reading of a JSON value at a type: first into what is given, and then, while
that stays the same, into the type. -/
theorem Json.readInduct {P : Json → TypeRef → Prop} (null : ∀ type, P .null type)
    (items : ∀ items item required, (∀ json ∈ items, P json item) →
      P (.array items) (.list item required))
    (single : ∀ json item required, json.isSingle = true → P json item →
      P json (.list item required))
    (named : ∀ json name required, json.isNull = false →
      (∀ key value, json.members.get? key = some value → ∀ type, P value type) →
      P json (.named name required))
    (json : Json) (type : TypeRef) : P json type := by
  -- What is below a value is given to `named` only, so one induction on the type serves all kinds.
  have hsingle : ∀ json : Json, json.isSingle = true →
      (∀ key value, json.members.get? key = some value → ∀ type, P value type) →
      ∀ type, P json type := by
    intro json hs hm type
    have hn : json.isNull = false := by
      cases json <;> first | rfl | cases hs
    induction type with
    | named name required => exact named json name required hn hm
    | list item required ih => exact single json item required hs ih
  have hleaf : ∀ json : Json, json.isSingle = true → json.members = [] → ∀ type, P json type := by
    intro json hs hm
    refine hsingle json hs fun key value h => ?_
    rw [hm] at h
    cases h
  induction json generalizing type with
  | null => exact null type
  | array all ih =>
    cases type with
    | named name required =>
      exact named _ name required rfl fun _ _ h => by cases h
    | list item required => exact items all item required fun json hm => ih json hm item
  | object members ih =>
    refine hsingle _ rfl (fun key value h type => ?_) type
    exact ih _ (Entries.mem_of_get? h) type
  | boolean b => exact hleaf _ rfl rfl type
  | number n => exact hleaf _ rfl rfl type
  | string s => exact hleaf _ rfl rfl type

/-- Induction along the reading of a literal at a type. -/
theorem Literal.readInduct {P : Literal → TypeRef → Prop} (null : ∀ type, P .null type)
    (var : ∀ name type, P (.variable name) type)
    (items : ∀ items item required, (∀ literal ∈ items, P literal item) →
      P (.list items) (.list item required))
    (single : ∀ literal item required, literal.isSingle = true → P literal item →
      P literal (.list item required))
    (named : ∀ literal name required, literal ≠ .null → (∀ name, literal ≠ .variable name) →
      (∀ key value, literal.fields.get? key = some value → ∀ type, P value type) →
      P literal (.named name required))
    (literal : Literal) (type : TypeRef) : P literal type := by
  have hsingle : ∀ literal : Literal, literal.isSingle = true →
      (∀ key value, literal.fields.get? key = some value → ∀ type, P value type) →
      ∀ type, P literal type := by
    intro literal hs hf type
    have hn : literal ≠ .null := by
      rintro rfl
      cases hs
    have hv : ∀ name, literal ≠ .variable name := by
      rintro name rfl
      cases hs
    induction type with
    | named name required => exact named literal name required hn hv hf
    | list item required ih => exact single literal item required hs ih
  have hleaf : ∀ literal : Literal, literal.isSingle = true → literal.fields = [] →
      ∀ type, P literal type := by
    intro literal hs hf
    refine hsingle literal hs fun key value h => ?_
    rw [hf] at h
    cases h
  induction literal generalizing type with
  | null => exact null type
  | var name => exact var name type
  | list all ih =>
    cases type with
    | named name required =>
      exact named (.list all) name required nofun nofun fun _ _ h => by cases h
    | list item required => exact items all item required fun literal hm => ih literal hm item
  | object fields ih =>
    refine hsingle _ rfl (fun key value h type => ?_) type
    exact ih _ (Entries.mem_of_get? h) type
  | boolean b => exact hleaf _ rfl rfl type
  | int text => exact hleaf _ rfl rfl type
  | float text => exact hleaf _ rfl rfl type
  | string s => exact hleaf _ rfl rfl type
  | enum name => exact hleaf _ rfl rfl type

/-! ## 3. The layers -/

theorem InputValueDefinition.withDefault_null (input : InputValueDefinition) :
    input.withDefault .null = input.default.getD .null := by
  unfold withDefault
  cases input.default <;> rfl

theorem InputValueDefinition.withDefault_of_isNull_eq_false (input : InputValueDefinition)
    {value : Value} (hv : value.isNull = false) : input.withDefault value = value := by
  cases value <;> first | rfl | cases hv

namespace Schema

variable {schema : Schema}

theorem areValid_eq_all (items : List Value) (type : TypeRef) :
    schema.areValid items type = items.all fun item => schema.isValid item type := by
  induction items with
  | nil => rfl
  | cons item rest ih => exact congrArg (schema.isValid item type && ·) ih

theorem coerceSuppliedItems_eq_map (items : List Value) (type : TypeRef) :
    schema.coerceSuppliedItems items type =
      items.map fun item => schema.coerceSupplied item type := by
  induction items with
  | nil => rfl
  | cons item rest ih => exact congrArg (schema.coerceSupplied item type :: ·) ih

theorem entryChecks_eq_map (entries : List (String × Value)) :
    schema.entryChecks entries =
      entries.map fun entry => (entry.1, schema.isValid entry.2) := by
  induction entries with
  | nil => rfl
  | cons entry rest ih => exact congrArg ((entry.1, schema.isValid entry.2) :: ·) ih

theorem coerceSuppliedEntries_eq_map (entries : List (String × Value)) :
    schema.coerceSuppliedEntries entries =
      entries.map fun entry => (entry.1, schema.coerceSupplied entry.2) := by
  induction entries with
  | nil => rfl
  | cons entry rest ih => exact congrArg ((entry.1, schema.coerceSupplied entry.2) :: ·) ih

section Leaf

variable {name : Name} {required : Bool} {value : Value}

/-- What is no map at an input object type is left to the scalar and enum types. -/
theorem isValid_leaf (hn : value.isNull = false)
    (hl : (∀ entries, value ≠ .map entries) ∨
      ∀ type, schema.types.get? name ≠ some (.input type)) :
    schema.isValid value (.named name required) = schema.isValidLeaf value name := by
  cases value with
  | null => cases hn
  | map entries =>
    rw [isValid, TypeRef.innermost]
    split
    · next type ht => exact (hl.elim (fun h => h entries rfl) (fun h => h type ht)).elim
    · rfl
  | _ => rfl

theorem coerceSupplied_leaf (hn : value.isNull = false)
    (hl : (∀ entries, value ≠ .map entries) ∨
      ∀ type, schema.types.get? name ≠ some (.input type)) :
    schema.coerceSupplied value (.named name required) = schema.coerceLeaf value name := by
  cases value with
  | null => cases hn
  | map entries =>
    rw [coerceSupplied, TypeRef.promote]
    split
    · next type ht => exact (hl.elim (fun h => h entries rfl) (fun h => h type ht)).elim
    · rfl
  | _ => rfl

end Leaf

/-- At a name, what is made as an object is read by its members if the name is that of an input
object type, and all else is read as a leaf. -/
theorem object_or_leaf {α β : Type} (schema : Schema) (object : β → α) (given : α) (name : Name) :
    (∃ members type, given = object members ∧
        schema.types.get? name = some (.input type)) ∨
      ((∀ members, given ≠ object members) ∨
        ∀ type, schema.types.get? name ≠ some (.input type)) := by
  by_cases ho : ∃ members, given = object members
  · obtain ⟨members, ho⟩ := ho
    by_cases ht : ∃ type, schema.types.get? name = some (.input type)
    · obtain ⟨type, ht⟩ := ht
      exact Or.inl ⟨members, type, ho, ht⟩
    · exact Or.inr (Or.inr (not_exists.mp ht))
  · exact Or.inr (Or.inl (not_exists.mp ho))

section Json

variable {json : Json} {name : Name} {item : TypeRef} {required : Bool}

theorem isValid_ofJson_null (type : TypeRef) :
    schema.isValid (.ofJson .null) type = !type.required :=
  rfl

theorem coerceSupplied_ofJson_null (type : TypeRef) :
    schema.coerceSupplied (.ofJson .null) type = .null :=
  rfl

theorem isValid_ofJson_array (items : List Json) :
    schema.isValid (.ofJson (.array items)) (.list item required) =
      items.all fun json => schema.isValid (.ofJson json) item := by
  show schema.areValid (Value.itemsOfJson items) item = _
  rw [areValid_eq_all, Value.itemsOfJson_eq_map, List.all_map]
  rfl

theorem coerceSupplied_ofJson_array (items : List Json) :
    schema.coerceSupplied (.ofJson (.array items)) (.list item required) =
      .list (items.map fun json => schema.coerceSupplied (.ofJson json) item) := by
  show Value.list (schema.coerceSuppliedItems (Value.itemsOfJson items) item) = _
  rw [coerceSuppliedItems_eq_map, Value.itemsOfJson_eq_map, List.map_map]
  rfl

theorem isValid_single {value : Value} (hs : value.isSingle = true) :
    schema.isValid value (.list item required) = schema.isValid value item := by
  cases value with
  | null => cases hs
  | list items => cases hs
  | _ => rfl

theorem coerceSupplied_single {value : Value} (hs : value.isSingle = true) :
    schema.coerceSupplied value (.list item required) =
      .list [schema.coerceSupplied value item] := by
  cases value with
  | null => cases hs
  | list items => cases hs
  | _ => rfl

theorem isValid_ofJson_single (hs : json.isSingle = true) :
    schema.isValid (.ofJson json) (.list item required) = schema.isValid (.ofJson json) item :=
  isValid_single (by rwa [Value.isSingle_ofJson])

theorem coerceSupplied_ofJson_single (hs : json.isSingle = true) :
    schema.coerceSupplied (.ofJson json) (.list item required) =
      .list [schema.coerceSupplied (.ofJson json) item] :=
  coerceSupplied_single (by rwa [Value.isSingle_ofJson])

theorem not_map_of_not_object (hl : (∀ members, json ≠ .object members) ∨
      ∀ type, schema.types.get? name ≠ some (.input type)) :
    (∀ entries, Value.ofJson json ≠ .map entries) ∨
      ∀ type, schema.types.get? name ≠ some (.input type) :=
  hl.imp_left fun h entries he => by
    obtain ⟨members, hm⟩ := Value.ofJson_eq_map he
    exact h members hm

theorem isValid_ofJson_leaf (hn : json.isNull = false)
    (hl : (∀ members, json ≠ .object members) ∨
      ∀ type, schema.types.get? name ≠ some (.input type)) :
    schema.isValid (.ofJson json) (.named name required) = schema.isValidLeaf (.ofJson json) name :=
  isValid_leaf (by rwa [Value.isNull_ofJson]) (not_map_of_not_object hl)

theorem coerceSupplied_ofJson_leaf (hn : json.isNull = false)
    (hl : (∀ members, json ≠ .object members) ∨
      ∀ type, schema.types.get? name ≠ some (.input type)) :
    schema.coerceSupplied (.ofJson json) (.named name required) =
      schema.coerceLeaf (.ofJson json) name :=
  coerceSupplied_leaf (by rwa [Value.isNull_ofJson]) (not_map_of_not_object hl)

/-- A member that is not there is checked like null. -/
theorem isValid_ofJson_object {type : InputObjectType} (members : Json.Members)
    (ht : schema.types.get? name = some (.input type)) :
    schema.isValid (.ofJson (.object members)) (.named name required) =
      type.fields.entries.all fun input =>
        schema.isValid (.ofJson ((members.get? input.name).getD .null)) input.type := by
  rw [Value.ofJson, isValid, TypeRef.innermost, ht, entryChecks_eq_map,
    Value.entriesOfJson_eq_map]
  refine congrArg type.fields.entries.all (funext fun input => ?_)
  simp only [Entries.get?_map]
  cases members.get? input.name with
  | none => exact (isValid_ofJson_null input.type).symm
  | some json => rfl

theorem coerceSupplied_ofJson_object {type : InputObjectType} (members : Json.Members)
    (ht : schema.types.get? name = some (.input type)) :
    schema.coerceSupplied (.ofJson (.object members)) (.named name required) =
      type.assemble fun input =>
        schema.coerceSupplied (.ofJson ((members.get? input.name).getD .null)) input.type := by
  rw [Value.ofJson, coerceSupplied, TypeRef.promote, ht, coerceSuppliedEntries_eq_map,
    Value.entriesOfJson_eq_map]
  refine congrArg type.assemble (funext fun input => ?_)
  simp only [Entries.get?_map]
  cases members.get? input.name with
  | none => exact (coerceSupplied_ofJson_null input.type).symm
  | some json => rfl

end Json

section Literal

variable {literal : Literal} {name : Name} {item : TypeRef} {required : Bool}
variable (values : Entries Value)

theorem coerceLiteral_null (type : TypeRef) :
    schema.coerceLiteral values .null type = .null :=
  rfl

theorem coerceLiteralItems_eq_map (items : List Literal) (type : TypeRef) :
    schema.coerceLiteralItems values items type =
      items.map fun item => schema.coerceLiteral values item type := by
  induction items with
  | nil => rfl
  | cons item rest ih => exact congrArg (schema.coerceLiteral values item type :: ·) ih

theorem coerceLiteralFields_eq_map (fields : List (Name × Literal)) :
    schema.coerceLiteralFields values fields =
      fields.map fun field => (field.1, schema.coerceLiteral values field.2) := by
  induction fields with
  | nil => rfl
  | cons field rest ih =>
    exact congrArg ((field.1, schema.coerceLiteral values field.2) :: ·) ih

theorem coerceLiteral_list (items : List Literal) :
    schema.coerceLiteral values (.list items) (.list item required) =
      .list (items.map fun literal => schema.coerceLiteral values literal item) :=
  congrArg Value.list (coerceLiteralItems_eq_map values items item)

theorem coerceLiteral_single (hs : literal.isSingle = true) :
    schema.coerceLiteral values literal (.list item required) =
      .list [schema.coerceLiteral values literal item] := by
  cases literal with
  | null => cases hs
  | «variable» name => cases hs
  | list items => cases hs
  | _ => rfl

theorem coerceLiteral_object {type : InputObjectType} (fields : List (Name × Literal))
    (ht : schema.types.get? name = some (.input type)) :
    schema.coerceLiteral values (.object fields) (.named name required) =
      type.assemble fun input => schema.coerceLiteral values
        ((Entries.get? fields input.name).getD .null) input.type := by
  rw [coerceLiteral, TypeRef.promote, ht, coerceLiteralFields_eq_map]
  refine congrArg type.assemble (funext fun input => ?_)
  simp only [Entries.get?_map]
  cases Entries.get? fields input.name with
  | none => exact (coerceLiteral_null values input.type).symm
  | some literal => rfl

theorem coerceLiteral_leaf (hn : literal ≠ .null) (hv : ∀ name, literal ≠ .variable name)
    (hl : (∀ fields, literal ≠ .object fields) ∨
      ∀ type, schema.types.get? name ≠ some (.input type)) :
    schema.coerceLiteral values literal (.named name required) =
      schema.coerceLeafLiteral literal name := by
  cases literal with
  | null => exact absurd rfl hn
  | «variable» other => exact absurd rfl (hv other)
  | object fields =>
    rw [coerceLiteral, TypeRef.promote]
    split
    · next type ht => exact (hl.elim (fun h => h fields rfl) (fun h => h type ht)).elim
    · rfl
  | _ => rfl

end Literal

/-! ## 4. Variables -/

section Variable

variable {supplied : Json.Members} {definition : VariableDefinition}

theorem coerceVariable_of_unlisted (hl : (schema.get? definition.type.innermost).isSome = false) :
    schema.coerceVariable supplied definition = .ok .null := by
  unfold coerceVariable
  simp only [Option.isSome_eq_false_iff.mp hl, if_true]

variable (hl : (schema.get? definition.type.innermost).isSome = true)

include hl

theorem coerceVariable_of_invalid
    (hv : schema.isValid (.ofJson ((supplied.get? definition.name).getD .null)) definition.type =
      false) :
    schema.coerceVariable supplied definition =
      .error (.invalidVariable definition.name definition.location) := by
  unfold coerceVariable
  simp only [Option.isNone_eq_false_iff.mpr hl, Value.ofOption_ofJson, hv, Bool.false_eq_true,
    if_false]

/-- A value that is given is not replaced by the default, and null is not if there is none. -/
theorem coerceVariable_of_given {json : Json} (hg : supplied.get? definition.name = some json)
    (hd : json.isNull = true → definition.default = none)
    (hv : schema.isValid (.ofJson json) definition.type = true) :
    schema.coerceVariable supplied definition =
      .ok (schema.coerceSupplied (.ofJson json) definition.type) := by
  unfold coerceVariable
  simp only [Option.isNone_eq_false_iff.mpr hl, Value.ofOption_ofJson, hg, Option.getD_some, hv,
    Bool.false_eq_true, if_false, if_true]
  split
  · next hnull hdefault =>
    rw [hd (by rw [← Value.isNull_ofJson, hnull, Value.isNull_null])] at hdefault
    cases hdefault
  · rfl

/-- Null is replaced by the default, and so is what is not given, if the type allows null. -/
theorem coerceVariable_of_default {default : Literal} (hd : definition.default = some default)
    (hr : definition.type.required = false)
    (hg : (supplied.get? definition.name).getD .null = .null) :
    schema.coerceVariable supplied definition =
      .ok (schema.coerceLiteral [] default definition.type) := by
  have hv : schema.isValid .null definition.type = true := congrArg (!·) hr
  unfold coerceVariable
  simp only [Option.isNone_eq_false_iff.mpr hl, Value.ofOption_ofJson, hg, Value.ofJson, hv, hd,
    Bool.false_eq_true, if_false, if_true]

theorem exists_coerceVariable_of_valid
    (hv : schema.isValid (.ofJson ((supplied.get? definition.name).getD .null)) definition.type =
      true) :
    ∃ value, schema.coerceVariable supplied definition = .ok value := by
  unfold coerceVariable
  simp only [Option.isNone_eq_false_iff.mpr hl, Value.ofOption_ofJson, hv, Bool.false_eq_true,
    if_false, if_true]
  split <;> exact ⟨_, rfl⟩

end Variable

/-- Variables of the same names that have the same values one by one have the same table of values,
or are refused with the same error. -/
theorem coerceVariables_congr_of_forall₂ {schema schema' : Schema}
    {supplied supplied' : Json.Members} {declared declared' : List VariableDefinition}
    (h : List.Forall₂ (fun definition definition' => definition'.name = definition.name ∧
      schema'.coerceVariable supplied' definition' = schema.coerceVariable supplied definition)
      declared declared') :
    schema'.coerceVariables declared' supplied' = schema.coerceVariables declared supplied := by
  suffices hinto : ∀ values, schema'.coerceVariablesInto supplied' values declared' =
      schema.coerceVariablesInto supplied values declared from hinto []
  induction h with
  | nil => exact fun _ => rfl
  | @cons definition definition' _ _ hone _ ih =>
    intro values
    rw [coerceVariablesInto, coerceVariablesInto, hone.1, hone.2]
    cases schema.coerceVariable supplied definition with
    | error error => rfl
    | ok value => exact ih _

end Schema

end GraphQL
