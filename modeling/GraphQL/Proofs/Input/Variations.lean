import Mathlib.Data.List.Find
import Mathlib.Logic.Relation
import GraphQL.Proofs.Input.Absence

/-!
# `GraphQL/Proofs/Input/Variations.lean` — input in another order, and with more in it

Reading goes through what is declared and looks up the names one by one. So it does not matter in
which order a client gives arguments, fields of objects or members of JSON objects, and what is
given and not declared is as good as not given. The values that come of it have the declared names
in the declared order, whatever was given (`Schema.inputs_of_varies`).

Both can happen anywhere in a literal. At each type that is expected in it the schema says what is
declared (`Schema.fieldType?`, `TypeRef.item?`), and where it says nothing, nothing is looked up:
what stands there can be replaced by anything (`Schema.LiteralVaries`). Supplied values are varied
at input objects only (`Schema.JsonVaries`): an enum value may have a map for its internal value,
and that is compared as a whole.
-/

set_option autoImplicit false

namespace GraphQL

/-! ## 1. Tables in another order and with more in them, and chains of steps -/

/-- If no name stands twice, the order does not matter to what is found under a name. -/
theorem find?_of_perm {α : Type} {name : α → Name} {all all' : List α}
    (hd : (all.map name).Nodup) (hp : all.Perm all') (wanted : Name) :
    (all'.find? fun entry => name entry = wanted) = all.find? fun entry => name entry = wanted := by
  refine (List.find?_eq_find?_of_perm hp ?_).symm
  rintro a ⟨ha, hna⟩ b ⟨hb, hnb⟩
  have hname : name a = name b := (of_decide_eq_true hna).trans (of_decide_eq_true hnb).symm
  exact List.inj_on_of_nodup_map hd ha hb hname

/-- An entry of another name can be there or not. -/
theorem find?_of_extra {α : Type} {name : α → Name} {before after : List α} {extra : α}
    {wanted : Name} (hn : name extra ≠ wanted) :
    ((before ++ extra :: after).find? fun entry => name entry = wanted) =
      (before ++ after).find? fun entry => name entry = wanted := by
  rw [List.find?_append, List.find?_append, List.find?_cons, decide_eq_false hn]

/-- What holds from each variation to the next holds between any two that are connected. -/
theorem eq_of_eqvGen {α β : Type} {r : α → α → Prop} {f : α → β} (hr : ∀ a b, r a b → f b = f a)
    {a b : α} (h : Relation.EqvGen r a b) : f b = f a :=
  congrArg (Quot.lift f fun a b hab => (hr a b hab).symm) (Quot.eqvGen_sound h).symm

theorem eqvGen_map {α β : Type} {r : α → α → Prop} {r' : β → β → Prop} {f : α → β}
    (hr : ∀ a b, r a b → r' (f a) (f b)) {a b : α} (h : Relation.EqvGen r a b) :
    Relation.EqvGen r' (f a) (f b) :=
  Quot.eqvGen_exact (congrArg (Quot.map f hr) (Quot.eqvGen_sound h))

namespace Entries

variable {α : Type}

theorem get?_eq_find? (table : Entries α) (key : String) :
    get? table key = (table.find? fun entry => entry.1 = key).map (·.2) := by
  induction table with
  | nil => rfl
  | cons entry rest ih =>
    rw [get?, List.find?_cons, ih]
    by_cases hk : entry.1 = key <;> simp [hk]

theorem get?_of_perm {table table' : Entries α} (hd : table.keys.Nodup) (hp : table.Perm table')
    (wanted : String) : get? table' wanted = get? table wanted := by
  rw [get?_eq_find?, get?_eq_find?, find?_of_perm hd hp]

theorem get?_of_extra {before after : Entries α} {key wanted : String} (hk : key ≠ wanted)
    (entry : α) :
    get? (before ++ (key, entry) :: after) wanted = get? (before ++ after) wanted := by
  rw [get?_append, get?_append, get?, if_neg hk]

end Entries

/-! ## 2. Variations of literals -/

/-- The type of the items of a list literal at a type; there is none where no list is expected. -/
def TypeRef.item? : TypeRef → Option TypeRef
  | .list item _ => some item
  | .named _ _ => none

namespace Schema

variable (schema : Schema)

/-- The type of a field of an object literal at a type; there is none for a field that is not
declared. An object at a list type is read at the name inside. -/
def fieldType? (type : TypeRef) (key : Name) : Option TypeRef :=
  match schema.types.get? type.innermost with
  | some (.input inputType) => (inputType.fields.get? key).map (·.type)
  | _ => none

/-- At a type, the second of two literals is the first with the fields of an object in another
order, or with a field that is not declared; and what no type is declared for is anything. -/
inductive LiteralVaries : Literal → Literal → TypeRef → Prop where
  | permuted {fields fields' : List (Name × Literal)} {type : TypeRef}
    (hd : (Entries.keys fields).Nodup) (hp : fields.Perm fields') :
    LiteralVaries (.object fields) (.object fields') type
  | extra {before after : List (Name × Literal)} {key : Name} {literal : Literal} {type : TypeRef}
    (hn : schema.fieldType? type key = none) :
    LiteralVaries (.object (before ++ after)) (.object (before ++ (key, literal) :: after)) type
  | field {before after : List (Name × Literal)} {key : Name} {literal literal' : Literal}
    {type : TypeRef} (h : ∀ fieldType, schema.fieldType? type key = some fieldType →
      LiteralVaries literal literal' fieldType) :
    LiteralVaries (.object (before ++ (key, literal) :: after))
      (.object (before ++ (key, literal') :: after)) type
  | item {before after : List Literal} {literal literal' : Literal} {type : TypeRef}
    (h : ∀ item, type.item? = some item → LiteralVaries literal literal' item) :
    LiteralVaries (.list (before ++ literal :: after)) (.list (before ++ literal' :: after)) type

/-- Of two lists of arguments, the second is the first in another order, or with an argument that is
not declared, or with a variation of the literal of an argument. -/
inductive ArgumentsVary (declared : List InputValueDefinition) :
    List Argument → List Argument → Prop where
  | permuted {given given' : List Argument} (hd : (given.map (·.name)).Nodup)
    (hp : given.Perm given') : ArgumentsVary declared given given'
  | extra {before after : List Argument} {argument : Argument}
    (hn : argument.name ∉ declared.map (·.name)) :
    ArgumentsVary declared (before ++ after) (before ++ argument :: after)
  | inside {before after : List Argument} {name : Name} {literal literal' : Literal}
    (h : ∀ input ∈ declared, input.name = name →
      schema.LiteralVaries literal literal' input.type) :
    ArgumentsVary declared (before ++ ⟨name, literal⟩ :: after)
      (before ++ ⟨name, literal'⟩ :: after)

/-- No scalar type of the author is looked up when something is read at a type. -/
def BuiltInScalars (type : TypeRef) : Prop :=
  ∀ name, schema.Consults type name →
    ∀ scalar, schema.types.get? name = some (.scalar scalar) → scalar ∈ Scalar.builtIn

variable {schema}

theorem fieldType?_of_mem {type : TypeRef} {inputType : InputObjectType}
    (ht : schema.types.get? type.innermost = some (.input inputType))
    {input : InputValueDefinition} (hm : input ∈ inputType.fields.entries) :
    schema.fieldType? type input.name = some input.type := by
  have hinput : inputType.fields.get? input.name = some input :=
    Table.get?_eq_some_iff.mpr ⟨hm, rfl⟩
  rw [fieldType?, ht]
  exact congrArg (Option.map (·.type)) hinput

theorem Standard.builtInScalars {type : TypeRef} (h : schema.Standard type) :
    schema.BuiltInScalars type := by
  intro name hc scalar hs
  cases h name hc with
  | scalar ht hm =>
    cases ht.symm.trans hs
    exact hm
  | enum ht => cases ht.symm.trans hs
  | input ht => cases ht.symm.trans hs

theorem BuiltInScalars.field {type fieldType : TypeRef} {key : Name}
    (h : schema.BuiltInScalars type) (hf : schema.fieldType? type key = some fieldType) :
    schema.BuiltInScalars fieldType := by
  unfold fieldType? at hf
  split at hf
  · next inputType ht =>
    obtain ⟨input, hi, rfl⟩ := Option.map_eq_some_iff.mp hf
    have hm := (Table.get?_eq_some_iff.mp hi).1
    exact fun name hc => h name (.head ⟨inputType, ht, input, hm, rfl⟩ hc)
  · cases hf

section Literal

variable {values : Entries Value} {type : TypeRef}

/-- Built-in scalar types and enum types refuse lists and objects. -/
theorem coerceLiteral_of_nested {literal : Literal} {name : Name} {required : Bool}
    (hl : (∃ items, literal = .list items) ∨ (∃ fields, literal = .object fields) ∧
      ∀ type, schema.types.get? name ≠ some (.input type))
    (hb : schema.BuiltInScalars (.named name required)) :
    schema.coerceLiteral values literal (.named name required) = .null := by
  have hleaf : schema.coerceLiteral values literal (.named name required) =
      schema.coerceLeafLiteral literal name := by
    rcases hl with ⟨items, rfl⟩ | ⟨⟨fields, rfl⟩, hi⟩
    · exact coerceLiteral_leaf values nofun nofun (Or.inl nofun)
    · exact coerceLiteral_leaf values nofun nofun (Or.inr hi)
  rw [hleaf, coerceLeafLiteral]
  split
  · next type ht =>
    have hm := hb name .refl type ht
    simp only [Scalar.builtIn, List.mem_cons, List.not_mem_nil, or_false] at hm
    rcases hl with ⟨items, rfl⟩ | ⟨⟨fields, rfl⟩, -⟩ <;>
      rcases hm with rfl | rfl | rfl | rfl | rfl <;> rfl
  · rcases hl with ⟨items, rfl⟩ | ⟨⟨fields, rfl⟩, -⟩ <;> rfl
  · rfl

/-- An object literal is read by its declared fields. -/
theorem coerceLiteral_object_congr {fields fields' : List (Name × Literal)}
    (hb : schema.BuiltInScalars type)
    (hf : ∀ key fieldType, schema.fieldType? type key = some fieldType →
      schema.coerceLiteral values ((Entries.get? fields' key).getD .null) fieldType =
        schema.coerceLiteral values ((Entries.get? fields key).getD .null) fieldType) :
    schema.coerceLiteral values (.object fields') type =
      schema.coerceLiteral values (.object fields) type := by
  induction type with
  | named name required =>
    by_cases ht : ∃ inputType, schema.types.get? name = some (.input inputType)
    · obtain ⟨inputType, ht⟩ := ht
      rw [coerceLiteral_object values fields ht, coerceLiteral_object values fields' ht]
      exact InputObjectType.assemble_congr fun input hm => hf _ _ (fieldType?_of_mem ht hm)
    · have hl := not_exists.mp ht
      rw [coerceLiteral_of_nested (Or.inr ⟨⟨_, rfl⟩, hl⟩) hb,
        coerceLiteral_of_nested (Or.inr ⟨⟨_, rfl⟩, hl⟩) hb]
  | list item required ih =>
    rw [coerceLiteral_single values rfl, coerceLiteral_single values rfl, ih hb hf]

/-- Variations of a literal are read alike. -/
theorem LiteralVaries.coerceLiteral_eq {literal literal' : Literal}
    (h : schema.LiteralVaries literal literal' type) (hb : schema.BuiltInScalars type) :
    schema.coerceLiteral values literal' type = schema.coerceLiteral values literal type := by
  induction h with
  | permuted hd hp =>
    refine coerceLiteral_object_congr hb fun key fieldType _ => ?_
    rw [Entries.get?_of_perm hd hp]
  | extra hn =>
    refine coerceLiteral_object_congr hb fun wanted fieldType hf => ?_
    rw [Entries.get?_of_extra]
    rintro rfl
    cases hn.symm.trans hf
  | field _ ih =>
    refine coerceLiteral_object_congr hb fun wanted fieldType hf => ?_
    refine Entries.getD_get?_of_changed
      (fun literal => schema.coerceLiteral values literal fieldType) ?_ .null
    rintro rfl
    exact ih fieldType hf (hb.field hf)
  | @item before after literal literal' type _ ih =>
    cases type with
    | named name required =>
      rw [coerceLiteral_of_nested (Or.inl ⟨_, rfl⟩) hb,
        coerceLiteral_of_nested (Or.inl ⟨_, rfl⟩) hb]
    | list item required =>
      rw [coerceLiteral_list, coerceLiteral_list]
      simp only [List.map_append, List.map_cons, ih item rfl hb]

end Literal

/-! ## 3. Arguments -/

section Arguments

variable {declared : List InputValueDefinition} {given given' : List Argument}
variable (values : Entries Value)

/-- If no name is declared twice, there is a value for each declared name, in order. -/
theorem keys_coerceArguments (hd : (declared.map (·.name)).Nodup) (given : List Argument) :
    (schema.coerceArguments values declared given).keys = declared.map (·.name) := by
  have hkeys : ∀ value : InputValueDefinition → Value,
      Entries.keys (declared.map fun input => (input.name, value input)) =
        declared.map (·.name) := by
    intro value
    rw [Entries.keys, List.map_map]
    rfl
  rw [coerceArguments, Entries.ofList_of_nodup (by rwa [hkeys]), hkeys]

theorem coerceArguments_congr_find?
    (h : ∀ input ∈ declared, (given'.find? fun argument => argument.name = input.name) =
      given.find? fun argument => argument.name = input.name) :
    schema.coerceArguments values declared given' =
      schema.coerceArguments values declared given := by
  unfold coerceArguments
  refine congrArg Entries.ofList (List.map_congr_left fun input hm => ?_)
  rw [h input hm]

/-- Variations of arguments have the same values. -/
theorem ArgumentsVary.coerceArguments_eq
    (hb : ∀ input ∈ declared, schema.BuiltInScalars input.type)
    (h : schema.ArgumentsVary declared given given') :
    schema.coerceArguments values declared given' =
      schema.coerceArguments values declared given := by
  cases h with
  | permuted hd hp =>
    exact coerceArguments_congr_find? values fun input _ => find?_of_perm hd hp input.name
  | extra hn =>
    refine coerceArguments_congr_find? values fun input hm => find?_of_extra fun hname => ?_
    exact hn (hname ▸ List.mem_map_of_mem hm)
  | inside h =>
    exact coerceArguments_congr values
      (fun input hm hname => (h input hm hname).coerceLiteral_eq (hb input hm)) _ _

end Arguments

/-! ## 4. Supplied values -/

variable (schema)

/-- At a type, the second of two JSON values is the first with the members of an object in another
order, or with a member that is not declared, where the object is to be an input object. -/
inductive JsonVaries : Json → Json → TypeRef → Prop where
  | permuted {members members' : Json.Members} {type : TypeRef} {inputType : InputObjectType}
    (ht : schema.types.get? type.innermost = some (.input inputType))
    (hd : (Entries.keys members).Nodup) (hp : members.Perm members') :
    JsonVaries (.object members) (.object members') type
  | extra {before after : Json.Members} {key : Name} {json : Json} {type : TypeRef}
    {inputType : InputObjectType} (ht : schema.types.get? type.innermost = some (.input inputType))
    (hn : schema.fieldType? type key = none) :
    JsonVaries (.object (before ++ after)) (.object (before ++ (key, json) :: after)) type
  | member {before after : Json.Members} {key : Name} {json json' : Json} {type fieldType : TypeRef}
    (hf : schema.fieldType? type key = some fieldType) (h : JsonVaries json json' fieldType) :
    JsonVaries (.object (before ++ (key, json) :: after))
      (.object (before ++ (key, json') :: after)) type
  | item {before after : List Json} {json json' : Json} {item : TypeRef} {required : Bool}
    (h : JsonVaries json json' item) :
    JsonVaries (.array (before ++ json :: after)) (.array (before ++ json' :: after))
      (.list item required)

/-- Of two lists of supplied values, the second has a variation of the value of a variable. -/
inductive SuppliedVary (declared : List VariableDefinition) :
    Json.Members → Json.Members → Prop where
  | inside {before after : Json.Members} {key : Name} {json json' : Json}
    (h : ∀ definition ∈ declared, definition.name = key →
      schema.JsonVaries json json' definition.type) :
    SuppliedVary declared (before ++ (key, json) :: after) (before ++ (key, json') :: after)

/-- Of two declarations of a variable, the second has a variation of the default. -/
structure DefaultVaries (definition definition' : VariableDefinition) : Prop where
  location : definition'.location = definition.location
  name : definition'.name = definition.name
  type : definition'.type = definition.type
  default : Option.Rel
    (Relation.EqvGen fun literal literal' => schema.LiteralVaries literal literal' definition.type)
    definition.default definition'.default

variable {schema}

section Supplied

variable {json json' : Json} {type : TypeRef}

theorem exists_input_of_fieldType? {key : Name} {fieldType : TypeRef}
    (hf : schema.fieldType? type key = some fieldType) :
    ∃ inputType, schema.types.get? type.innermost = some (.input inputType) := by
  unfold fieldType? at hf
  split at hf
  · next inputType ht => exact ⟨inputType, ht⟩
  · cases hf

/-- An object at an input object type is checked and read by its declared members. -/
theorem reads_object_congr {members members' : Json.Members} {inputType : InputObjectType}
    (ht : schema.types.get? type.innermost = some (.input inputType))
    (hm : ∀ key fieldType, schema.fieldType? type key = some fieldType →
      schema.isValid (.ofJson ((members'.get? key).getD .null)) fieldType =
          schema.isValid (.ofJson ((members.get? key).getD .null)) fieldType ∧
        schema.coerceSupplied (.ofJson ((members'.get? key).getD .null)) fieldType =
          schema.coerceSupplied (.ofJson ((members.get? key).getD .null)) fieldType) :
    schema.isValid (.ofJson (.object members')) type =
        schema.isValid (.ofJson (.object members)) type ∧
      schema.coerceSupplied (.ofJson (.object members')) type =
        schema.coerceSupplied (.ofJson (.object members)) type := by
  induction type with
  | named name required =>
    change schema.types.get? name = some (.input inputType) at ht
    rw [isValid_ofJson_object members ht, isValid_ofJson_object members' ht,
      coerceSupplied_ofJson_object members ht, coerceSupplied_ofJson_object members' ht]
    exact ⟨all_congr_of_mem fun input hi => (hm _ _ (fieldType?_of_mem ht hi)).1,
      InputObjectType.assemble_congr fun input hi => (hm _ _ (fieldType?_of_mem ht hi)).2⟩
  | list item required ih =>
    obtain ⟨hv, hc⟩ := ih ht hm
    rw [isValid_ofJson_single rfl, isValid_ofJson_single rfl, coerceSupplied_ofJson_single rfl,
      coerceSupplied_ofJson_single rfl, hv, hc]
    exact ⟨rfl, rfl⟩

/-- Variations of a value are valid alike, and are read alike. -/
theorem JsonVaries.reads (h : schema.JsonVaries json json' type) :
    schema.isValid (.ofJson json') type = schema.isValid (.ofJson json) type ∧
      schema.coerceSupplied (.ofJson json') type = schema.coerceSupplied (.ofJson json) type := by
  induction h with
  | permuted ht hd hp =>
    refine reads_object_congr ht fun key fieldType _ => ?_
    rw [Entries.get?_of_perm hd hp]
    exact ⟨rfl, rfl⟩
  | extra ht hn =>
    refine reads_object_congr ht fun wanted fieldType hf => ?_
    rw [Entries.get?_of_extra]
    · exact ⟨rfl, rfl⟩
    · rintro rfl
      cases hn.symm.trans hf
  | @member before after key json json' type fieldType hf _ ih =>
    obtain ⟨inputType, ht⟩ := exists_input_of_fieldType? hf
    refine reads_object_congr ht fun wanted wantedType hw => ⟨?_, ?_⟩
    · refine Entries.getD_get?_of_changed (fun json => schema.isValid (.ofJson json) wantedType)
        ?_ .null
      rintro rfl
      cases hf.symm.trans hw
      exact ih.1
    · refine Entries.getD_get?_of_changed
        (fun json => schema.coerceSupplied (.ofJson json) wantedType) ?_ .null
      rintro rfl
      cases hf.symm.trans hw
      exact ih.2
  | item _ ih =>
    rw [isValid_ofJson_array, isValid_ofJson_array, coerceSupplied_ofJson_array,
      coerceSupplied_ofJson_array]
    simp only [List.all_append, List.all_cons, List.map_append, List.map_cons, ih, and_self]

theorem JsonVaries.isNull_eq_false (h : schema.JsonVaries json json' type) :
    json.isNull = false ∧ json'.isNull = false := by
  cases h <;> exact ⟨rfl, rfl⟩

end Supplied

/-! ## 5. Variables -/

section Variables

variable {declared : List VariableDefinition} {definition definition' : VariableDefinition}
variable {supplied supplied' : Json.Members}

/-- A variation of what is supplied changes no variable. -/
theorem SuppliedVary.coerceVariable_eq (h : schema.SuppliedVary declared supplied supplied')
    (hm : definition ∈ declared) :
    schema.coerceVariable supplied' definition = schema.coerceVariable supplied definition := by
  cases h with
  | @inside before after key json json' h =>
    have hvaries := fun hn : key = definition.name => h definition hm hn.symm
    have hnull : key = definition.name → json'.isNull = json.isNull := fun hn =>
      (hvaries hn).isNull_eq_false.2.trans (hvaries hn).isNull_eq_false.1.symm
    exact coerceVariable_congr rfl rfl (Entries.getD_get?_of_changed Json.isNull hnull .null)
      (Entries.getD_get?_of_changed (fun json => schema.isValid (.ofJson json) definition.type)
        (fun hn => (hvaries hn).reads.1) .null)
      (Entries.getD_get?_of_changed
        (fun json => schema.coerceSupplied (.ofJson json) definition.type)
        (fun hn => (hvaries hn).reads.2) .null)

/-- A variation of the default changes nothing for its variable. -/
theorem DefaultVaries.coerceVariable_eq (h : schema.DefaultVaries definition definition')
    (hb : schema.BuiltInScalars definition.type) (supplied : Json.Members) :
    schema.coerceVariable supplied definition' = schema.coerceVariable supplied definition := by
  have hdefault := h.default
  unfold coerceVariable
  rw [h.location, h.name, h.type]
  generalize definition.default = default at hdefault
  generalize definition'.default = default' at hdefault
  cases hdefault with
  | none => rfl
  | some hvaries =>
    have hliteral := eq_of_eqvGen (f := fun literal =>
      schema.coerceLiteral [] literal definition.type)
      (fun _ _ hstep => hstep.coerceLiteral_eq hb) hvaries
    cases Value.ofOption Value.ofJson (supplied.get? definition.name) <;> simp only [hliteral]

end Variables

/-! ## 6. All input -/

/-- The order of input does not matter, and neither does what is given and not declared, as long as
no scalar type of the author looks into it. Arguments have a value for each declared name, in the
declared order, and it stays the same if arguments, or the fields of an object in one of them, are
given in another order or with more than is declared. And a variable is refused as before, or it has
the value that it had, if the members of input objects in what is supplied for it, or the fields of
objects in its default, are given in another order or with more than is declared. -/
theorem inputs_of_varies (schema : Schema) :
    (∀ declared : List InputValueDefinition, (declared.map (·.name)).Nodup →
      (∀ input ∈ declared, schema.BuiltInScalars input.type) →
      ∀ (values : Entries Value) (given : List Argument),
        (schema.coerceArguments values declared given).keys = declared.map (·.name) ∧
        ∀ given', Relation.EqvGen (schema.ArgumentsVary declared) given given' →
          schema.coerceArguments values declared given' =
            schema.coerceArguments values declared given) ∧
    ∀ declared declared' : List VariableDefinition,
      (∀ definition ∈ declared, schema.BuiltInScalars definition.type) →
      List.Forall₂ schema.DefaultVaries declared declared' →
      ∀ supplied supplied', Relation.EqvGen (schema.SuppliedVary declared) supplied supplied' →
        List.Forall₂ (fun definition definition' => schema.coerceVariable supplied' definition' =
            schema.coerceVariable supplied definition) declared declared' ∧
          schema.coerceVariables declared' supplied' =
            schema.coerceVariables declared supplied := by
  refine ⟨fun declared hd hb values given => ⟨keys_coerceArguments values hd given, ?_⟩, ?_⟩
  · exact fun given' h => eq_of_eqvGen (fun _ _ hstep => hstep.coerceArguments_eq values hb) h
  · intro declared declared' hb hdefault supplied supplied' hs
    have hvariable : ∀ definition ∈ declared, ∀ definition',
        schema.DefaultVaries definition definition' →
        schema.coerceVariable supplied' definition' =
          schema.coerceVariable supplied definition := by
      intro definition hm definition' hv
      rw [hv.coerceVariable_eq (hb definition hm)]
      exact eq_of_eqvGen (f := (schema.coerceVariable · definition))
        (fun _ _ hstep => hstep.coerceVariable_eq hm) hs
    have hall : List.Forall₂ (fun definition definition' => definition'.name = definition.name ∧
        schema.coerceVariable supplied' definition' = schema.coerceVariable supplied definition)
        declared declared' := by
      rw [List.forall₂_iff_zip] at hdefault ⊢
      exact ⟨hdefault.1, fun hm => ⟨(hdefault.2 hm).name,
        hvariable _ (List.of_mem_zip hm).1 _ (hdefault.2 hm)⟩⟩
    exact ⟨hall.imp fun _ _ h => h.2, coerceVariables_congr_of_forall₂ hall⟩

end Schema

/-! ## 7. Variations to look at -/

namespace VariationSample

open InputSample (schema)

def filterArgument : InputValueDefinition where
  name := "filter"
  type := .named "Filter" false

/-- A filter with another one inside, which has these fields. -/
def filter (inner : List (Name × Literal)) : List (Name × Literal) :=
  [("name", .string "outer"), ("inner", .object inner)]

def inner : List (Name × Literal) :=
  [("name", .string "inner"), ("limit", .int "1")]

/-- The fields in another order, and one that is not declared. -/
def innerVaried : List (Name × Literal) :=
  [("limit", .int "1"), ("more", .null), ("name", .string "inner")]

def given : List Argument :=
  [⟨"filter", .object (filter inner)⟩]

def givenVaried : List Argument :=
  [⟨"page", .int "1"⟩, ⟨"filter", .object (filter innerVaried).reverse⟩]

/-- A variable that is not supplied, with a filter for its default. -/
def defaulted (inner : List (Name × Literal)) : VariableDefinition :=
  { InputSample.variableDefinition with
    name := "standard"
    default := some (.object (filter inner)) }

def definitions : List VariableDefinition :=
  [InputSample.variableDefinition, defaulted inner]

def definitionsVaried : List VariableDefinition :=
  [InputSample.variableDefinition,
    { defaulted [] with default := some (.object (filter innerVaried).reverse) }]

/-- What is supplied, less the member that is not declared, in another order. -/
def suppliedVaried : Json.Members :=
  [("filter", .object [("name", .string "outer"), ("tags", .string "tag")])]

theorem builtInScalars : schema.BuiltInScalars (.named "Filter" false) :=
  InputSample.standard_filter.builtInScalars

theorem fieldType?_inner :
    schema.fieldType? (.named "Filter" false) "inner" = some (.named "Filter" false) := by
  have hm : InputSample.innerField ∈ InputSample.filter.fields.entries := .tail _ (.head _)
  exact Schema.fieldType?_of_mem InputSample.get?_filter hm

theorem fieldType?_undeclared {key : Name} (hk : InputSample.filter.fields.get? key = none) :
    schema.fieldType? (.named "Filter" false) key = none := by
  have ht : schema.types.get? (TypeRef.named "Filter" false).innermost =
      some (.input InputSample.filter) := InputSample.get?_filter
  rw [Schema.fieldType?, ht]
  exact congrArg (Option.map (·.type)) hk

/-- A variation of the inner filter is one of the outer filter. -/
theorem varies_filter {fields fields' : List (Name × Literal)}
    (h : schema.LiteralVaries (.object fields) (.object fields') (.named "Filter" false)) :
    schema.LiteralVaries (.object (filter fields)) (.object (filter fields'))
      (.named "Filter" false) := by
  have hfield : schema.LiteralVaries
      (.object ([("name", .string "outer")] ++ ("inner", .object fields) :: []))
      (.object ([("name", .string "outer")] ++ ("inner", .object fields') :: []))
      (.named "Filter" false) := by
    refine .field fun fieldType hf => ?_
    cases fieldType?_inner.symm.trans hf
    exact h
  exact hfield

/-- First the inner fields are put in another order and get one more, and then the outer ones are
put in another order. -/
theorem varies_literal : Relation.EqvGen
    (schema.LiteralVaries · · (.named "Filter" false))
    (.object (filter inner)) (.object (filter innerVaried).reverse) := by
  have hpermuted : schema.LiteralVaries (.object inner) (.object inner.reverse)
      (.named "Filter" false) := .permuted (by decide) (List.reverse_perm _).symm
  have hextra : schema.LiteralVaries (.object inner.reverse) (.object innerVaried)
      (.named "Filter" false) := by
    have h : schema.LiteralVaries
        (.object ([("limit", .int "1")] ++ [("name", .string "inner")]))
        (.object ([("limit", .int "1")] ++ ("more", .null) :: [("name", .string "inner")]))
        (.named "Filter" false) := .extra (fieldType?_undeclared (by decide))
    exact h
  have houter : schema.LiteralVaries (.object (filter innerVaried))
      (.object (filter innerVaried).reverse) (.named "Filter" false) :=
    .permuted (by decide) (List.reverse_perm _).symm
  exact .trans _ _ _ (.rel _ _ (varies_filter hpermuted))
    (.trans _ _ _ (.rel _ _ (varies_filter hextra)) (.rel _ _ houter))

/-- An argument that is not declared comes first, and then the filter is varied. -/
theorem argumentsVary :
    Relation.EqvGen (schema.ArgumentsVary [filterArgument]) given givenVaried := by
  have hextra : schema.ArgumentsVary [filterArgument] ([] ++ given)
      ([] ++ ⟨"page", .int "1"⟩ :: given) := .extra (by decide)
  have hinside : ∀ literal literal' : Literal,
      schema.LiteralVaries literal literal' (.named "Filter" false) →
      schema.ArgumentsVary [filterArgument] [⟨"page", .int "1"⟩, ⟨"filter", literal⟩]
        [⟨"page", .int "1"⟩, ⟨"filter", literal'⟩] := by
    intro literal literal' h
    have hread : ∀ input ∈ [filterArgument], input.name = "filter" →
        schema.LiteralVaries literal literal' input.type := by
      intro input hm _
      cases List.mem_singleton.mp hm
      exact h
    have hstep : schema.ArgumentsVary [filterArgument]
        ([⟨"page", .int "1"⟩] ++ [⟨"filter", literal⟩])
        ([⟨"page", .int "1"⟩] ++ [⟨"filter", literal'⟩]) := .inside hread
    exact hstep
  exact .trans _ _ _ (.rel _ _ hextra) (eqvGen_map hinside varies_literal)

/-- Without the member that is not declared, and then in another order. -/
theorem suppliedVary :
    Relation.EqvGen (schema.SuppliedVary definitions) InputSample.complete suppliedVaried := by
  have hextra : schema.JsonVaries
      (.object ([] ++ [("tags", .string "tag"), ("name", .string "outer")]))
      (.object ([] ++ ("other", .null) :: [("tags", .string "tag"), ("name", .string "outer")]))
      (.named "Filter" false) :=
    .extra InputSample.get?_filter (fieldType?_undeclared (by decide))
  have hpermuted : schema.JsonVaries
      (.object [("tags", .string "tag"), ("name", .string "outer")])
      (.object [("name", .string "outer"), ("tags", .string "tag")]) (.named "Filter" false) :=
    .permuted InputSample.get?_filter (by decide) (List.Perm.swap _ _ _)
  have hinside : ∀ json json' : Json, schema.JsonVaries json json' (.named "Filter" false) →
      schema.SuppliedVary definitions [("filter", json)] [("filter", json')] := by
    intro json json' h
    have htype : ∀ definition ∈ definitions, definition.type = .named "Filter" false :=
      List.forall_mem_cons.mpr ⟨rfl, List.forall_mem_singleton.mpr rfl⟩
    have hread : ∀ definition ∈ definitions, definition.name = "filter" →
        schema.JsonVaries json json' definition.type := by
      intro definition hm _
      rwa [htype definition hm]
    have hstep : schema.SuppliedVary definitions ([] ++ [("filter", json)])
        ([] ++ [("filter", json')]) := .inside hread
    exact hstep
  exact .trans _ _ _ (.symm _ _ (.rel _ _ (hinside _ _ hextra)))
    (.rel _ _ (hinside _ _ hpermuted))

theorem defaultsVary : List.Forall₂ schema.DefaultVaries definitions definitionsVaried :=
  .cons ⟨rfl, rfl, rfl, .none⟩ (.cons ⟨rfl, rfl, rfl, .some varies_literal⟩ .nil)

end VariationSample

theorem Schema.inputs_of_varies_sample :
    InputSample.description.build = .ok InputSample.schema ∧
    InputSample.schema.BuiltInScalars (.named "Filter" false) ∧
    Relation.EqvGen (InputSample.schema.ArgumentsVary [VariationSample.filterArgument])
      VariationSample.given VariationSample.givenVaried ∧
    Relation.EqvGen (InputSample.schema.SuppliedVary VariationSample.definitions)
      InputSample.complete VariationSample.suppliedVaried ∧
    List.Forall₂ InputSample.schema.DefaultVaries VariationSample.definitions
      VariationSample.definitionsVaried ∧
    (InputSample.schema.coerceArguments [] [VariationSample.filterArgument]
        VariationSample.givenVaried).keys = ["filter"] ∧
    InputSample.schema.coerceArguments [] [VariationSample.filterArgument]
        VariationSample.givenVaried =
      InputSample.schema.coerceArguments [] [VariationSample.filterArgument]
        VariationSample.given ∧
    InputSample.schema.coerceVariables VariationSample.definitionsVaried
        VariationSample.suppliedVaried =
      InputSample.schema.coerceVariables VariationSample.definitions InputSample.complete := by
  have hb := VariationSample.builtInScalars
  have hvariables : ∀ definition ∈ VariationSample.definitions,
      InputSample.schema.BuiltInScalars definition.type :=
    List.forall_mem_cons.mpr ⟨hb, List.forall_mem_singleton.mpr hb⟩
  obtain ⟨harguments, hvaried⟩ := inputs_of_varies InputSample.schema
  have hread := fun given => harguments [VariationSample.filterArgument] (List.nodup_singleton _)
    (List.forall_mem_singleton.mpr hb) [] given
  refine ⟨InputSample.build_eq_ok, hb, VariationSample.argumentsVary, VariationSample.suppliedVary,
    VariationSample.defaultsVary, (hread _).1, ?_, ?_⟩
  · exact (hread _).2 _ VariationSample.argumentsVary
  · exact (hvaried _ _ hvariables VariationSample.defaultsVary _ _
      VariationSample.suppliedVary).2

end GraphQL
