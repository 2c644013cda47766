import Mathlib.Data.List.Forall2
import Mathlib.Data.List.Induction
import GraphQL.Proofs.Input.Defaults

/-!
# `GraphQL/Proofs/Input/Absence.lean` — nothing in place of null

Null and nothing are the same input. A null can be left out of an object, of the arguments of a node
or of what is supplied for variables, and a variable without a value can be written for it, and
nothing that is read changes. Neither does what is refused: a type that excludes null is not content
with nothing either. And wherever one of the two stands, the declared default takes its place.

There are five readings in which this could go wrong, each with its own rule for what is missing. So
the ways to leave a null out are spelled out one by one, as steps from what is given to what is left
of it (`Schema.JsonOmits`, `Schema.LiteralOmits`, `Schema.ArgumentsOmit`, `Schema.SuppliedOmits`,
`Schema.DefaultOmits`). They go by types, because the objects that count are those at the type of an
input object: what a scalar type of the author is given is for the author to look at, nulls and all.
-/

set_option autoImplicit false

namespace GraphQL

/-! ## 1. Tables with an entry less -/

namespace Entries

variable {α β : Type} {before after : Entries α} {key wanted : String}

/-- The last entry of a key is the one that comes into a table. -/
theorem get?_ofList_of_last {before after : List (String × α)} {key : String} {entry : α}
    (ha : ∀ other ∈ after, other.1 ≠ key) :
    get? (ofList (before ++ (key, entry) :: after)) key = some entry := by
  induction after using List.reverseRecOn with
  | nil => rw [ofList, List.foldl_append, List.foldl_cons, List.foldl_nil, get?_put, if_pos rfl]
  | append_singleton after last ih =>
    rw [List.forall_mem_append, List.forall_mem_singleton] at ha
    have hput : ofList (before ++ (key, entry) :: (after ++ [last])) =
        put (ofList (before ++ (key, entry) :: after)) last.1 last.2 := by
      simp only [ofList, List.foldl_append, List.foldl_cons, List.foldl_nil]
    rw [hput, get?_put, if_neg ha.2, ih ha.1]

/-- Where a missing entry counts as null, an entry that is null can be missing. -/
theorem getD_get?_of_omitted (hk : key ∉ (before ++ after).keys) (null : α) (wanted : String) :
    (get? (before ++ after) wanted).getD null =
      (get? (before ++ (key, null) :: after) wanted).getD null := by
  by_cases hw : key = wanted
  · subst hw
    -- No other entry has the key, so there is null to be found before and nothing after.
    have hnone : get? (before ++ after) key = none :=
      Option.eq_none_iff_forall_ne_some.mpr fun _ h => hk (mem_keys_of_get? h)
    rw [hnone, get?_append]
    rw [get?_append, Option.or_eq_none_iff] at hnone
    rw [hnone.1, Option.none_or, get?, if_pos rfl]
    rfl
  · rw [get?_append, get?_append, get?, if_neg hw]

/-- An entry can be changed if the change does not show where it is looked up. -/
theorem getD_get?_of_changed (f : α → β) {entry entry' : α}
    (h : key = wanted → f entry' = f entry) (null : α) :
    f ((get? (before ++ (key, entry') :: after) wanted).getD null) =
      f ((get? (before ++ (key, entry) :: after) wanted).getD null) := by
  rw [get?_append, get?_append]
  cases get? before wanted with
  | some _ => rfl
  | none =>
    rw [Option.none_or, Option.none_or, get?, get?]
    split
    · next hw => exact h hw
    · rfl

end Entries

/-- A table has its names once, so an entry is the one of its name. -/
theorem Table.eq_of_name_eq {α : Type} [Named α] {table : Table α} {entry other : α}
    (h : entry ∈ table.entries) (h' : other ∈ table.entries)
    (hn : Named.name other = Named.name entry) : other = entry :=
  Option.some.inj ((get?_eq_some_iff.mpr ⟨h', hn⟩).symm.trans (get?_eq_some_iff.mpr ⟨h, rfl⟩))

/-- An assembled value has all fields of its type. -/
theorem InputObjectType.get?_assemble {type : InputObjectType}
    (field : InputValueDefinition → Value) {input : InputValueDefinition}
    (hm : input ∈ type.fields.entries) :
    ∃ entries, type.assemble field = .map entries ∧
      Entries.get? entries input.name = some (input.withDefault (field input)) := by
  refine ⟨_, rfl, Entries.get?_of_mem ?_ (List.mem_map_of_mem hm)⟩
  rw [Entries.keys, List.map_map]
  exact type.fields.distinct

namespace Schema

variable (schema : Schema)

/-! ## 2. Supplied values -/

/-- At a type, the second of two JSON values lacks a null of the first: a member, with a key that no
other member has, of an object at an input object type. -/
inductive JsonOmits : Json → Json → TypeRef → Prop where
  | member {before after : Json.Members} {key name : Name} {required : Bool}
    {type : InputObjectType} (ht : schema.types.get? name = some (.input type))
    (hk : key ∉ Entries.keys (before ++ after)) :
    JsonOmits (.object (before ++ (key, .null) :: after)) (.object (before ++ after))
      (.named name required)
  /-- In the value of a declared field. -/
  | inside {before after : Json.Members} {json json' : Json} {name : Name} {required : Bool}
    {type : InputObjectType} {input : InputValueDefinition}
    (ht : schema.types.get? name = some (.input type)) (hm : input ∈ type.fields.entries)
    (h : JsonOmits json json' input.type) :
    JsonOmits (.object (before ++ (input.name, json) :: after))
      (.object (before ++ (input.name, json') :: after)) (.named name required)
  | item {before after : List Json} {json json' : Json} {item : TypeRef} {required : Bool}
    (h : JsonOmits json json' item) :
    JsonOmits (.array (before ++ json :: after)) (.array (before ++ json' :: after))
      (.list item required)
  /-- In the only item of a list that is not written. -/
  | single {members members' : Json.Members} {item : TypeRef} {required : Bool}
    (h : JsonOmits (.object members) (.object members') item) :
    JsonOmits (.object members) (.object members') (.list item required)

/-- Of two lists of supplied values, the second lacks a null of the first: an entry with a key that
no other entry has, or a null in the value of a variable. -/
inductive SuppliedOmits (declared : List VariableDefinition) :
    Json.Members → Json.Members → Prop where
  | entry {before after : Json.Members} {key : Name}
    (hk : key ∉ Entries.keys (before ++ after)) :
    SuppliedOmits declared (before ++ (key, .null) :: after) (before ++ after)
  | inside {before after : Json.Members} {key : Name} {json json' : Json}
    (h : ∀ definition ∈ declared, definition.name = key →
      schema.JsonOmits json json' definition.type) :
    SuppliedOmits declared (before ++ (key, json) :: after) (before ++ (key, json') :: after)

variable {schema}

namespace JsonOmits

variable {json json' : Json} {type : TypeRef}

theorem isNull_eq_false (h : schema.JsonOmits json json' type) :
    json.isNull = false ∧ json'.isNull = false := by
  cases h <;> exact ⟨rfl, rfl⟩

theorem isValid_eq (h : schema.JsonOmits json json' type) :
    schema.isValid (.ofJson json') type = schema.isValid (.ofJson json) type := by
  induction h with
  | member ht hk =>
    rw [isValid_ofJson_object _ ht, isValid_ofJson_object _ ht]
    refine all_congr_of_mem fun other _ => ?_
    rw [Entries.getD_get?_of_omitted hk]
  | @inside before after json json' _ _ _ input ht hm _ ih =>
    rw [isValid_ofJson_object _ ht, isValid_ofJson_object _ ht]
    refine all_congr_of_mem fun other ho => ?_
    -- The field that looks up the key is the one whose value has changed, since names are distinct.
    refine Entries.getD_get?_of_changed (fun json => schema.isValid (.ofJson json) other.type)
      (fun hn => ?_) .null
    cases Table.eq_of_name_eq ho hm hn
    exact ih
  | item _ ih =>
    rw [isValid_ofJson_array, isValid_ofJson_array]
    simp only [List.all_append, List.all_cons, ih]
  | single _ ih => rw [isValid_ofJson_single rfl, isValid_ofJson_single rfl, ih]

theorem coerceSupplied_eq (h : schema.JsonOmits json json' type) :
    schema.coerceSupplied (.ofJson json') type = schema.coerceSupplied (.ofJson json) type := by
  induction h with
  | member ht hk =>
    rw [coerceSupplied_ofJson_object _ ht, coerceSupplied_ofJson_object _ ht]
    refine InputObjectType.assemble_congr fun other _ => ?_
    rw [Entries.getD_get?_of_omitted hk]
  | @inside before after json json' _ _ _ input ht hm _ ih =>
    rw [coerceSupplied_ofJson_object _ ht, coerceSupplied_ofJson_object _ ht]
    refine InputObjectType.assemble_congr fun other ho => ?_
    refine Entries.getD_get?_of_changed
      (fun json => schema.coerceSupplied (.ofJson json) other.type) (fun hn => ?_) .null
    cases Table.eq_of_name_eq ho hm hn
    exact ih
  | item _ ih =>
    rw [coerceSupplied_ofJson_array, coerceSupplied_ofJson_array]
    simp only [List.map_append, List.map_cons, ih]
  | single _ ih =>
    rw [coerceSupplied_ofJson_single rfl, coerceSupplied_ofJson_single rfl, ih]

end JsonOmits

/-- What stands in place of nothing is null, so anything else is given. -/
theorem eq_some_of_getD {json : Json} {given : Option Json} (hg : given.getD .null = json)
    (hn : json.isNull = false) : given = some json := by
  cases given with
  | none =>
    cases hg
    cases hn
  | some given => exact congrArg some hg

/-- A variable depends on what is supplied for it, or null in place of nothing, by whether that is
null, whether it is valid and what it is read as. -/
theorem coerceVariable_congr {supplied supplied' : Json.Members} {definition : VariableDefinition}
    {json json' : Json} (hg : (supplied.get? definition.name).getD .null = json)
    (hg' : (supplied'.get? definition.name).getD .null = json')
    (hn : json'.isNull = json.isNull)
    (hv : schema.isValid (.ofJson json') definition.type =
      schema.isValid (.ofJson json) definition.type)
    (hc : schema.coerceSupplied (.ofJson json') definition.type =
      schema.coerceSupplied (.ofJson json) definition.type) :
    schema.coerceVariable supplied' definition = schema.coerceVariable supplied definition := by
  cases hnull : json.isNull with
  | true =>
    -- Null may be given or nothing, and either is read as null.
    have hsame : json' = json :=
      (Json.isNull_iff.mp (hn.trans hnull)).trans (Json.isNull_iff.mp hnull).symm
    unfold coerceVariable
    rw [Value.ofOption_ofJson, Value.ofOption_ofJson, hg, hg', hsame]
  | false =>
    have hgiven := eq_some_of_getD hg hnull
    have hgiven' := eq_some_of_getD hg' (hn.trans hnull)
    cases hl : (schema.get? definition.type.innermost).isSome with
    | false => rw [coerceVariable_of_unlisted hl, coerceVariable_of_unlisted hl]
    | true =>
      cases hvalid : schema.isValid (.ofJson json) definition.type with
      | false =>
        rw [coerceVariable_of_invalid hl (by rw [hg', hv, hvalid]),
          coerceVariable_of_invalid hl (by rw [hg, hvalid])]
      | true =>
        rw [coerceVariable_of_given hl hgiven' (by simp [hn, hnull]) (hv.trans hvalid),
          coerceVariable_of_given hl hgiven (by simp [hnull]) hvalid, hc]

/-- A null that is left out of what is supplied changes no variable. -/
theorem SuppliedOmits.coerceVariable_eq {declared : List VariableDefinition}
    {supplied supplied' : Json.Members} (h : schema.SuppliedOmits declared supplied supplied')
    {definition : VariableDefinition} (hm : definition ∈ declared) :
    schema.coerceVariable supplied' definition = schema.coerceVariable supplied definition := by
  cases h with
  | entry hk => exact coerceVariable_congr rfl (Entries.getD_get?_of_omitted hk _ _) rfl rfl rfl
  | @inside before after key json json' h =>
    -- A value with a null in it is not null itself, before and after.
    have homits := fun hn : key = definition.name => h definition hm hn.symm
    have hnull : key = definition.name → json'.isNull = json.isNull := fun hn =>
      (homits hn).isNull_eq_false.2.trans (homits hn).isNull_eq_false.1.symm
    exact coerceVariable_congr rfl rfl (Entries.getD_get?_of_changed Json.isNull hnull .null)
      (Entries.getD_get?_of_changed (fun json => schema.isValid (.ofJson json) definition.type)
        (fun hn => (homits hn).isValid_eq) .null)
      (Entries.getD_get?_of_changed
        (fun json => schema.coerceSupplied (.ofJson json) definition.type)
        (fun hn => (homits hn).coerceSupplied_eq) .null)

end Schema

/-! ## 3. Literals -/

/-- A literal that comes to nothing: null, or a variable without a value. -/
inductive Literal.Unset (unset : Name → Prop) : Literal → Prop where
  | null : Unset unset .null
  | variable {name : Name} (h : unset name) : Unset unset (.variable name)

namespace Schema

variable (schema : Schema)

/-- At a type, the second of two literals lacks a null of the first, or has a variable without a
value for it. -/
inductive LiteralOmits (unset : Name → Prop) : Literal → Literal → TypeRef → Prop where
  | variable {name : Name} {type : TypeRef} (h : unset name) :
    LiteralOmits unset .null (.variable name) type
  | field {before after : List (Name × Literal)} {key name : Name} {required : Bool}
    {type : InputObjectType} (ht : schema.types.get? name = some (.input type))
    (hk : key ∉ Entries.keys (before ++ after)) :
    LiteralOmits unset (.object (before ++ (key, .null) :: after)) (.object (before ++ after))
      (.named name required)
  /-- In the literal of a declared field. -/
  | inside {before after : List (Name × Literal)} {literal literal' : Literal} {name : Name}
    {required : Bool} {type : InputObjectType} {input : InputValueDefinition}
    (ht : schema.types.get? name = some (.input type)) (hm : input ∈ type.fields.entries)
    (h : LiteralOmits unset literal literal' input.type) :
    LiteralOmits unset (.object (before ++ (input.name, literal) :: after))
      (.object (before ++ (input.name, literal') :: after)) (.named name required)
  | item {before after : List Literal} {literal literal' : Literal} {item : TypeRef}
    {required : Bool} (h : LiteralOmits unset literal literal' item) :
    LiteralOmits unset (.list (before ++ literal :: after)) (.list (before ++ literal' :: after))
      (.list item required)
  /-- In the only item of a list that is not written. -/
  | single {fields fields' : List (Name × Literal)} {item : TypeRef} {required : Bool}
    (h : LiteralOmits unset (.object fields) (.object fields') item) :
    LiteralOmits unset (.object fields) (.object fields') (.list item required)

/-- Of two lists of arguments, the second lacks a null of the first: an argument with a name that no
other argument has, or a null in the literal of an argument. A variable without a value can stand
for the null. -/
inductive ArgumentsOmit (unset : Name → Prop) (declared : List InputValueDefinition) :
    List Argument → List Argument → Prop where
  | argument {before after : List Argument} {name : Name}
    (hn : ∀ other ∈ before ++ after, other.name ≠ name) :
    ArgumentsOmit unset declared (before ++ ⟨name, .null⟩ :: after) (before ++ after)
  | inside {before after : List Argument} {name : Name} {literal literal' : Literal}
    (h : ∀ input ∈ declared, input.name = name →
      schema.LiteralOmits unset literal literal' input.type) :
    ArgumentsOmit unset declared (before ++ ⟨name, literal⟩ :: after)
      (before ++ ⟨name, literal'⟩ :: after)

/-- Of two declarations of a variable, the second has a default that lacks nulls of the first. In a
default no variable has a value. -/
structure DefaultOmits (definition definition' : VariableDefinition) : Prop where
  location : definition'.location = definition.location
  name : definition'.name = definition.name
  type : definition'.type = definition.type
  default : Option.Rel
    (Relation.ReflTransGen fun literal literal' =>
      schema.LiteralOmits (fun _ => True) literal literal' definition.type)
    definition.default definition'.default

variable {schema} {unset : Name → Prop} {values : Entries Value}
variable (hu : ∀ name, unset name → values.get? name = none)

section Literal

variable {literal literal' : Literal} {type : TypeRef}

include hu

theorem coerceLiteral_of_unset (h : literal.Unset unset) :
    schema.coerceLiteral values literal type = .null := by
  cases h with
  | null => rfl
  | «variable» h => rw [coerceLiteral, hu _ h, Option.getD_none]

theorem LiteralOmits.coerceLiteral_eq (h : schema.LiteralOmits unset literal literal' type) :
    schema.coerceLiteral values literal' type = schema.coerceLiteral values literal type := by
  induction h with
  | «variable» h => rw [coerceLiteral_of_unset hu (.variable h), coerceLiteral_null]
  | field ht hk =>
    rw [coerceLiteral_object values _ ht, coerceLiteral_object values _ ht]
    refine InputObjectType.assemble_congr fun other _ => ?_
    rw [Entries.getD_get?_of_omitted hk]
  | inside ht hm _ ih =>
    rw [coerceLiteral_object values _ ht, coerceLiteral_object values _ ht]
    refine InputObjectType.assemble_congr fun other ho => ?_
    refine Entries.getD_get?_of_changed
      (fun literal => schema.coerceLiteral values literal other.type) (fun hn => ?_) .null
    cases Table.eq_of_name_eq ho hm hn
    exact ih
  | item _ ih =>
    rw [coerceLiteral_list, coerceLiteral_list]
    simp only [List.map_append, List.map_cons, ih]
  | single _ ih => rw [coerceLiteral_single values rfl, coerceLiteral_single values rfl, ih]

/-- A null that is left out of the arguments changes none of their values. -/
theorem ArgumentsOmit.coerceArguments_eq {declared : List InputValueDefinition}
    {given given' : List Argument} (h : schema.ArgumentsOmit unset declared given given') :
    schema.coerceArguments values declared given' =
      schema.coerceArguments values declared given := by
  cases h with
  | @argument before after name hn =>
    unfold coerceArguments
    refine congrArg Entries.ofList (List.map_congr_left fun input _ => ?_)
    rw [List.find?_append, List.find?_append]
    by_cases hname : name = input.name
    · subst hname
      have hnone : ∀ arguments : List Argument, arguments ⊆ before ++ after →
          (arguments.find? fun argument => argument.name = input.name) = none :=
        fun _ hs => List.find?_eq_none.mpr fun other hm => by simpa using hn other (hs hm)
      rw [hnone _ (List.subset_append_left _ _), hnone _ (List.subset_append_right _ _),
        List.find?_cons, decide_eq_true rfl]
      rfl
    · rw [List.find?_cons, decide_eq_false hname]
  | inside h =>
    exact coerceArguments_congr values (fun input hm hn => (h input hm hn).coerceLiteral_eq hu) _ _

theorem coerceArguments_of_omits {declared : List InputValueDefinition}
    {given given' : List Argument}
    (h : Relation.ReflTransGen (schema.ArgumentsOmit unset declared) given given') :
    schema.coerceArguments values declared given' =
      schema.coerceArguments values declared given := by
  induction h with
  | refl => rfl
  | tail _ hstep ih => exact (hstep.coerceArguments_eq hu).trans ih

end Literal

/-! ## 4. Variables -/

section Variables

variable {supplied supplied' : Json.Members} {definition definition' : VariableDefinition}
variable {declared declared' before after : List VariableDefinition} {values : Entries Value}

theorem DefaultOmits.refl (definition : VariableDefinition) :
    schema.DefaultOmits definition definition where
  location := rfl
  name := rfl
  type := rfl
  default := by
    cases definition.default with
    | none => exact .none
    | some literal => exact .some .refl

/-- A null that is left out of a default changes nothing for its variable. -/
theorem DefaultOmits.coerceVariable_eq (h : schema.DefaultOmits definition definition')
    (supplied : Json.Members) :
    schema.coerceVariable supplied definition' = schema.coerceVariable supplied definition := by
  have hdefault := h.default
  unfold coerceVariable
  rw [h.location, h.name, h.type]
  generalize definition.default = default at hdefault
  generalize definition'.default = default' at hdefault
  cases hdefault with
  | none => rfl
  | @some literal literal' homits =>
    have hliteral : schema.coerceLiteral [] literal' definition.type =
        schema.coerceLiteral [] literal definition.type := by
      induction homits with
      | refl => rfl
      | tail _ hstep ih => exact (hstep.coerceLiteral_eq fun _ _ => rfl).trans ih
    cases Value.ofOption Value.ofJson (supplied.get? definition.name) <;> simp only [hliteral]

/-- Nulls that are left out of defaults and of what is supplied change neither what is refused nor
the table of values. -/
theorem coerceVariables_of_omits (hd : List.Forall₂ schema.DefaultOmits declared declared')
    (hs : Relation.ReflTransGen (schema.SuppliedOmits declared) supplied supplied') :
    schema.coerceVariables declared' supplied' = schema.coerceVariables declared supplied := by
  have hsupplied : schema.coerceVariables declared supplied' =
      schema.coerceVariables declared supplied := by
    induction hs with
    | refl => rfl
    | tail _ hstep ih =>
      refine Eq.trans (coerceVariables_congr_of_forall₂ (List.forall₂_same.mpr ?_)) ih
      exact fun definition hm => ⟨rfl, hstep.coerceVariable_eq hm⟩
  rw [← hsupplied]
  exact coerceVariables_congr_of_forall₂ (hd.imp fun _ _ h => ⟨h.name, h.coerceVariable_eq _⟩)

/-- Where a request is not refused, a variable for which null or nothing is supplied has its
default, or is null if it has none. -/
theorem get?_of_absent (ha : ∀ other ∈ after, other.name ≠ definition.name)
    (hl : (schema.get? definition.type.innermost).isSome = true)
    (hg : (supplied.get? definition.name).getD .null = .null)
    (h : schema.coerceVariables (before ++ definition :: after) supplied = .ok values) :
    values.get? definition.name =
      some (definition.default.elim .null (schema.coerceLiteral [] · definition.type)) := by
  obtain ⟨value, hvalue, hc⟩ := get?_of_coerceVariablesInto_of_last ha h
  rw [hvalue, Option.some.injEq]
  cases hr : definition.type.required with
  | true =>
    -- The request would have been refused.
    rw [coerceVariable_of_required hl hr hg] at hc
    cases hc
  | false =>
    cases hd : definition.default with
    | some default =>
      rw [coerceVariable_of_default hl hd hr hg] at hc
      exact (Except.ok.inj hc).symm
    | none =>
      have hv : schema.isValid .null definition.type = true := congrArg (!·) hr
      unfold coerceVariable at hc
      simp only [Option.isNone_eq_false_iff.mpr hl, Value.ofOption_ofJson, hg, Value.ofJson, hv,
        hd, Bool.false_eq_true, if_false, if_true] at hc
      exact (Except.ok.inj hc).symm

end Variables

/-! ## 5. Defaults -/

/-- Where null stands, or nothing, or a variable without a value, there the default is read: for a
declared argument, for a field of an object literal at an input object type, and for a field of a
supplied object at such a type. Without a default it is null that is read. -/
structure TakesDefaults (schema : Schema) (unset : Name → Prop) (values : Entries Value) :
    Prop where
  argument {before after : List InputValueDefinition} {input : InputValueDefinition}
    {given : List Argument} (ha : ∀ other ∈ after, other.name ≠ input.name)
    (hn : ∀ argument, (given.find? fun argument => argument.name = input.name) = some argument →
      argument.value.Unset unset) :
    (schema.coerceArguments values (before ++ input :: after) given).get? input.name =
      some (input.default.getD .null)
  field {name : Name} {required : Bool} {type : InputObjectType} {input : InputValueDefinition}
    {fields : List (Name × Literal)} (ht : schema.types.get? name = some (.input type))
    (hm : input ∈ type.fields.entries)
    (hn : ∀ literal, Entries.get? fields input.name = some literal → literal.Unset unset) :
    ∃ entries, schema.coerceLiteral values (.object fields) (.named name required) =
        .map entries ∧
      Entries.get? entries input.name = some (input.default.getD .null)
  member {name : Name} {required : Bool} {type : InputObjectType} {input : InputValueDefinition}
    {members : Json.Members} (ht : schema.types.get? name = some (.input type))
    (hm : input ∈ type.fields.entries)
    (hn : ∀ json, members.get? input.name = some json → json = .null) :
    ∃ entries, schema.coerceSupplied (.ofJson (.object members)) (.named name required) =
        .map entries ∧
      Entries.get? entries input.name = some (input.default.getD .null)

include hu

theorem takesDefaults : schema.TakesDefaults unset values where
  argument {before after input given} ha hn := by
    have hlast : ∀ value : InputValueDefinition → Value,
        Entries.get? (Entries.ofList ((before ++ input :: after).map fun input =>
          (input.name, value input))) input.name = some (value input) := by
      intro value
      rw [List.map_append, List.map_cons]
      exact Entries.get?_ofList_of_last (List.forall_mem_map.mpr ha)
    rw [coerceArguments, hlast]
    cases hg : given.find? fun argument => argument.name = input.name with
    | none => rw [input.withDefault_null]
    | some argument =>
      dsimp only
      rw [coerceLiteral_of_unset hu (hn argument hg), input.withDefault_null]
  field {name required type input fields} ht hm hn := by
    rw [coerceLiteral_object values fields ht]
    obtain ⟨entries, he, hentry⟩ := InputObjectType.get?_assemble _ hm
    refine ⟨entries, he, hentry.trans ?_⟩
    have hnull : ((Entries.get? fields input.name).getD .null).Unset unset := by
      cases hg : Entries.get? fields input.name with
      | none => exact .null
      | some literal => exact hn literal hg
    rw [coerceLiteral_of_unset hu hnull, input.withDefault_null]
  member {name required type input members} ht hm hn := by
    rw [coerceSupplied_ofJson_object members ht]
    obtain ⟨entries, he, hentry⟩ := InputObjectType.get?_assemble _ hm
    refine ⟨entries, he, hentry.trans ?_⟩
    have hnull : (members.get? input.name).getD .null = .null := by
      cases hg : members.get? input.name with
      | none => rfl
      | some json => exact hn json hg
    rw [hnull, coerceSupplied_ofJson_null, input.withDefault_null]

end Schema

/-! ## 6. Where the default of a variable does not come in -/

/-- A variable with a default, of a type that is not listed. -/
def UnlistedSample.defaulted : VariableDefinition :=
  { variableDefinition with default := some (.enum "LOW") }

namespace Schema

/-- Null is supplied for a variable with a default. If the type excludes null, the request is
refused; if the type is not listed, the variable is null. -/
theorem not_takesDefault_of_null :
    (InputSample.description.build = .ok InputSample.schema ∧
      InputSample.requiredLimit.default = some (.int "3") ∧
      InputSample.schema.coerceLiteral [] (.int "3") InputSample.requiredLimit.type = .int 3 ∧
      InputSample.schema.coerceVariables [InputSample.requiredLimit] [("limit", .null)] =
        .error (.invalidVariable "limit" .start)) ∧
    (UnlistedSample.description.build = .ok UnlistedSample.schema ∧
      UnlistedSample.defaulted.default = some (.enum "LOW") ∧
      UnlistedSample.schema.coerceLiteral [] (.enum "LOW") UnlistedSample.defaulted.type =
        .string "LOW" ∧
      UnlistedSample.schema.coerceVariables [UnlistedSample.defaulted] [("level", .null)] =
        .ok [("level", .null)]) := by
  constructor
  · have hl : (InputSample.schema.get? "Int").isSome = true := by decide
    have hrefused : InputSample.schema.coerceVariable [("limit", .null)]
        InputSample.requiredLimit = .error (.invalidVariable "limit" .start) :=
      coerceVariable_of_required hl rfl rfl
    refine ⟨InputSample.build_eq_ok, rfl, InputSample.coerceLiteral_three [] true, ?_⟩
    rw [coerceVariables, coerceVariablesInto, hrefused]
  · have hl : (UnlistedSample.schema.get? "Level").isSome = false := by decide
    refine ⟨UnlistedSample.build_eq_ok, rfl, rfl, ?_⟩
    rw [coerceVariables, coerceVariablesInto, coerceVariable_of_unlisted hl]
    rfl

end Schema

end GraphQL
